import Irosh.Client.Connect

/-!
# A client that connects to a node

The surroundings of `connect` when nothing fails on the way: the tickets are found, the
connections are made, the files are there, and the attempts to authenticate are decided
by the node's authenticator. The user types a list of passwords, one for each prompt, and
declines when it is used up.
-/

namespace Irosh

/-- The node that is connected to, and the user. -/
structure NodeWorld (K H P : Type) where
  server : UnifiedAuthenticator K H
  /-- How often the clock has been read. -/
  ticks : Nat
  typed : List P
  /-- How often the user has been prompted (ghost). -/
  prompts : Nat

/-- A client with its key, and what the clock says when it is read. -/
structure ClientSide (K H P T : Type) where
  crypto : Crypto K H P
  key : K
  time : Nat → Nat
  /-- What the wormhole finds. -/
  ticket : T

/-- What `auth_publickey` and `auth_password` of the server's handler answer to a check. An error ends
the session. -/
def authAnswer : Except StorageError Bool → Awaited AuthResult
  | .ok true => .came .success
  | .ok false => .came .refused
  | .error _ => .failed

namespace NodeWorld

variable {K H P T : Type} [DecidableEq K]

def answer (side : ClientSide K H P T) (o : ConnectOp P T) (w : NodeWorld K H P) :
    o.Answer × NodeWorld K H P :=
  match o with
  | .loadBlobs | .loadIdentity | .bind _ | .loadKnownServer | .openBi | .metadata => (true, w)
  | .listenForTicket _ => (.came side.ticket, w)
  | .closeEndpoint _ | .closeConnection => ((), w)
  | .connect _ _ => (.came (), w)
  | .connectStream => (some (.ok ()), w)
  | .authenticatePublickey _ =>
      let checked := w.server.checkPublicKey side.crypto (side.time w.ticks) (side.time (w.ticks + 1)) none
        side.key
      (authAnswer checked.1.result, { w with server := checked.2, ticks := w.ticks + 2 })
  | .authenticatePassword _ password =>
      let checked := w.server.checkPassword side.crypto (side.time w.ticks) (side.time (w.ticks + 1)) none
        password
      (authAnswer checked.1.result, { w with server := checked.2, ticks := w.ticks + 2 })
  | .promptPassword _ =>
      match w.typed with
      | [] => (.came none, { w with prompts := w.prompts + 1 })
      | password :: rest => (.came (some password), { w with typed := rest, prompts := w.prompts + 1 })

/-- A call to `connect`. -/
def connect (side : ClientSide K H P T) (options : ClientOptions P) (target : ResolvedTarget T)
    (w : NodeWorld K H P) : Except ConnectError Established × NodeWorld K H P :=
  (Client.connect options target).eval (answer side) w

end NodeWorld

end Irosh
