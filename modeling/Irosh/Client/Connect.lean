import Irosh.Auth.Unified
import Irosh.Lib.Prog

/-!
# Connecting to a peer

`Client::connect`: a wormhole code is first turned into a ticket, over an endpoint of its
own; then the ticket is dialled, up to three times, with a second connection for blobs
behind the first; and over these an SSH session is established.

Establishing a session offers the client's key and, where that is refused, the
credentials or what the user is prompted for, up to three times. All of this has to be
over within a minute, so that whatever it waits for may also not come in time.
-/

namespace Irosh

/-- `SessionState`. -/
inductive SessionState where
  | dialing
  | transportConnected
  | sshHandshaking
  | authenticated
  | shellReady
  | authRejected
  | trustMismatch
  | closed
  deriving DecidableEq, Repr

/-- `is_terminal`. -/
def SessionState.isTerminal : SessionState → Bool
  | .authRejected | .trustMismatch | .closed => true
  | _ => false

/-- The protocol that a connection is asked for. -/
inductive Alpn where
  /-- `wormhole::PAIRING_ALPN`. -/
  | pairing
  /-- `derive_alpn`. -/
  | derived (secret : Option (List Char))
  /-- `iroh_blobs::ALPN`. -/
  | blobs
  deriving DecidableEq

/-- What `connect` uses of `ClientOptions`. -/
structure ClientOptions (P : Type) where
  policy : HostKeyPolicy
  secret : Option (List Char)
  credentials : Option (List Char × P)
  /-- Whether there is a `PasswordPrompter`. -/
  prompter : Bool

/-- `ResolvedTarget`. -/
inductive ResolvedTarget (T : Type) where
  | ticket (t : T)
  | wormholeCode (code : List Char)

/-- How waiting for something ends. -/
inductive Awaited (α : Type) where
  | came (a : α)
  /-- It has failed. -/
  | failed
  /-- The time was up. -/
  | elapsed

/-- `AuthResult`, with everything but `Success` taken together. -/
inductive AuthResult where
  | success
  | refused
  deriving DecidableEq, Repr

/-- The two endpoints that are bound: one to find a peer, one to talk to it. -/
inductive EndpointRole where
  | discovery
  | session
  deriving DecidableEq, Repr

/-- How `connect_stream` ends that does not end well. -/
inductive HandshakeError where
  /-- `russh::Error::Disconnect`. -/
  | disconnected
  | russh
  /-- An error of the handler, such as `ServerKeyMismatch`. -/
  | handler
  deriving DecidableEq, Repr

/-- The errors of `connect`. -/
inductive ConnectError where
  /-- `MetadataFailed`, of the blob store. -/
  | blobStore
  /-- `load_or_generate_identity` has failed. -/
  | identity
  | endpointBind
  | wormhole
  /-- `InvalidTarget`, of a wormhole that was not found in time. -/
  | invalidTarget
  | connectFailed
  /-- `load_known_server` has failed. -/
  | knownServer
  | streamOpenFailed
  | sshHandshakeDisconnected
  | sshNegotiationFailed
  | handlerFailed
  | authenticationFailed
  deriving DecidableEq, Repr

/-- What connecting asks of its surroundings. -/
inductive ConnectOp (P T : Type) where
  | loadBlobs
  | loadIdentity
  | bind (role : EndpointRole)
  | listenForTicket (code : List Char)
  | closeEndpoint (role : EndpointRole)
  | connect (ticket : T) (alpn : Alpn)
  | closeConnection
  | loadKnownServer
  | openBi
  /-- `connect_stream`, with the handshake and the check of the server's key. -/
  | connectStream
  | authenticatePublickey (user : List Char)
  | authenticatePassword (user : List Char) (password : P)
  | promptPassword (user : List Char)
  /-- The metadata exchange, which has a time limit of its own and may fail. -/
  | metadata

def ConnectOp.Answer {P T : Type} : ConnectOp P T → Type
  | .loadBlobs | .loadIdentity | .bind _ | .loadKnownServer | .openBi | .metadata => Bool
  | .listenForTicket _ => Awaited T
  | .closeEndpoint _ | .closeConnection => Unit
  | .connect _ _ => Awaited Unit
  -- `none` when the time is up
  | .connectStream => Option (Except HandshakeError Unit)
  | .authenticatePublickey _ | .authenticatePassword _ _ => Awaited AuthResult
  | .promptPassword _ => Awaited (Option P)

abbrev ConnectProg (P T : Type) := Prog (ConnectOp P T) ConnectOp.Answer

abbrev ConnectOp.perform {P T : Type} (o : ConnectOp P T) : ConnectProg P T o.Answer := Prog.perform o

/-- What `connect` gives of a `Session`: the transport is open, and there is no channel yet. -/
structure Established where
  state : SessionState
  /-- Whether the metadata was obtained. -/
  metadata : Bool
  deriving DecidableEq, Repr

namespace Client

variable {P T : Type}

/-- `DEFAULT_USER`. -/
def defaultUser : List Char := ['i', 'r', 'o', 's', 'h']

/-- `connect_wormhole`. -/
def connectWormhole (code : List Char) : ConnectProg P T (Except ConnectError T) := do
  let identity : Bool ← ConnectOp.loadIdentity.perform
  if identity then
    let bound : Bool ← (ConnectOp.bind .discovery).perform
    if bound then
      let listened : Awaited T ← (ConnectOp.listenForTicket code).perform
      -- the endpoint is closed whatever has come
      let _ : Unit ← (ConnectOp.closeEndpoint .discovery).perform
      pure (match listened with
        | .came ticket => .ok ticket
        | .failed => .error .wormhole
        | .elapsed => .error .invalidTarget)
    else pure (.error .endpointBind)
  else pure (.error .identity)

/-- The attempts that are left. A peer that is reached has to give the blobs connection as well. -/
def dialAttempts (ticket : T) (alpn : Alpn) : Nat → ConnectProg P T (Except ConnectError Unit)
  | 0 => do
      let _ : Unit ← (ConnectOp.closeEndpoint .session).perform
      pure (.error .connectFailed)
  | attempts + 1 => do
      let reached : Awaited Unit ← (ConnectOp.connect ticket alpn).perform
      match reached with
      | .came _ =>
          let blobs : Awaited Unit ← (ConnectOp.connect ticket .blobs).perform
          match blobs with
          | .came _ => pure (.ok ())
          | .failed | .elapsed =>
              let _ : Unit ← ConnectOp.closeConnection.perform
              let _ : Unit ← (ConnectOp.closeEndpoint .session).perform
              pure (.error .connectFailed)
      | .failed | .elapsed => dialAttempts ticket alpn attempts

/-- `dial_p2p`. -/
def dialP2p (options : ClientOptions P) (ticket : T) (isPairing : Bool) :
    ConnectProg P T (Except ConnectError Unit) := do
  let blobs : Bool ← ConnectOp.loadBlobs.perform
  if blobs then
    let identity : Bool ← ConnectOp.loadIdentity.perform
    if identity then
      let bound : Bool ← (ConnectOp.bind .session).perform
      if bound then
        dialAttempts ticket (if isPairing then .pairing else .derived options.secret) 3
      else pure (.error .endpointBind)
    else pure (.error .identity)
  else pure (.error .blobStore)

/-- The prompts that are left. -/
def promptAttempts : Nat → ConnectProg P T (Except ConnectError Unit)
  | 0 => pure (.error .authenticationFailed)
  | attempts + 1 => do
      let prompted : Awaited (Option P) ← (ConnectOp.promptPassword defaultUser).perform
      match prompted with
      | .came (some password) =>
          let result : Awaited AuthResult ←
            (ConnectOp.authenticatePassword defaultUser password).perform
          match result with
          | .came .success => pure (.ok ())
          | .came .refused => promptAttempts attempts
          | .failed | .elapsed => pure (.error .sshNegotiationFailed)
      -- a task that panics counts as no password
      | .came none | .failed => pure (.error .authenticationFailed)
      | .elapsed => pure (.error .sshNegotiationFailed)

/-- What follows when the key was refused. -/
def passwordAuth (options : ClientOptions P) : ConnectProg P T (Except ConnectError Unit) :=
  match options.credentials with
  | some (user, password) => do
      let result : Awaited AuthResult ← (ConnectOp.authenticatePassword user password).perform
      match result with
      | .came .success => pure (.ok ())
      | .came .refused => pure (.error .authenticationFailed)
      | .failed | .elapsed => pure (.error .sshNegotiationFailed)
  | none =>
      if options.prompter then promptAttempts 3 else pure (.error .authenticationFailed)

/-- The authentication: the key first. -/
def authenticate (options : ClientOptions P) : ConnectProg P T (Except ConnectError Unit) := do
  let result : Awaited AuthResult ← (ConnectOp.authenticatePublickey defaultUser).perform
  match result with
  | .came .success => pure (.ok ())
  | .came .refused => passwordAuth options
  | .failed | .elapsed => pure (.error .sshNegotiationFailed)

/-- The block with the limit of 60 seconds. -/
def sshSession (options : ClientOptions P) : ConnectProg P T (Except ConnectError Unit) := do
  let shaken : Option (Except HandshakeError Unit) ← ConnectOp.connectStream.perform
  match shaken with
  | some (.ok _) => authenticate options
  | some (.error .disconnected) => pure (.error .sshHandshakeDisconnected)
  | some (.error .russh) => pure (.error .sshNegotiationFailed)
  | some (.error .handler) => pure (.error .handlerFailed)
  | none => pure (.error .sshNegotiationFailed)

/-- `establish_session` from the two connections on. -/
def openSession (options : ClientOptions P) : ConnectProg P T (Except ConnectError Established) := do
  let opened : Bool ← ConnectOp.openBi.perform
  if opened then
    match ← sshSession options with
    | .ok _ =>
        let metadata : Bool ← ConnectOp.metadata.perform
        pure (.ok ⟨.authenticated, metadata⟩)
    | .error e =>
        let _ : Unit ← ConnectOp.closeConnection.perform
        let _ : Unit ← (ConnectOp.closeEndpoint .session).perform
        pure (.error e)
  else
    let _ : Unit ← (ConnectOp.closeEndpoint .session).perform
    pure (.error .streamOpenFailed)

/-- `establish_session`. -/
def establishSession (options : ClientOptions P) : ConnectProg P T (Except ConnectError Established) := do
  let identity : Bool ← ConnectOp.loadIdentity.perform
  if identity then
    if options.policy = .acceptAll then openSession options
    else
      let known : Bool ← ConnectOp.loadKnownServer.perform
      if known then openSession options else pure (.error .knownServer)
  else pure (.error .identity)

/-- `dial_p2p` and `establish_session`. -/
def dialAndEstablish (options : ClientOptions P) (ticket : T) (isPairing : Bool) :
    ConnectProg P T (Except ConnectError Established) := do
  match ← dialP2p options ticket isPairing with
  | .error e => pure (.error e)
  | .ok _ => establishSession options

/-- `connect`. -/
def connect (options : ClientOptions P) (target : ResolvedTarget T) :
    ConnectProg P T (Except ConnectError Established) :=
  match target with
  | .ticket ticket => dialAndEstablish options ticket false
  | .wormholeCode code => do
      match ← connectWormhole code with
      | .error e => pure (.error e)
      | .ok ticket => dialAndEstablish options ticket true

end Client

end Irosh
