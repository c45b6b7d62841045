import Irosh.Lib.Exec
import Irosh.Storage.Trust

/-!
# One accepted connection and its side streams

Three kinds of task share a connection. `SshProtocol::accept` sets things up and
waits for the SSH session; the session runs the handler, whose two
authentication callbacks open the gate; and every further stream the peer opens
is dispatched by a task of its own, which reads four magic bytes and then waits
for the gate.

The gate is a `watch` channel. Its sender is moved into the handler, and
`accept` keeps a clone of the handler, so there are two places from which it can
vanish: the end of the session and the return of `accept`. The wait of a side
stream ends when the value is `true` *or when the last sender is gone*, and the
code that waits does not look at which of the two it was.

The authenticator is a trait object: a check may answer anything.
-/

namespace Irosh

/-- The first four bytes of a side stream. -/
abbrev Magic := UInt8 × UInt8 × UInt8 × UInt8

/-- `transport::metadata::codec::MAGIC`, the bytes of "IRMD". -/
def metadataMagic : Magic := (0x49, 0x52, 0x4d, 0x44)

/-- `transport::transfer::codec::MAGIC`, the bytes of "IRFT". -/
def transferMagic : Magic := (0x49, 0x52, 0x46, 0x54)

/-- How far `SshProtocol::accept` has come. -/
inductive AcceptPc where
  /-- Waiting for the SSH stream; there is no gate yet. -/
  | acceptBi
  /-- The gate exists and the listener runs; the authenticator is being chosen. -/
  | preparing
  /-- `run_stream` has the handler, `accept` holds its clone. -/
  | serving
  | returned
  deriving DecidableEq, Repr

/-- Where `handle_side_stream_dispatch` stands on one stream. -/
inductive SideStream where
  | reading
  | read (magic : Magic)
  | waiting (magic : Magic)
  /-- In the metadata branch. -/
  | metadata
  /-- In `handle_transfer_stream`. -/
  | transfer
  | unknown
  | failed
  deriving DecidableEq, Repr

/-- The branch taken behind the gate. -/
def dispatch (magic : Magic) : SideStream :=
  if magic = metadataMagic then .metadata
  else if magic = transferMagic then .transfer
  else .unknown

/-- The stream has been let through to one of the two services. -/
def SideStream.dispatched : SideStream → Bool
  | .metadata => true
  | .transfer => true
  | _ => false

/-- One connection. -/
structure Connection where
  isPairing : Bool
  accept : AcceptPc
  /-- The SSH session task is alive and owns the handler. -/
  session : Bool
  /-- A check has returned `true`; `open_auth_gate` is the handler's next step. -/
  opening : Bool
  /-- The value in the `watch` channel. -/
  gate : Bool
  /-- The side-stream listener accepts streams. -/
  listening : Bool
  closed : Bool
  streams : List SideStream
  /-- Some check of this connection has returned `true` (ghost). -/
  authed : Bool
  deriving DecidableEq, Repr

/-- What can happen on a connection. -/
inductive ConnEvent where
  | acceptBi (ok : Bool)
  /-- A pairing connection finds no active wormhole. -/
  | refuse
  | serve
  /-- `run_stream` has returned. -/
  | acceptReturns
  /-- `check_public_key` or `check_password` returns. -/
  | check (answer : Except StorageError Bool)
  | openGate
  | sessionEnds
  | openStream
  | listenerStops
  | close
  /-- `read_exact` returns, `none` on failure. -/
  | readMagic (i : Nat) (magic : Option Magic)
  /-- `if !*auth_gate.borrow()`. -/
  | borrow (i : Nat)
  /-- The `select` takes the branch of `wait_for`. -/
  | waitFor (i : Nat)
  /-- The `select` takes the branch of `connection.closed()`. -/
  | waitClosed (i : Nat)

namespace Connection

/-- A connection that has just been accepted. -/
def fresh (isPairing : Bool) : Connection where
  isPairing := isPairing
  accept := .acceptBi
  session := false
  opening := false
  gate := false
  listening := false
  closed := false
  streams := []
  authed := false

/-- Some sender of the gate is still alive. -/
def senders (c : Connection) : Bool :=
  c.accept == .preparing || c.accept == .serving || c.session

/-- Stream `i` moves to `st`. -/
def setStream (c : Connection) (i : Nat) (st : SideStream) : Connection :=
  { c with streams := c.streams.set i st }

/-- What each event does. `send` fails only when no receiver is left to see the value, so
`openGate` always sets it. -/
def step (c : Connection) : ConnEvent → Option Connection
  | .acceptBi ok =>
      if c.accept = .acceptBi then
        some (if ok then { c with accept := .preparing, listening := true }
          else { c with accept := .returned })
      else none
  | .refuse =>
      -- the early return drops the sender, which has not been handed on yet
      if c.accept = .preparing ∧ c.isPairing then some { c with accept := .returned } else none
  | .serve =>
      if c.accept = .preparing then some { c with accept := .serving, session := true } else none
  | .acceptReturns =>
      if c.accept = .serving then some { c with accept := .returned } else none
  | .check answer =>
      if c.session ∧ ¬ c.opening then
        some (match answer with
          | .ok true => { c with opening := true, authed := true }
          | .ok false => c
          | .error _ => c)
      else none
  | .openGate => if c.opening then some { c with opening := false, gate := true } else none
  | .sessionEnds => if c.session ∧ ¬ c.opening then some { c with session := false } else none
  | .openStream =>
      if c.listening then some { c with streams := c.streams ++ [.reading] } else none
  | .listenerStops => if c.listening then some { c with listening := false } else none
  | .close => some { c with closed := true }
  | .readMagic i magic =>
      if c.streams[i]? = some .reading then
        some (c.setStream i (match magic with
          | some m => .read m
          | none => .failed))
      else none
  | .borrow i =>
      match c.streams[i]? with
      | some (.read m) => some (c.setStream i (if c.gate then dispatch m else .waiting m))
      | _ => none
  | .waitFor i =>
      match c.streams[i]? with
      | some (.waiting m) =>
          -- `Ok` and `Err` of `wait_for` are taken alike
          if c.gate ∨ ¬ c.senders then some (c.setStream i (dispatch m)) else none
      | _ => none
  | .waitClosed i =>
      match c.streams[i]? with
      | some (.waiting _) => if c.closed then some (c.setStream i .failed) else none
      | _ => none

/-- Everything an event can do to a connection, by what it needs and what it changes. -/
inductive Effect (c : Connection) (e : ConnEvent) : Connection → Prop where
  | listen (h : c.accept = .acceptBi) :
      Effect c e { c with accept := .preparing, listening := true }
  | returns : Effect c e { c with accept := .returned }
  | serves (h : c.accept = .preparing) : Effect c e { c with accept := .serving, session := true }
  | accepts (h : c.session = true) : Effect c e { c with opening := true, authed := true }
  | rejects : Effect c e c
  | opens (h : c.opening = true) : Effect c e { c with opening := false, gate := true }
  | ends (h : c.opening = false) : Effect c e { c with session := false }
  | stream (h : c.listening = true) : Effect c e { c with streams := c.streams ++ [.reading] }
  | deaf : Effect c e { c with listening := false }
  | closes : Effect c e { c with closed := true }
  /-- A stream moves, but not past the gate. -/
  | moves (i : Nat) (old st : SideStream) (hi : c.streams[i]? = some old)
      (ho : old.dispatched = false) (h : st.dispatched = false) : Effect c e (c.setStream i st)
  /-- A stream goes through the open gate. -/
  | passes (i : Nat) (old : SideStream) (m : Magic) (hi : c.streams[i]? = some old)
      (ho : old.dispatched = false) (h : c.gate = true) : Effect c e (c.setStream i (dispatch m))
  /-- A stream is released because nobody is left to open the gate. -/
  | released (i : Nat) (m : Magic) (he : e = .waitFor i) (hi : c.streams[i]? = some (.waiting m))
      (hg : c.gate = false) (hs : c.senders = false) : Effect c e (c.setStream i (dispatch m))

theorem step_effect {c c' : Connection} {e : ConnEvent} (h : c.step e = some c') :
    Effect c e c' := by
  cases e with
  | acceptBi ok =>
      simp only [step] at h
      split at h
      · rename_i ha
        cases ok with
        | true => cases h; exact .listen ha
        | false => cases h; exact .returns
      · cases h
  | refuse =>
      simp only [step] at h
      split at h
      · cases h; exact .returns
      · cases h
  | serve =>
      simp only [step] at h
      split at h
      · rename_i ha
        cases h; exact .serves ha
      · cases h
  | acceptReturns =>
      simp only [step] at h
      split at h
      · cases h; exact .returns
      · cases h
  | check answer =>
      simp only [step] at h
      split at h
      · rename_i hs
        split at h
        · cases h; exact .accepts hs.1
        · cases h; exact .rejects
        · cases h; exact .rejects
      · cases h
  | openGate =>
      simp only [step] at h
      split at h
      · rename_i ho
        cases h; exact .opens ho
      · cases h
  | sessionEnds =>
      simp only [step] at h
      split at h
      · rename_i hs
        cases h; exact .ends (by simpa using hs.2)
      · cases h
  | openStream =>
      simp only [step] at h
      split at h
      · rename_i hl
        cases h; exact .stream hl
      · cases h
  | listenerStops =>
      simp only [step] at h
      split at h
      · cases h; exact .deaf
      · cases h
  | close => cases h; exact .closes
  | readMagic i magic =>
      simp only [step] at h
      split at h
      · rename_i hr
        cases h
        cases magic with
        | none => exact .moves i .reading .failed hr rfl rfl
        | some m => exact .moves i .reading (.read m) hr rfl rfl
      · cases h
  | borrow i =>
      simp only [step] at h
      split at h
      · rename_i m hr
        cases hg : c.gate with
        | true => rw [hg] at h; cases h; exact .passes i (.read m) m hr rfl hg
        | false => rw [hg] at h; cases h; exact .moves i (.read m) (.waiting m) hr rfl rfl
      · cases h
  | waitFor i =>
      simp only [step] at h
      split at h
      · rename_i m hr
        split at h
        · rename_i hw
          cases h
          cases hg : c.gate with
          | true => exact .passes i (.waiting m) m hr rfl hg
          | false => exact .released i m rfl hr hg (by simpa [hg] using hw)
        · cases h
      · cases h
  | waitClosed i =>
      simp only [step] at h
      split at h
      · rename_i m hr
        split at h
        · cases h; exact .moves i (.waiting m) .failed hr rfl rfl
        · cases h
      · cases h

theorem mem_setStream {c : Connection} {i : Nat} {st x : SideStream}
    (h : x ∈ (c.setStream i st).streams) : x = st ∨ x ∈ c.streams := by
  rcases List.mem_or_eq_of_mem_set h with h | h
  · exact .inr h
  · exact .inl h

/-- A stream that has been let through is not the one that moves. -/
theorem mem_setStream_of_dispatched {c : Connection} {i : Nat} {old st x : SideStream}
    (hi : c.streams[i]? = some old) (ho : old.dispatched = false) (hx : x ∈ c.streams)
    (hd : x.dispatched = true) : x ∈ (c.setStream i st).streams := by
  obtain ⟨j, hj⟩ := List.mem_iff_getElem?.mp hx
  have hne : i ≠ j := by
    intro hij
    subst hij
    rw [hi] at hj
    cases hj
    rw [ho] at hd
    cases hd
  exact List.mem_iff_getElem?.mpr ⟨j, by rw [setStream, List.getElem?_set_ne hne]; exact hj⟩

end Connection

end Irosh
