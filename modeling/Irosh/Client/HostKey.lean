import Mathlib.Logic.Function.Basic
import Irosh.Lib.FirstWriter
import Irosh.Auth.Unified

/-!
# Host keys, on first use

Connections of a client to one node. `establish_session` loads the key that is pinned for
the node when it starts; `check_server_key` compares the key the server shows with what
was loaded then, and under `Tofu` a connection that loaded none writes the key it is shown.

The write runs in a blocking task, which goes on when the connection that waits for it is
given up. `accepted` is a ghost: the keys connections have been accepted with since the
record was last removed.
-/

namespace Irosh

open FirstWriter

variable {K : Type}

/-- What `check_server_key` makes of a key; under `Tofu` a first key is to be written. -/
inductive ServerVerdict where
  | accepted
  | mismatch
  | unknownKey
  | learn
  deriving DecidableEq, Repr

/-- `check_server_key`, up to the write. -/
def checkServerKey [DecidableEq K] (policy : HostKeyPolicy) (known : Option K) (key : K) :
    ServerVerdict :=
  if policy = .acceptAll then .accepted
  else
    match known with
    | some knownKey => if key = knownKey then .accepted else .mismatch
    | none =>
        match policy with
        | .strict => .unknownKey
        | .tofu => .learn
        | .acceptAll => .accepted

/-- How far a connection has come. -/
inductive ConnectPc (K : Type) where
  | idle
  /-- `path.exists()` said yes. -/
  | found
  | loaded (known : Option K)
  /-- `write_known_server` runs, and its temporary file has been written or not; the connection
  still waits for it or has been given up. -/
  | learning (key : K) (staged waiting : Bool)
  | accepted (key : K)
  /-- `ServerKeyMismatch`. -/
  | refused
  | failed (e : StorageError)
  /-- Given up before its check was over. -/
  | dropped
  deriving DecidableEq

/-- The record for the node, and the connections. -/
structure HostKeySite (K : Type) where
  record : Slot K
  pc : Nat → ConnectPc K
  accepted : List K

/-- A step of connection `i`, or a reset. -/
inductive HostKeyEvent (K : Type) where
  /-- The test fails where the path cannot be examined. -/
  | test (i : Nat) (failed : Bool)
  | read (i : Nat) (failure : Option StorageError)
  | check (i : Nat) (key : K)
  /-- `ensure_trust_dirs` and the temporary file. -/
  | stage (i : Nat) (failure : Option StorageError)
  | rename (i : Nat) (failure : Option StorageError)
  | giveUp (i : Nat)
  | resetKnownServer (failure : Option StorageError)

namespace HostKeySite

def new (record : Slot K) : HostKeySite K := ⟨record, fun _ => .idle, []⟩

/-- Connection `i` moves on. -/
def move (s : HostKeySite K) (i : Nat) (pc : ConnectPc K) : HostKeySite K :=
  { s with pc := Function.update s.pc i pc }

/-- Connection `i` is accepted. -/
def accept (s : HostKeySite K) (i : Nat) (key : K) : HostKeySite K :=
  { s.move i (.accepted key) with accepted := s.accepted ++ [key] }

/-- The second half of `load_known_server`. -/
def readRecord (record : Slot K) : ConnectPc K :=
  match record with
  | .full key => .loaded (some key)
  | .empty | .broken => .failed .fileRead

def step [DecidableEq K] (policy : HostKeyPolicy) (s : HostKeySite K) :
    HostKeyEvent K → Option (HostKeySite K)
  | .test i failed =>
      match s.pc i with
      | .idle =>
          -- `AcceptAll` does not load
          if policy = .acceptAll then some (s.move i (.loaded none))
          -- `exists` takes any failure for a no
          else if failed ∨ s.record = .empty then some (s.move i (.loaded none))
          else some (s.move i .found)
      | _ => none
  | .read i failure =>
      match s.pc i, failure with
      | .found, none => some (s.move i (readRecord s.record))
      | .found, some e => some (s.move i (.failed e))
      | _, _ => none
  | .check i key =>
      match s.pc i with
      | .loaded known =>
          match checkServerKey policy known key with
          | .accepted => some (s.accept i key)
          | .mismatch | .unknownKey => some (s.move i .refused)
          | .learn => some (s.move i (.learning key false true))
      | _ => none
  | .stage i failure =>
      match s.pc i, failure with
      | .learning key false waiting, none => some (s.move i (.learning key true waiting))
      | .learning _ false _, some e => some (s.move i (.failed e))
      | _, _ => none
  | .rename i failure =>
      match s.pc i, failure with
      | .learning key true true, none => some { s.accept i key with record := .full key }
      | .learning key true false, none => some { s.move i .dropped with record := .full key }
      | .learning _ true _, some e => some (s.move i (.failed e))
      | _, _ => none
  | .giveUp i =>
      match s.pc i with
      | .idle | .found | .loaded _ => some (s.move i .dropped)
      | .learning key staged true => some (s.move i (.learning key staged false))
      | _ => none
  | .resetKnownServer failure =>
      match failure with
      | some _ => some s
      | none => if s.record = .empty then some s else some { s with record := .empty, accepted := [] }

end HostKeySite

end Irosh
