import Mathlib.Logic.Function.Basic
import Irosh.Storage.Trust
import Irosh.Transfer.Sanitize

/-!
# First runs

`load_or_generate_identity`, called by any number of processes on one state directory.
Each call looks whether the secret is there, reads it or makes one up, and writes what it
made up to a temporary file that is then renamed into place. These are separate steps of
the file system, and the calls' steps come in any order.

A temporary file has a random name that no other call uses, so what is in it is kept with
the call. Any step may fail, and a process may end at any point. The look is no exception,
but its failure is no error: `exists` then says no.
-/

namespace Irosh

/-! ## The text of a key -/

/-- `iroh::SecretKey`: the bytes of a key, and what `from_str` makes of a text. -/
structure SecretKeys (K : Type) where
  toBytes : K → List UInt8
  fromStr : List Char → Option K

/-- A digit of `{b:02x}`. -/
def hexChar (n : Nat) : Char := Char.ofNat (if n < 10 then 0x30 + n else 0x61 + (n - 10))

/-- The text that is written for a key. -/
def SecretKeys.hex {K : Type} (sk : SecretKeys K) (k : K) : List Char :=
  (sk.toBytes k).flatMap fun b => [hexChar (b.toNat / 16), hexChar (b.toNat % 16)]

/-! ## One call -/

/-- `keys/endpoint.secret`. -/
inductive SecretFile where
  | missing
  /-- Not a file that can be read as text. -/
  | unreadable
  | text (raw : List Char)
  deriving DecidableEq, Repr

/-- What a call may report. -/
inductive IdentityError where
  | storage (e : StorageError)
  | endpointSecretInvalid
  deriving DecidableEq, Repr

/-- `fs::read_to_string` and `SecretKey::from_str`. -/
def loadSecret {K : Type} (sk : SecretKeys K) : SecretFile → Except IdentityError K
  | .missing => .error (.storage .fileRead)
  | .unreadable => .error (.storage .fileRead)
  | .text raw =>
      match sk.fromStr (trim raw) with
      | some k => .ok k
      | none => .error .endpointSecretInvalid

/-- How far a call of `load_or_generate_identity_blocking` has come. -/
inductive IdentityPc (K : Type) where
  | idle
  /-- `ensure_key_dir` is done. -/
  | entered
  /-- `path.exists()` said yes, or no. -/
  | found
  | absent
  /-- `SecretKey::generate`. -/
  | generated (k : K)
  /-- `atomic_write_secure` has written its temporary file. -/
  | staged (k : K)
  | ended (result : Except IdentityError K)
  /-- The process is gone. -/
  | stopped
  deriving DecidableEq

/-- Found nothing, and not done yet. -/
def IdentityPc.firstRun {K : Type} : IdentityPc K → Bool
  | .absent | .generated _ | .staged _ => true
  | .idle | .entered | .found | .ended _ | .stopped => false

/-! ## All of them -/

/-- The file and the calls. -/
structure IdentitySite (K : Type) where
  file : SecretFile
  pc : Nat → IdentityPc K

/-- A step of call `i`; a step with an error is one that failed. -/
inductive IdentityEvent (K : Type) where
  | ensureKeyDir (i : Nat) (failure : Option StorageError)
  | test (i : Nat) (failed : Bool)
  | read (i : Nat) (failure : Option StorageError)
  | generate (i : Nat) (k : K)
  | stage (i : Nat) (failure : Option StorageError)
  | rename (i : Nat) (failure : Option StorageError)
  | stop (i : Nat)

namespace IdentitySite

variable {K : Type}

def new (file : SecretFile) : IdentitySite K := ⟨file, fun _ => .idle⟩

/-- Call `i` moves on. -/
def move (s : IdentitySite K) (i : Nat) (pc : IdentityPc K) : IdentitySite K :=
  { s with pc := Function.update s.pc i pc }

/-- Call `i` moves on, or ends with the error. -/
def moveUnless (s : IdentitySite K) (i : Nat) (failure : Option StorageError) (pc : IdentityPc K) :
    IdentitySite K :=
  match failure with
  | none => s.move i pc
  | some e => s.move i (.ended (.error (.storage e)))

def step (sk : SecretKeys K) (s : IdentitySite K) : IdentityEvent K → Option (IdentitySite K)
  | .ensureKeyDir i failure =>
      match s.pc i with
      | .idle => some (s.moveUnless i failure .entered)
      | _ => none
  | .test i failed =>
      match s.pc i with
      | .entered => some (s.move i (if failed ∨ s.file = .missing then .absent else .found))
      | _ => none
  | .read i failure =>
      match s.pc i with
      | .found => some (s.moveUnless i failure (.ended (loadSecret sk s.file)))
      | _ => none
  | .generate i k =>
      match s.pc i with
      | .absent => some (s.move i (.generated k))
      | _ => none
  | .stage i failure =>
      match s.pc i with
      | .generated k => some (s.moveUnless i failure (.staged k))
      | _ => none
  | .rename i failure =>
      match s.pc i, failure with
      | .staged k, none => some { s.move i (.ended (.ok k)) with file := .text (sk.hex k) }
      | .staged _, some e => some (s.move i (.ended (.error (.storage e))))
      | _, _ => none
  | .stop i =>
      match s.pc i with
      | .ended _ => none
      | _ => some (s.move i .stopped)

end IdentitySite

end Irosh
