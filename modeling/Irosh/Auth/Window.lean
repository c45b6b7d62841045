import Irosh.Lib.Exec
import Irosh.Auth.Unified

/-!
# Timed runs of one authenticator

`UnifiedAuthenticator` and `PasswordAuth` have the same rate limiter: a counter and the
time of the last failure. Here either is called over and over, one call after the other,
under a clock that never goes back.

`history` is a ghost: what was recorded, and when. A success usually zeroes the counter;
`AcceptAll` lets every key in without touching it.
-/

namespace Irosh

open UnifiedAuthenticator

/-! ## `PasswordAuth` -/

/-- `PasswordAuth`. -/
structure PasswordAuth (H : Type) where
  passwordHash : H
  failedAttempts : Nat
  /-- In nanoseconds. -/
  lastFailure : Option Nat

/-- What `verify_password` says: `Ok`, `PasswordInvalid` or another error. -/
inductive Verified where
  | correct
  | invalid
  | broken
  deriving DecidableEq, Repr

/-- The exits of `PasswordAuth::check_password`. -/
inductive SimpleVerdict where
  | rateLimited
  | accepted
  | rejected
  | verificationFailed
  deriving DecidableEq, Repr

namespace PasswordAuth

variable {H P : Type}

/-- `PasswordAuth::new`. -/
def new (hash : H) : PasswordAuth H := ⟨hash, 0, none⟩

/-- `is_locked_out`. -/
def isLockedOut (now : Nat) (a : PasswordAuth H) : Bool × PasswordAuth H :=
  if a.failedAttempts < 3 then (false, a)
  else
    match a.lastFailure with
    | none => (true, a)
    | some last =>
        if now - last > lockoutWindow then (false, { a with failedAttempts := 0 }) else (true, a)

/-- `reset_failures`. -/
def resetFailures (a : PasswordAuth H) : PasswordAuth H := { a with failedAttempts := 0 }

/-- `record_failure`. -/
def recordFailure (now : Nat) (a : PasswordAuth H) : PasswordAuth H :=
  { a with lastFailure := some now, failedAttempts := a.failedAttempts + 1 }

/-- `check_public_key`: no key is ever accepted, and nothing is counted. -/
def checkPublicKey (a : PasswordAuth H) : Bool × PasswordAuth H := (false, a)

/-- `check_password`. -/
def checkPassword (verify : P → H → Verified) (test now : Nat) (password : P) (a : PasswordAuth H) :
    SimpleVerdict × PasswordAuth H :=
  let (locked, a) := a.isLockedOut test
  if locked then (.rateLimited, a)
  else
    match verify password a.passwordHash with
    | .correct => (.accepted, a.resetFailures)
    | .invalid => (.rejected, a.recordFailure now)
    | .broken => (.verificationFailed, a)

end PasswordAuth

/-! ## What is recorded -/

/-- What a call leaves in the history. -/
inductive Mark where
  | failed
  /-- A success that zeroes the counter, and one that does not. -/
  | reset
  | passed
  deriving DecidableEq, Repr

abbrev History := List (Nat × Mark)

def UnifiedAuthenticator.KeyVerdict.mark : KeyVerdict → Option Mark
  | .strict | .claimed => some .failed
  | .known | .refreshed | .tofu => some .reset
  | .acceptAll => some .passed
  | .rateLimited | .challenged | .writeFailed _ => none

def UnifiedAuthenticator.PasswordVerdict.mark {K : Type} : PasswordVerdict K → Option Mark
  | .rejected => some .failed
  | .nodePassword | .paired _ | .alreadyTrusted _ | .nothingCached => some .reset
  | .rateLimited | .writeFailed _ _ => none

def SimpleVerdict.mark : SimpleVerdict → Option Mark
  | .rejected => some .failed
  | .accepted => some .reset
  | .rateLimited | .verificationFailed => none

/-- An authenticator in use. -/
structure Timed (σ : Type) where
  auth : σ
  clock : Nat
  history : History

/-- After a call that ended at `now`. -/
def Timed.after {σ : Type} (s : Timed σ) (auth : σ) (now : Nat) (mark : Option Mark) : Timed σ where
  auth := auth
  clock := now
  history := s.history ++ (mark.map fun m => (now, m)).toList

/-- Calls of a `UnifiedAuthenticator`, with the two moments they read the clock, and changes to the
state directory by others. -/
inductive UnifiedCall (K H P : Type) where
  | key (key : K) (test now : Nat) (wr : Option StorageError)
  | password (password : P) (test now : Nat) (wr : Option StorageError)
  | disk (dir : ClientsDir K) (shadow : Shadow H)

/-- Calls of a `PasswordAuth`. -/
inductive SimpleCall (P : Type) where
  | key (now : Nat)
  | password (password : P) (test now : Nat)

section

variable {K H P : Type} [DecidableEq K]

/-- What a call does. The clock does not run backwards. -/
def Timed.unifiedStep (c : Crypto K H P) (s : Timed (UnifiedAuthenticator K H)) :
    UnifiedCall K H P → Option (Timed (UnifiedAuthenticator K H))
  | .key key test now wr =>
      if s.clock ≤ test ∧ test ≤ now then
        let r := UnifiedAuthenticator.checkPublicKey c test now wr key s.auth
        some (s.after r.2 now r.1.mark)
      else none
  | .password password test now wr =>
      if s.clock ≤ test ∧ test ≤ now then
        let r := UnifiedAuthenticator.checkPassword c test now wr password s.auth
        some (s.after r.2 now r.1.mark)
      else none
  | .disk dir shadow => some { s with auth := { s.auth with dir := dir, shadow := shadow } }

def Timed.simpleStep (verify : P → H → Verified) (s : Timed (PasswordAuth H)) :
    SimpleCall P → Option (Timed (PasswordAuth H))
  | .key now => if s.clock ≤ now then some (s.after s.auth.checkPublicKey.2 now none) else none
  | .password password test now =>
      if s.clock ≤ test ∧ test ≤ now then
        let r := PasswordAuth.checkPassword verify test now password s.auth
        some (s.after r.2 now r.1.mark)
      else none

end

/-! ## Reading a history -/

/-- The failures since the last success. -/
def History.sinceSuccess (h : History) : List Nat :=
  h.foldl (fun times entry => match entry.2 with
    | .failed => times ++ [entry.1]
    | .reset | .passed => []) []

/-- The failures since the last success that zeroed the counter. -/
def History.sinceReset (h : History) : List Nat :=
  h.foldl (fun times entry => match entry.2 with
    | .failed => times ++ [entry.1]
    | .reset => []
    | .passed => times) []

end Irosh
