import Irosh.Lib.Exec
import Irosh.Auth.Unified

/-!
# Authenticators over one pairing monitor

While a wormhole is open, `SshProtocol::accept` builds an authenticator per
pairing connection with `with_tracking`. All of them count failures in the one
`failed_attempts` of the monitor, and all of them look at the same state
directory, but each has a `last_failure` of its own, `None` until that very
authenticator has recorded a failure.

`Tracking` is that arrangement under a clock that never goes back. The fields the
connections share are held once; `view` gives an authenticator its copy of them
for the length of a call.
-/

namespace Irosh

open UnifiedAuthenticator

namespace UnifiedAuthenticator

/-- The exits of `check_public_key` that pass through `record_failure`. -/
def KeyVerdict.recorded : KeyVerdict → Bool
  | .strict | .claimed => true
  | _ => false

/-- The exit of `check_password` that passes through `record_failure`. -/
def PasswordVerdict.recorded {K : Type} : PasswordVerdict K → Bool
  | .rejected => true
  | _ => false

end UnifiedAuthenticator

/-- The authenticators built from clones of one `PairingMonitor`. -/
structure Tracking (K H : Type) where
  dir : ClientsDir K
  shadow : Shadow H
  successFlag : Bool
  failedAttempts : Nat
  notices : List Notice
  /-- One authenticator per connection, in the order they were built. -/
  auths : List (UnifiedAuthenticator K H)
  clock : Nat
  /-- Who has recorded a failure and when, oldest first (ghost). -/
  failures : List (Nat × Nat)

/-- What can happen. `test` and `now` are the two moments a check reads the clock. -/
inductive TrackingEvent (K H P : Type) where
  | connect (policy : HostKeyPolicy) (keys : List K) (temp : Option H)
  | key (i : Nat) (key : K) (test now : Nat) (wr : Option StorageError)
  | password (i : Nat) (password : P) (test now : Nat) (wr : Option StorageError)
  | disk (dir : ClientsDir K) (shadow : Shadow H)

/-- The authenticator an attempt is made on, and when its lockout test is taken. -/
def TrackingEvent.attempt {K H P : Type} : TrackingEvent K H P → Option (Nat × Nat)
  | .key i _ test _ _ => some (i, test)
  | .password i _ test _ _ => some (i, test)
  | _ => none

namespace Tracking

variable {K H P : Type}

/-- A monitor nobody has connected to. -/
def start (dir : ClientsDir K) (shadow : Shadow H) (successFlag : Bool) (failedAttempts clock : Nat) :
    Tracking K H := ⟨dir, shadow, successFlag, failedAttempts, [], [], clock, []⟩

/-- What an authenticator sees: its own fields, and the shared ones as they are now. -/
def view (s : Tracking K H) (a : UnifiedAuthenticator K H) : UnifiedAuthenticator K H :=
  { a with
    dir := s.dir
    shadow := s.shadow
    successFlag := s.successFlag
    failedAttempts := s.failedAttempts
    notices := s.notices }

/-- The state after authenticator `i` has finished a call at `now`. -/
def put (s : Tracking K H) (i now : Nat) (a : UnifiedAuthenticator K H) (recorded : Bool) :
    Tracking K H where
  dir := a.dir
  shadow := a.shadow
  successFlag := a.successFlag
  failedAttempts := a.failedAttempts
  notices := a.notices
  auths := s.auths.set i a
  clock := now
  failures := if recorded then s.failures ++ [(i, now)] else s.failures

variable [DecidableEq K]

/-- What each event does. -/
def step (c : Crypto K H P) (s : Tracking K H) : TrackingEvent K H P → Option (Tracking K H)
  | .connect policy keys temp =>
      some { s with
        auths := s.auths
          ++ [withTracking s.dir s.shadow policy keys temp s.successFlag s.failedAttempts] }
  | .key i k test now wr =>
      if s.clock ≤ test ∧ test ≤ now then
        s.auths[i]?.map fun a =>
          let r := checkPublicKey c test now wr k (s.view a)
          s.put i now r.2 r.1.recorded
      else none
  | .password i w test now wr =>
      if s.clock ≤ test ∧ test ≤ now then
        s.auths[i]?.map fun a =>
          let r := checkPassword c test now wr w (s.view a)
          s.put i now r.2 r.1.recorded
      else none
  | .disk dir shadow => some { s with dir := dir, shadow := shadow }

/-- Whether an attempt would be rejected by the rate limiter. -/
def rateLimited (c : Crypto K H P) (s : Tracking K H) : TrackingEvent K H P → Bool
  | .key i k test now wr =>
      s.auths[i]?.any fun a => (checkPublicKey c test now wr k (s.view a)).1 = .rateLimited
  | .password i w test now wr =>
      s.auths[i]?.any fun a => (checkPassword c test now wr w (s.view a)).1 = .rateLimited
  | _ => false

end Tracking

end Irosh
