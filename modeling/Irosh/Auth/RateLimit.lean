import Irosh.Lib.Exec
import Irosh.Auth.Unified

/-!
# Password checks against the rate limiter

`failed_attempts` and `last_failure` sit behind two different `Arc`s, and no lock
spans a whole `check_password`. What is atomic is the lockout test, the
verification, each of the two halves of `record_failure`, and the reset on
success. `Limiter` runs any number of checks of any number of sessions through
these steps in any order, under a clock that never goes back.

`history` is a ghost. It keeps the moment of every verification that failed and
of every authentication that succeeded, so that a bound over a window of time can
be stated about a state.
-/

namespace Irosh

open UnifiedAuthenticator

namespace UnifiedAuthenticator

variable {K H P : Type}

/-- The first half of `record_failure`, under the lock of `last_failure`. -/
def stampFailure (now : Nat) (a : UnifiedAuthenticator K H) : UnifiedAuthenticator K H :=
  { a with lastFailure := some now }

/-- The second half of `record_failure`: `fetch_add`, and the notice that goes with it. -/
def countFailure (a : UnifiedAuthenticator K H) : UnifiedAuthenticator K H :=
  { a with
    failedAttempts := a.failedAttempts + 1
    notices := if a.monitored ∧ 3 ≤ a.failedAttempts + 1 then a.notices ++ [.failure] else a.notices }

theorem recordFailure_eq (now : Nat) (a : UnifiedAuthenticator K H) :
    a.recordFailure now = (a.stampFailure now).countFailure := rfl

/-- What `check_password` does with an accepted password before it resets the counter. -/
def acceptPassword [DecidableEq K] (c : Crypto K H P) (wr : Option StorageError)
    (isWormhole : Bool) (a : UnifiedAuthenticator K H) :
    PasswordVerdict K × UnifiedAuthenticator K H :=
  if isWormhole then
    match a.cachedKey with
    | none => (.nothingCached, a)
    | some key =>
        -- `take()`: the key is gone from the cache even if the write below fails
        let a := { a with cachedKey := none }
        if key ∈ a.authorizedKeys then (.alreadyTrusted key, a)
        else
          match wr with
          | some e => (.writeFailed key e, a)
          | none => (.paired key, (a.vaultKey c key).notifySuccess)
  else (.nodePassword, { a with cachedKey := none })

/-- An accepted password touches neither the counter nor the time of the last failure. -/
theorem acceptPassword_frame [DecidableEq K] (c : Crypto K H P) (wr : Option StorageError)
    (isWormhole : Bool) (a : UnifiedAuthenticator K H) :
    (acceptPassword c wr isWormhole a).2.failedAttempts = a.failedAttempts
      ∧ (acceptPassword c wr isWormhole a).2.lastFailure = a.lastFailure := by
  unfold acceptPassword
  split
  · split
    · exact ⟨rfl, rfl⟩
    · dsimp only
      split
      · exact ⟨rfl, rfl⟩
      · split <;> exact ⟨rfl, rfl⟩
  · exact ⟨rfl, rfl⟩

/-- An accepted password settles by its cache and vault work and then the reset, which a failed
write skips. -/
theorem settlePassword_accepted [DecidableEq K] (c : Crypto K H P) (now : Nat)
    (wr : Option StorageError) (isWormhole : Bool) (a : UnifiedAuthenticator K H) :
    settlePassword c now wr (some isWormhole) a
      = match (acceptPassword c wr isWormhole a).1 with
        | .writeFailed key e => (.writeFailed key e, (acceptPassword c wr isWormhole a).2)
        | v => (v, (acceptPassword c wr isWormhole a).2.resetFailures) := by
  cases isWormhole with
  | false => rfl
  | true =>
      cases hc : a.cachedKey with
      | none => simp [settlePassword, acceptPassword, hc]
      | some key =>
          by_cases hk : key ∈ a.authorizedKeys
          · simp [settlePassword, acceptPassword, hc, hk]
          · cases wr <;> simp [settlePassword, acceptPassword, hc, hk]

end UnifiedAuthenticator

/-- Where a `check_password` stands. -/
inductive AttemptPc (K : Type) where
  | lockout
  | verify
  /-- The password matched; `is_wormhole` says which one. -/
  | accept (isWormhole : Bool)
  | reset (v : PasswordVerdict K)
  /-- The password did not match; the cached key is dropped first. -/
  | dropKey
  | stamp
  | count
  | done (v : PasswordVerdict K)
  deriving DecidableEq, Repr

/-- A `check_password` in progress. -/
structure Attempt (K P : Type) where
  session : Nat
  password : P
  pc : AttemptPc K
  deriving DecidableEq, Repr

/-- What `history` keeps. -/
inductive Outcome where
  | failed
  | succeeded
  deriving DecidableEq, Repr

/-- One authenticator, its sessions' caches, and the password checks in progress. -/
structure Limiter (K H P : Type) where
  auth : UnifiedAuthenticator K H
  cache : Nat → Option K
  calls : List (Attempt K P)
  clock : Nat
  /-- When verifications failed and authentications succeeded, oldest first (ghost). -/
  history : List (Nat × Outcome)

/-- What can happen. -/
inductive LimiterEvent (K H P : Type) where
  | start (session : Nat) (password : P)
  /-- Check number `i` takes its next step. -/
  | advance (i : Nat) (now : Nat) (wr : Option StorageError)
  | disk (dir : ClientsDir K) (shadow : Shadow H)

section Steps

variable {K H P : Type} [DecidableEq K]

/-- One step of `check_password`. -/
def stepAttempt (c : Crypto K H P) (now : Nat) (wr : Option StorageError) (password : P)
    (a : UnifiedAuthenticator K H) :
    AttemptPc K → Option (AttemptPc K × UnifiedAuthenticator K H)
  | .lockout =>
      let r := a.isLockedOut now
      some (if r.1 then .done .rateLimited else .verify, r.2)
  | .verify =>
      match a.checkPasswordMatch c password with
      | some isWormhole => some (.accept isWormhole, a)
      | none => some (.dropKey, a)
  | .accept isWormhole =>
      let r := acceptPassword c wr isWormhole a
      match r.1 with
      -- the `?` behind `write_authorized_client` skips the reset
      | .writeFailed key e => some (.done (.writeFailed key e), r.2)
      | v => some (.reset v, r.2)
  | .reset v => some (.done v, a.resetFailures)
  | .dropKey => some (.stamp, { a with cachedKey := none })
  | .stamp => some (.count, a.stampFailure now)
  | .count => some (.done .rejected, a.countFailure)
  | .done _ => none

/-- What a step adds to the history. -/
def AttemptPc.outcome : AttemptPc K → AttemptPc K → Option Outcome
  | .verify, .dropKey => some .failed
  | .reset _, .done _ => some .succeeded
  | _, _ => none

namespace Limiter

/-- `for_new_session`. -/
def view (l : Limiter K H P) (s : Nat) : UnifiedAuthenticator K H :=
  { l.auth with cachedKey := l.cache s }

/-- The state after check `i` has moved. -/
def put (l : Limiter K H P) (i now : Nat) (r : Attempt K P) (pc : AttemptPc K)
    (a : UnifiedAuthenticator K H) : Limiter K H P where
  auth := { a with cachedKey := none }
  cache := fun s => if s = r.session then a.cachedKey else l.cache s
  calls := l.calls.set i { r with pc := pc }
  clock := now
  history := l.history ++ ((r.pc.outcome pc).map fun o => (now, o)).toList

/-- What each event does. The clock does not run backwards. -/
def step (c : Crypto K H P) (l : Limiter K H P) : LimiterEvent K H P → Option (Limiter K H P)
  | .start s w => some { l with calls := l.calls ++ [⟨s, w, .lockout⟩] }
  | .advance i now wr =>
      if now < l.clock then none
      else
        match l.calls[i]? with
        | none => none
        | some r =>
            (stepAttempt c now wr r.password (l.view r.session) r.pc).map fun x =>
              l.put i now r x.1 x.2
  | .disk dir shadow => some { l with auth := { l.auth with dir := dir, shadow := shadow } }

/-- An authenticator nobody is checking a password against. -/
def idle (auth : UnifiedAuthenticator K H) (cache : Nat → Option K) (clock : Nat) :
    Limiter K H P := ⟨auth, cache, [], clock, []⟩

end Limiter

/-! ## What one step does -/

/-- A step that touches neither the counter nor the time of the last failure. -/
def SameTally (a a' : UnifiedAuthenticator K H) : Prop :=
  a'.failedAttempts = a.failedAttempts ∧ a'.lastFailure = a.lastFailure

/-- **Everything a step of `check_password` can do to the counter and the time.** -/
theorem stepAttempt_cases {c : Crypto K H P} {now : Nat} {wr : Option StorageError} {password : P}
    {a a' : UnifiedAuthenticator K H} {pc pc' : AttemptPc K}
    (h : stepAttempt c now wr password a pc = some (pc', a')) :
    (pc = .lockout ∧ pc' = .done .rateLimited ∧ SameTally a a')
      ∨ (pc = .lockout ∧ pc' = .verify ∧ a.failedAttempts < 3 ∧ SameTally a a')
      ∨ (∃ last, pc = .lockout ∧ pc' = .verify ∧ 3 ≤ a.failedAttempts
          ∧ a.lastFailure = some last ∧ lockoutWindow < now - last
          ∧ a'.failedAttempts = 0 ∧ a'.lastFailure = a.lastFailure)
      ∨ (pc = .verify ∧ pc' = .dropKey ∧ SameTally a a')
      ∨ (∃ w, pc = .verify ∧ pc' = .accept w ∧ SameTally a a')
      ∨ (∃ w v, pc = .accept w ∧ (pc' = .reset v ∨ pc' = .done v) ∧ SameTally a a')
      ∨ (∃ v, pc = .reset v ∧ pc' = .done v ∧ a'.failedAttempts = 0
          ∧ a'.lastFailure = a.lastFailure)
      ∨ (pc = .dropKey ∧ pc' = .stamp ∧ SameTally a a')
      ∨ (pc = .stamp ∧ pc' = .count ∧ a'.failedAttempts = a.failedAttempts
          ∧ a'.lastFailure = some now)
      ∨ (pc = .count ∧ pc' = .done .rejected ∧ a'.failedAttempts = a.failedAttempts + 1
          ∧ a'.lastFailure = a.lastFailure) := by
  cases pc with
  | lockout =>
      cases h
      unfold isLockedOut
      by_cases hc : a.failedAttempts < 3
      · exact .inr (.inl ⟨rfl, by simp [hc], hc, by simp [SameTally, hc]⟩)
      · cases hl : a.lastFailure with
        | none => exact .inl ⟨rfl, by simp [hc], by simp [SameTally, hc, hl]⟩
        | some last =>
            by_cases hw : lockoutWindow < now - last
            · refine .inr (.inr (.inl ⟨last, rfl, ?_, by omega, rfl, hw, ?_, ?_⟩))
              · simp [hc, hw]
              · simp [hc, hw]
              · simp [hc, hw]
            · exact .inl ⟨rfl, by simp [hc, hw], by simp [SameTally, hc, hl, hw]⟩
  | verify =>
      simp only [stepAttempt] at h
      split at h
      · rename_i w _
        cases h
        exact .inr (.inr (.inr (.inr (.inl ⟨w, rfl, rfl, rfl, rfl⟩))))
      · cases h
        exact .inr (.inr (.inr (.inl ⟨rfl, rfl, rfl, rfl⟩)))
  | accept w =>
      have hframe := acceptPassword_frame c wr w a
      simp only [stepAttempt] at h
      split at h
      · rename_i key e _
        cases h
        exact .inr (.inr (.inr (.inr (.inr (.inl ⟨w, _, rfl, .inr rfl, hframe⟩)))))
      · cases h
        exact .inr (.inr (.inr (.inr (.inr (.inl ⟨w, _, rfl, .inl rfl, hframe⟩)))))
  | reset v =>
      cases h
      exact .inr (.inr (.inr (.inr (.inr (.inr (.inl ⟨v, rfl, rfl, rfl, rfl⟩))))))
  | dropKey =>
      cases h
      exact .inr (.inr (.inr (.inr (.inr (.inr (.inr (.inl ⟨rfl, rfl, rfl, rfl⟩)))))))
  | stamp =>
      cases h
      exact .inr (.inr (.inr (.inr (.inr (.inr (.inr (.inr (.inl ⟨rfl, rfl, rfl, rfl⟩))))))))
  | count =>
      cases h
      exact .inr (.inr (.inr (.inr (.inr (.inr (.inr (.inr (.inr ⟨rfl, rfl, rfl, rfl⟩))))))))
  | done v => cases h

/-- **Everything an event can do.** -/
theorem Limiter.step_cases {c : Crypto K H P} {l l' : Limiter K H P} {e : LimiterEvent K H P}
    (h : l.step c e = some l') :
    (∃ s w, e = .start s w ∧ l' = { l with calls := l.calls ++ [⟨s, w, .lockout⟩] })
      ∨ (∃ i now wr r pc a, e = .advance i now wr ∧ l.clock ≤ now ∧ l.calls[i]? = some r
          ∧ stepAttempt c now wr r.password (l.view r.session) r.pc = some (pc, a)
          ∧ l' = l.put i now r pc a)
      ∨ (∃ dir shadow, e = .disk dir shadow
          ∧ l' = { l with auth := { l.auth with dir := dir, shadow := shadow } }) := by
  cases e with
  | start s w =>
      cases h
      exact .inl ⟨s, w, rfl, rfl⟩
  | advance i now wr =>
      simp only [step] at h
      split at h
      · cases h
      · rename_i hclock
        split at h
        · cases h
        · rename_i r hi
          obtain ⟨x, hx, hl⟩ := Option.map_eq_some_iff.mp h
          exact .inr (.inl ⟨i, now, wr, r, x.1, x.2, rfl, by omega, hi, hx, hl.symm⟩)
  | disk dir shadow =>
      cases h
      exact .inr (.inr ⟨dir, shadow, rfl, rfl⟩)

/-! ## A check with nobody in between -/

/-- A check's own view of its progress. -/
def soloAttempt (c : Crypto K H P) (password : P) (st : AttemptPc K × UnifiedAuthenticator K H)
    (m : Nat × Option StorageError) : Option (AttemptPc K × UnifiedAuthenticator K H) :=
  stepAttempt c m.1 m.2 password st.2 st.1

/-- **Uninterrupted, the steps are `checkPassword`.** -/
theorem soloAttempt_checkPassword (c : Crypto K H P) (test now : Nat) (wr : Option StorageError)
    (password : P) (a : UnifiedAuthenticator K H) :
    ∃ ms, Exec.exec (soloAttempt c password) (.lockout, a) ms
      = some (.done (checkPassword c test now wr password a).1,
          (checkPassword c test now wr password a).2) := by
  by_cases hl : (a.isLockedOut test).1 = true
  · exact ⟨[(test, none)], by simp [soloAttempt, stepAttempt, checkPassword, hl]⟩
  generalize hb : (a.isLockedOut test).2 = b
  cases hm : b.checkPasswordMatch c password with
  | none =>
      refine ⟨[(test, none), (now, wr), (now, wr), (now, wr), (now, wr)], ?_⟩
      simp [soloAttempt, stepAttempt, checkPassword, settlePassword, hl, hb, hm, recordFailure_eq]
  | some isWormhole =>
      have hs := settlePassword_accepted c now wr isWormhole b
      cases hv : (acceptPassword c wr isWormhole b).1 with
      | writeFailed key e =>
          refine ⟨[(test, none), (now, wr), (now, wr)], ?_⟩
          simp [soloAttempt, stepAttempt, checkPassword, hl, hb, hm, hs, hv]
      | rateLimited | nodePassword | paired | alreadyTrusted | nothingCached | rejected =>
          refine ⟨[(test, none), (now, wr), (now, wr), (now, wr)], ?_⟩
          simp [soloAttempt, stepAttempt, checkPassword, hl, hb, hm, hs, hv]

end Steps

end Irosh
