import Irosh.Auth.RateLimit

/-!
# The checks of a pairing session

A pairing session has an authenticator of its own, so its list, its cache and the
time of its last failure are nobody else's. What it shares with the other
sessions of its wormhole are two atomics, the success flag and the failure
counter, and the two channels of the monitor. The disk it shares with everybody.
No lock goes with any of these, and other checks come in between one access and
the next.

A check settles its own affairs in one step, the record it writes to the vault
included. What it is left with are its `Deed`s: the accesses to what is shared, in
the order of the source, one step each.

`solo_key` and `solo_password` tie the steps to the whole calls.
-/

namespace Irosh

open UnifiedAuthenticator

/-- What a check does to what its session shares. -/
inductive Deed where
  | raiseFlag
  | notifySuccess
  | resetFailures
  /-- `record_failure` up to its `fetch_add`. -/
  | recordFailure
  /-- The `try_send` behind it. -/
  | notifyFailure
  deriving DecidableEq, Repr

/-- What a session asks of its authenticator. -/
inductive Asked (K P : Type) where
  | key (key : K)
  | password (password : P)
  deriving DecidableEq, Repr

/-- Where a check stands. -/
inductive Check (K P : Type) where
  | lockout (asked : Asked K P)
  /-- In `is_locked_out`, before the counter is zeroed. -/
  | decay (asked : Asked K P)
  | lookup (key : K)
  | readVault (key : K)
  | final (key : K)
  | verify (password : P)
  | settle (answer : Option Bool)
  /-- The answer is known, and these deeds are left. -/
  | act (answer : Except StorageError Bool) (deeds : List Deed)
  deriving DecidableEq

/-- What comes behind the lockout test. -/
def Asked.first {K P : Type} : Asked K P → Check K P
  | .key k => .lookup k
  | .password w => .verify w

/-- The deeds that come with each exit of `check_public_key`. -/
def UnifiedAuthenticator.KeyVerdict.deeds : KeyVerdict → List Deed
  | .rateLimited | .acceptAll | .challenged | .writeFailed _ => []
  | .known | .refreshed => [.resetFailures]
  | .tofu => [.raiseFlag, .resetFailures, .notifySuccess]
  | .strict | .claimed => [.recordFailure]

/-- The deeds that come with each exit of `check_password`. -/
def UnifiedAuthenticator.PasswordVerdict.deeds {K : Type} : PasswordVerdict K → List Deed
  | .rateLimited | .writeFailed _ _ => []
  | .nodePassword | .alreadyTrusted _ | .nothingCached => [.resetFailures]
  | .paired _ => [.raiseFlag, .notifySuccess, .resetFailures]
  | .rejected => [.recordFailure]

section Steps

variable {K H P : Type}

/-- One deed, and what it leads to. The session's own `last_failure` is stamped with the `fetch_add`. -/
def Deed.perform (now : Nat) (a : UnifiedAuthenticator K H) : Deed → List Deed × UnifiedAuthenticator K H
  | .raiseFlag => ([], { a with successFlag := true })
  | .notifySuccess => ([], a.notifySuccess)
  | .resetFailures => ([], a.resetFailures)
  | .recordFailure =>
      (if 3 ≤ a.failedAttempts + 1 then [.notifyFailure] else [],
        { a.stampFailure now with failedAttempts := a.failedAttempts + 1 })
  | .notifyFailure =>
      ([], { a with notices := if a.monitored then a.notices ++ [.failure] else a.notices })

/-- What a check that ends in `b` does to the vault, the list and the cache, its deeds apart. -/
def UnifiedAuthenticator.settled (a b : UnifiedAuthenticator K H) : UnifiedAuthenticator K H :=
  { a with dir := b.dir, authorizedKeys := b.authorizedKeys, cachedKey := b.cachedKey }

variable [DecidableEq K]

/-- One step of a check. -/
def stepCheck (c : Crypto K H P) (now : Nat) (wr : Option StorageError)
    (a : UnifiedAuthenticator K H) : Check K P → Option (Check K P × UnifiedAuthenticator K H)
  | .lockout asked =>
      if a.failedAttempts < 3 then some (asked.first, a)
      else
        match a.lastFailure with
        | none => some (.act (.ok false) [], a)
        | some last =>
            if now - last > lockoutWindow then some (.decay asked, a) else some (.act (.ok false) [], a)
  | .decay asked => some (asked.first, a.resetFailures)
  | .lookup key =>
      if a.policy = .acceptAll then some (.act (.ok true) [], a)
      else if key ∈ a.authorizedKeys then some (.act (.ok true) [.resetFailures], a)
      else some (.readVault key, a)
  -- nobody else knows the list, so it is read and replaced at once
  | .readVault key => some (.final key, a.refreshKeys)
  | .final key =>
      let r := finalSection c now wr key a
      some (.act r.1.result r.1.deeds, a.settled r.2)
  | .verify password => some (.settle (a.checkPasswordMatch c password), a)
  | .settle answer =>
      let r := settlePassword c now wr answer a
      some (.act r.1.result r.1.deeds, a.settled r.2)
  | .act _ [] => none
  | .act answer (d :: ds) => some (.act answer ((d.perform now a).1 ++ ds), (d.perform now a).2)

/-- The key a step writes to the vault for a temp password. -/
def Check.vaults (c : Crypto K H P) (now : Nat) (wr : Option StorageError)
    (a : UnifiedAuthenticator K H) : Check K P → Option K
  | .settle answer => (settlePassword c now wr answer a).1.wrote
  | _ => none

/-- The check has written a key and has yet to raise the flag. -/
def Check.raising : Check K P → Bool
  | .act _ (.raiseFlag :: _) => true
  | _ => false

/-- The check is about to raise a message. -/
def Check.notifying : Check K P → Bool
  | .act _ (.notifySuccess :: _) | .act _ (.notifyFailure :: _) => true
  | _ => false

/-! ## What one step does -/

/-- A step never lowers the flag. -/
theorem stepCheck_successFlag {c : Crypto K H P} {now : Nat} {wr : Option StorageError}
    {a a' : UnifiedAuthenticator K H} {pc pc' : Check K P} (h : stepCheck c now wr a pc = some (pc', a'))
    (hs : a.successFlag = true) : a'.successFlag = true := by
  cases pc with
  | lockout asked =>
      simp only [stepCheck] at h
      split at h
      · cases h; exact hs
      · split at h
        · cases h; exact hs
        · split at h <;> (cases h; exact hs)
  | decay asked => cases h; exact hs
  | lookup key =>
      simp only [stepCheck] at h
      split at h
      · cases h; exact hs
      · split at h <;> (cases h; exact hs)
  | readVault key =>
      cases h
      rw [refreshKeys_eq]
      exact hs
  | final key => cases h; exact hs
  | verify password => cases h; exact hs
  | settle answer => cases h; exact hs
  | act answer deeds =>
      cases deeds with
      | nil => cases h
      | cons d ds =>
          cases h
          cases d <;> first | rfl | exact hs

/-- A step raises a message only where the check is about to. -/
theorem stepCheck_notices {c : Crypto K H P} {now : Nat} {wr : Option StorageError}
    {a a' : UnifiedAuthenticator K H} {pc pc' : Check K P} (h : stepCheck c now wr a pc = some (pc', a'))
    (hn : pc.notifying = false) : a'.notices = a.notices := by
  cases pc with
  | lockout asked =>
      simp only [stepCheck] at h
      split at h
      · cases h; rfl
      · split at h
        · cases h; rfl
        · split at h <;> (cases h; rfl)
  | decay asked => cases h; rfl
  | lookup key =>
      simp only [stepCheck] at h
      split at h
      · cases h; rfl
      · split at h <;> (cases h; rfl)
  | readVault key =>
      cases h
      rw [refreshKeys_eq]
      rfl
  | final key => cases h; rfl
  | verify password => cases h; rfl
  | settle answer => cases h; rfl
  | act answer deeds =>
      cases deeds with
      | nil => cases h
      | cons d ds =>
          cases h
          cases d with
          | notifySuccess | notifyFailure => cases hn
          | raiseFlag | resetFailures | recordFailure => rfl

/-- Once the flag has been written it is up. -/
theorem stepCheck_raising {c : Crypto K H P} {now : Nat} {wr : Option StorageError}
    {a a' : UnifiedAuthenticator K H} {pc pc' : Check K P} (h : stepCheck c now wr a pc = some (pc', a'))
    (hr : pc.raising = true) : a'.successFlag = true := by
  cases pc with
  | act answer deeds =>
      cases deeds with
      | nil => cases hr
      | cons d ds =>
          cases d with
          | raiseFlag => cases h; rfl
          | notifySuccess | resetFailures | recordFailure | notifyFailure => cases hr
  | lockout _ | decay _ | lookup _ | readVault _ | final _ | verify _ | settle _ => cases hr

/-- **A step that vaults a key for a temp password** takes it from the cache, and raises the flag next. -/
theorem stepCheck_vaults {c : Crypto K H P} {now : Nat} {wr : Option StorageError}
    {a a' : UnifiedAuthenticator K H} {pc pc' : Check K P} {k : K}
    (h : stepCheck c now wr a pc = some (pc', a')) (hv : pc.vaults c now wr a = some k) :
    pc = .settle (some true) ∧ a.cachedKey = some k ∧ k ∉ a.authorizedKeys ∧ wr = none
      ∧ pc'.raising = true := by
  cases pc with
  | settle answer =>
      cases h
      simp only [Check.vaults] at hv
      rcases settlePassword_cases (Prod.eta (settlePassword c now wr answer a)).symm with
        ⟨he, _⟩ | ⟨_, he, _⟩ | ⟨_, _, he, _⟩ | ⟨key, he, hw, hm, hc, hk, _⟩ | ⟨he, _⟩ | ⟨he, _⟩
      · rw [he] at hv; cases hv
      · rw [he] at hv; cases hv
      · rw [he] at hv; cases hv
      · rw [he] at hv ⊢
        cases hv
        exact ⟨by rw [hm], hc, hk, hw, rfl⟩
      · rw [he] at hv; cases hv
      · rw [he] at hv; cases hv
  | lockout _ | decay _ | lookup _ | readVault _ | final _ | verify _ | act _ _ => cases hv

/-! ## A check with nobody in between -/

/-- A check's own view of its progress. -/
def soloCheck (c : Crypto K H P) (st : Check K P × UnifiedAuthenticator K H)
    (m : Nat × Option StorageError) : Option (Check K P × UnifiedAuthenticator K H) :=
  stepCheck c m.1 m.2 st.2 st.1

/-- All a deed does if nobody comes in between. -/
def Deed.whole (now : Nat) (a : UnifiedAuthenticator K H) : Deed → UnifiedAuthenticator K H
  | .recordFailure => a.recordFailure now
  | d => (d.perform now a).2

/-- Deeds alone. -/
theorem solo_deeds (c : Crypto K H P) (now : Nat) (answer : Except StorageError Bool) (ds : List Deed)
    (a : UnifiedAuthenticator K H) :
    ∃ ms, Exec.exec (soloCheck c) (.act answer ds, a) ms
      = some (.act answer [], ds.foldl (Deed.whole now) a) := by
  induction ds generalizing a with
  | nil => exact ⟨[], rfl⟩
  | cons d ds ih =>
      obtain ⟨ms, hms⟩ := ih (d.whole now a)
      by_cases hd : d = .recordFailure ∧ 3 ≤ a.failedAttempts + 1
      · -- the notice is a step of its own
        obtain ⟨rfl, h3⟩ := hd
        refine ⟨(now, none) :: (now, none) :: ms, ?_⟩
        have hw : (Deed.notifyFailure.perform now
            { a.stampFailure now with failedAttempts := a.failedAttempts + 1 }).2 = a.recordFailure now := by
          cases hm : a.monitored <;>
            simp [Deed.perform, stampFailure, UnifiedAuthenticator.recordFailure, h3, hm]
        simp only [Exec.exec_cons, soloCheck, stepCheck, Deed.perform, h3, if_true, Option.bind_some,
          List.cons_append, List.nil_append]
        simp only [Deed.perform] at hw
        rw [hw]
        exact hms
      · refine ⟨(now, none) :: ms, ?_⟩
        have hp : d.perform now a = ([], d.whole now a) := by
          cases d with
          | recordFailure =>
              have h3 : ¬ 3 ≤ a.failedAttempts + 1 := fun h3 => hd ⟨rfl, h3⟩
              simp [Deed.perform, Deed.whole, stampFailure, UnifiedAuthenticator.recordFailure, h3]
          | raiseFlag | notifySuccess | resetFailures | notifyFailure => rfl
        simp only [Exec.exec_cons, soloCheck, stepCheck, hp, Option.bind_some, List.nil_append]
        exact hms

/-- The lockout test alone. -/
theorem solo_lockout (c : Crypto K H P) (test : Nat) (asked : Asked K P) (a : UnifiedAuthenticator K H) :
    ∃ ms, Exec.exec (soloCheck c) (.lockout asked, a) ms
      = some (if (a.isLockedOut test).1 then .act (.ok false) []
        else asked.first, (a.isLockedOut test).2) := by
  unfold isLockedOut
  by_cases hf : a.failedAttempts < 3
  · exact ⟨[(test, none)], by simp [soloCheck, stepCheck, hf]⟩
  cases hl : a.lastFailure with
  | none => exact ⟨[(test, none)], by simp [soloCheck, stepCheck, hf, hl]⟩
  | some last =>
      by_cases hw : test - last > lockoutWindow
      · exact ⟨[(test, none), (test, none)], by simp [soloCheck, stepCheck, hf, hl, hw, resetFailures]⟩
      · exact ⟨[(test, none)], by simp [soloCheck, stepCheck, hf, hl, hw]⟩

/-- The final section is what it settles and its deeds. -/
theorem finalSection_eq_deeds (c : Crypto K H P) (now : Nat) (wr : Option StorageError) (k : K)
    (a : UnifiedAuthenticator K H) :
    (finalSection c now wr k a).1.deeds.foldl (Deed.whole now) (a.settled (finalSection c now wr k a).2)
      = (finalSection c now wr k a).2 := by
  rcases finalSection_cases (Prod.eta (finalSection c now wr k a)).symm with
    ⟨hv, _, ha⟩ | ⟨hv, _, _, ha⟩ | ⟨hv, _, _, _, ha⟩ | ⟨e, hv, _, ha⟩ | ⟨hv, _, _, _, _, _, ha⟩ |
    ⟨hv, _, ha⟩
  all_goals
    rw [hv, ha]
    rfl

/-- So is what follows the verification of a password. -/
theorem settlePassword_eq_deeds (c : Crypto K H P) (now : Nat) (wr : Option StorageError)
    (answer : Option Bool) (a : UnifiedAuthenticator K H) :
    (settlePassword c now wr answer a).1.deeds.foldl (Deed.whole now)
        (a.settled (settlePassword c now wr answer a).2)
      = (settlePassword c now wr answer a).2 := by
  rcases settlePassword_cases (Prod.eta (settlePassword c now wr answer a)).symm with
    ⟨hv, _, _, ha⟩ | ⟨_, hv, _, _, ha⟩ | ⟨_, _, hv, _, _, ha⟩ | ⟨_, hv, _, _, _, _, ha⟩ |
    ⟨hv, _, ha⟩ | ⟨hv, _, ha⟩
  all_goals
    rw [hv, ha]
    rfl

/-- **Uninterrupted, the steps of a key check are `checkPublicKey`.** -/
theorem solo_key (c : Crypto K H P) (test now : Nat) (wr : Option StorageError) (k : K)
    (a : UnifiedAuthenticator K H) :
    ∃ ms, Exec.exec (soloCheck c) (.lockout (.key k), a) ms
      = some (.act (checkPublicKey c test now wr k a).1.result [], (checkPublicKey c test now wr k a).2) := by
  obtain ⟨ms, hms⟩ := solo_lockout c test (.key k : Asked K P) a
  by_cases hl : (a.isLockedOut test).1 = true
  · exact ⟨ms, by simpa [checkPublicKey, hl, KeyVerdict.result] using hms⟩
  rw [if_neg hl] at hms
  generalize hb : (a.isLockedOut test).2 = b at hms
  by_cases hp : b.policy = .acceptAll
  · refine ⟨ms ++ [(now, none)], ?_⟩
    rw [Exec.exec_append hms]
    simp [soloCheck, stepCheck, Asked.first, checkPublicKey, hl, hb, hp, KeyVerdict.result]
  by_cases hk : k ∈ b.authorizedKeys
  · refine ⟨ms ++ [(now, none), (now, none)], ?_⟩
    rw [Exec.exec_append hms]
    simp [soloCheck, stepCheck, Asked.first, checkPublicKey, hl, hb, hp, hk, KeyVerdict.result,
      Deed.perform]
  -- past the first lookup: the refresh, the final section, and its deeds
  obtain ⟨ds, hds⟩ := solo_deeds c now (finalSection c now wr k b.refreshKeys).1.result
    (finalSection c now wr k b.refreshKeys).1.deeds
    (b.refreshKeys.settled (finalSection c now wr k b.refreshKeys).2)
  rw [finalSection_eq_deeds] at hds
  have hhead : Exec.exec (soloCheck c) (.lookup k, b) [(now, none), (now, none), (now, wr)]
      = some (.act (finalSection c now wr k b.refreshKeys).1.result
          (finalSection c now wr k b.refreshKeys).1.deeds,
        b.refreshKeys.settled (finalSection c now wr k b.refreshKeys).2) := by
    simp [soloCheck, stepCheck, hp, hk]
  refine ⟨ms ++ ([(now, none), (now, none), (now, wr)] ++ ds), ?_⟩
  rw [Exec.exec_append hms, Asked.first, Exec.exec_append hhead, hds]
  simp [checkPublicKey, hl, hb, hp, hk]

/-- **Uninterrupted, the steps of a password check are `checkPassword`.** -/
theorem solo_password (c : Crypto K H P) (test now : Nat) (wr : Option StorageError) (w : P)
    (a : UnifiedAuthenticator K H) :
    ∃ ms, Exec.exec (soloCheck c) (.lockout (.password w), a) ms
      = some (.act (checkPassword c test now wr w a).1.result [], (checkPassword c test now wr w a).2) := by
  obtain ⟨ms, hms⟩ := solo_lockout c test (.password w : Asked K P) a
  by_cases hl : (a.isLockedOut test).1 = true
  · exact ⟨ms, by simpa [checkPassword, hl, PasswordVerdict.result] using hms⟩
  rw [if_neg hl] at hms
  generalize hb : (a.isLockedOut test).2 = b at hms
  have heq : checkPassword c test now wr w a = settlePassword c now wr (b.checkPasswordMatch c w) b := by
    simp [checkPassword, hl, hb]
  obtain ⟨ds, hds⟩ := solo_deeds c now (checkPassword c test now wr w a).1.result
    (checkPassword c test now wr w a).1.deeds (b.settled (checkPassword c test now wr w a).2)
  rw [heq, settlePassword_eq_deeds] at hds
  refine ⟨ms ++ ((now, none) :: (now, wr) :: ds), ?_⟩
  rw [Exec.exec_append hms, heq, ← hds]
  rfl

end Steps

end Irosh
