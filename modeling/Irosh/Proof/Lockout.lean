import Irosh.Auth.Tracking

/-!
# How long a lockout lasts

`is_locked_out` measures the window from the authenticator's own `last_failure`,
and the counter it guards is the monitor's. An authenticator that has recorded a
failure itself sees the window pass: its own stamp is no younger than the last
failure of the whole group. One that has not has nothing to measure from, and
`None` counts as locked out, however long ago the failures were.

So the invariant is about who has a stamp (`Stamped`): exactly the authenticators
that have recorded a failure, each stamp being the time of one of them. The two
verdict lemmas say what a check does to its stamp, and the theorem reads the
lockout test off the invariant.
-/

namespace Irosh

open UnifiedAuthenticator

variable {K H P : Type}

namespace UnifiedAuthenticator

/-- When the lockout test rejects. -/
theorem isLockedOut_iff (now : Nat) (a : UnifiedAuthenticator K H) :
    (a.isLockedOut now).1 = true ↔
      3 ≤ a.failedAttempts ∧ ∀ last, a.lastFailure = some last → now - last ≤ lockoutWindow := by
  unfold isLockedOut
  by_cases hc : a.failedAttempts < 3
  · rw [if_pos hc]
    exact ⟨nofun, fun h => absurd h.1 (by omega)⟩
  · rw [if_neg hc]
    cases hl : a.lastFailure with
    | none => exact ⟨fun _ => ⟨by omega, nofun⟩, fun _ => rfl⟩
    | some last =>
        dsimp only
        by_cases hw : now - last > lockoutWindow
        · rw [if_pos hw]
          exact ⟨nofun, fun h => absurd (h.2 last rfl) (by omega)⟩
        · rw [if_neg hw]
          refine ⟨fun _ => ⟨by omega, ?_⟩, fun _ => rfl⟩
          intro last' h
          cases h
          omega

@[simp] theorem isLockedOut_lastFailure (now : Nat) (a : UnifiedAuthenticator K H) :
    (a.isLockedOut now).2.lastFailure = a.lastFailure :=
  isLockedOut_frame (·.lastFailure) (fun _ => rfl) now a

@[simp] theorem refreshKeys_lastFailure (a : UnifiedAuthenticator K H) :
    a.refreshKeys.lastFailure = a.lastFailure := by
  rw [refreshKeys_eq]
  rfl

variable [DecidableEq K]

/-- A key check stamps its authenticator exactly when it records a failure. -/
theorem checkPublicKey_lastFailure (c : Crypto K H P) (test now : Nat) (wr : Option StorageError)
    (key : K) (a : UnifiedAuthenticator K H) :
    (checkPublicKey c test now wr key a).2.lastFailure
      = if (checkPublicKey c test now wr key a).1.recorded then some now else a.lastFailure := by
  rcases checkPublicKey_cases (Prod.eta (checkPublicKey c test now wr key a)).symm with
    ⟨hv, _, h⟩ | ⟨hv, _, h⟩ | ⟨hv, _, h⟩ | ⟨_, _, _, hf⟩
  · simp [hv, h, KeyVerdict.recorded]
  · simp [hv, h, KeyVerdict.recorded]
  · simp [hv, h, KeyVerdict.recorded, resetFailures]
  · rcases finalSection_cases hf with ⟨hv, _, h⟩ | ⟨hv, _, _, h⟩ | ⟨hv, _, _, _, h⟩ |
      ⟨_, hv, _, h⟩ | ⟨hv, _, _, _, _, _, h⟩ | ⟨hv, _, h⟩
    · simp [hv, h, KeyVerdict.recorded, resetFailures]
    · simp [hv, h, KeyVerdict.recorded, recordFailure]
    · simp [hv, h, KeyVerdict.recorded]
    · simp [hv, h, KeyVerdict.recorded]
    · simp [hv, h, KeyVerdict.recorded, notifySuccess, resetFailures, vaultKey]
    · simp [hv, h, KeyVerdict.recorded, recordFailure]

/-- A password check stamps its authenticator exactly when it records a failure. -/
theorem checkPassword_lastFailure (c : Crypto K H P) (test now : Nat) (wr : Option StorageError)
    (password : P) (a : UnifiedAuthenticator K H) :
    (checkPassword c test now wr password a).2.lastFailure
      = if (checkPassword c test now wr password a).1.recorded then some now
        else a.lastFailure := by
  rcases checkPassword_cases
    (Prod.eta (checkPassword c test now wr password a)).symm with ⟨hv, _, h⟩ | ⟨_, hf⟩
  · simp [hv, h, PasswordVerdict.recorded]
  · rcases settlePassword_cases hf with ⟨hv, _, _, h⟩ | ⟨_, hv, _, _, h⟩ | ⟨_, _, hv, _, _, h⟩ |
      ⟨_, hv, _, _, _, _, h⟩ | ⟨hv, _, h⟩ | ⟨hv, _, h⟩
    · simp [hv, h, PasswordVerdict.recorded, resetFailures]
    · simp [hv, h, PasswordVerdict.recorded, resetFailures]
    · simp [hv, h, PasswordVerdict.recorded]
    · simp [hv, h, PasswordVerdict.recorded, notifySuccess, resetFailures, vaultKey]
    · simp [hv, h, PasswordVerdict.recorded, resetFailures]
    · simp [hv, h, PasswordVerdict.recorded, recordFailure]

/-- Only the lockout test rate limits a key check. -/
theorem checkPublicKey_rateLimited_iff (c : Crypto K H P) (test now : Nat)
    (wr : Option StorageError) (key : K) (a : UnifiedAuthenticator K H) :
    (checkPublicKey c test now wr key a).1 = .rateLimited ↔ (a.isLockedOut test).1 = true := by
  constructor
  · intro h
    rcases checkPublicKey_cases (Prod.eta (checkPublicKey c test now wr key a)).symm with
      ⟨_, hl, _⟩ | ⟨hv, _, _⟩ | ⟨hv, _, _⟩ | ⟨_, _, _, hf⟩
    · exact hl
    · rw [hv] at h; cases h
    · rw [hv] at h; cases h
    · rcases finalSection_cases hf with ⟨hv, _⟩ | ⟨hv, _⟩ | ⟨hv, _⟩ | ⟨_, hv, _⟩ | ⟨hv, _⟩ |
        ⟨hv, _⟩ <;> rw [hv] at h <;> cases h
  · intro h
    simp [checkPublicKey, h]

/-- Only the lockout test rate limits a password check. -/
theorem checkPassword_rateLimited_iff (c : Crypto K H P) (test now : Nat)
    (wr : Option StorageError) (password : P) (a : UnifiedAuthenticator K H) :
    (checkPassword c test now wr password a).1 = .rateLimited ↔ (a.isLockedOut test).1 = true := by
  constructor
  · intro h
    rcases checkPassword_cases
      (Prod.eta (checkPassword c test now wr password a)).symm with ⟨_, hl, _⟩ | ⟨_, hf⟩
    · exact hl
    · rcases settlePassword_cases hf with ⟨hv, _⟩ | ⟨_, hv, _⟩ | ⟨_, _, hv, _⟩ | ⟨_, hv, _⟩ |
        ⟨hv, _⟩ | ⟨hv, _⟩ <;> rw [hv] at h <;> cases h
  · intro h
    simp [checkPassword, h]

end UnifiedAuthenticator

namespace Tracking

/-! ## Who has a stamp -/

/-- The authenticators with a stamp are those that have recorded a failure, and the stamp is the
time of one. -/
structure Stamped (s : Tracking K H) : Prop where
  own : ∀ i a t, s.auths[i]? = some a → a.lastFailure = some t → (i, t) ∈ s.failures
  kept : ∀ x ∈ s.failures, ∃ a, s.auths[x.1]? = some a ∧ a.lastFailure ≠ none

theorem stamped_start (dir : ClientsDir K) (shadow : Shadow H) (successFlag : Bool)
    (failedAttempts clock : Nat) : Stamped (start dir shadow successFlag failedAttempts clock) :=
  ⟨nofun, nofun⟩

/-- A call keeps the stamps in order if it stamps exactly when it records. -/
theorem stamped_put {s : Tracking K H} {i now : Nat} {a a' : UnifiedAuthenticator K H}
    {recorded : Bool} (h : Stamped s) (hi : s.auths[i]? = some a)
    (hlast : a'.lastFailure = if recorded then some now else a.lastFailure) :
    Stamped (s.put i now a' recorded) := by
  have hself : (s.put i now a' recorded).auths[i]? = some a' :=
    List.getElem?_set_self (List.getElem?_eq_some_iff.mp hi).1
  have hother : ∀ j, j ≠ i → (s.put i now a' recorded).auths[j]? = s.auths[j]? :=
    fun j hj => List.getElem?_set_ne (Ne.symm hj)
  have hgrow : ∀ x ∈ s.failures, x ∈ (s.put i now a' recorded).failures := by
    intro x hx
    unfold put
    dsimp only
    split
    · exact List.mem_append_left _ hx
    · exact hx
  refine ⟨?_, ?_⟩
  · intro j b t hj ht
    by_cases hji : j = i
    · rw [hji] at hj ⊢
      rw [hself] at hj
      cases hj
      cases recorded with
      | true =>
          rw [hlast, if_pos rfl] at ht
          cases ht
          simp [put]
      | false =>
          rw [hlast, if_neg (by simp)] at ht
          exact hgrow _ (h.own i a t hi ht)
    · rw [hother j hji] at hj
      exact hgrow _ (h.own j b t hj ht)
  · intro x hx
    have hold : x ∈ s.failures ∨ (recorded = true ∧ x = (i, now)) := by
      cases recorded with
      | true => simpa [put] using hx
      | false => exact .inl (by simpa [put] using hx)
    by_cases hxi : x.1 = i
    · refine ⟨a', by rw [hxi]; exact hself, ?_⟩
      rw [hlast]
      cases recorded with
      | true => simp
      | false =>
          obtain ⟨b, hb, hne⟩ := h.kept x (by simpa using hold)
          rw [hxi, hi] at hb
          cases hb
          simpa using hne
    · rw [hother x.1 hxi]
      rcases hold with hx' | ⟨_, hx'⟩
      · exact h.kept x hx'
      · exact absurd (by rw [hx']) hxi

variable [DecidableEq K]

theorem stamped_step {c : Crypto K H P} (s : Tracking K H) (e : TrackingEvent K H P)
    (s' : Tracking K H) (h : Stamped s) (hs : s.step c e = some s') : Stamped s' := by
  cases e with
  | connect policy keys temp =>
      cases hs
      refine ⟨?_, ?_⟩
      · intro i a t hi ht
        rw [List.getElem?_append] at hi
        split at hi
        · exact h.own i a t hi ht
        · -- the new authenticator has no stamp
          obtain rfl := List.mem_singleton.mp (List.mem_of_getElem? hi)
          cases ht
      · intro x hx
        obtain ⟨a, ha, hne⟩ := h.kept x hx
        exact ⟨a, by rw [List.getElem?_append_left (List.getElem?_eq_some_iff.mp ha).1]; exact ha, hne⟩
  | key i k test now wr =>
      simp only [step] at hs
      split at hs
      · obtain ⟨a, hi, rfl⟩ := Option.map_eq_some_iff.mp hs
        exact stamped_put h hi (checkPublicKey_lastFailure c test now wr k (s.view a))
      · cases hs
  | password i w test now wr =>
      simp only [step] at hs
      split at hs
      · obtain ⟨a, hi, rfl⟩ := Option.map_eq_some_iff.mp hs
        exact stamped_put h hi (checkPassword_lastFailure c test now wr w (s.view a))
      · cases hs
  | disk dir shadow =>
      cases hs
      exact ⟨h.own, h.kept⟩

/-- An attempt is rate limited when its authenticator is locked out. -/
theorem rateLimited_iff {c : Crypto K H P} {s : Tracking K H} {e : TrackingEvent K H P}
    {i test : Nat} {a : UnifiedAuthenticator K H} (he : e.attempt = some (i, test))
    (hi : s.auths[i]? = some a) :
    s.rateLimited c e = true ↔ ((s.view a).isLockedOut test).1 = true := by
  cases e with
  | key j k test' now wr =>
      cases he
      simp only [rateLimited, hi, Option.any_some, decide_eq_true_eq]
      exact checkPublicKey_rateLimited_iff c test now wr k (s.view a)
  | password j w test' now wr =>
      cases he
      simp only [rateLimited, hi, Option.any_some, decide_eq_true_eq]
      exact checkPassword_rateLimited_iff c test now wr w (s.view a)
  | connect policy keys temp => cases he
  | disk dir shadow => cases he

end Tracking

/-! ## The end of a lockout -/

namespace Proof

open Tracking

variable [DecidableEq K]

/-- **When a lockout ends.** In every state the authenticators of one monitor can reach, once the
window has passed since the last failure any of them recorded, an attempt gets past the rate limiter
exactly if fewer than three failures are counted or its own authenticator has recorded one. -/
theorem lockout_ends_iff {c : Crypto K H P} {dir : ClientsDir K} {shadow : Shadow H}
    {successFlag : Bool} {failedAttempts clock : Nat} {es : List (TrackingEvent K H P)}
    {s : Tracking K H}
    (hx : Exec.exec (step c) (start dir shadow successFlag failedAttempts clock) es = some s)
    {e : TrackingEvent K H P} {i test : Nat} (he : e.attempt = some (i, test))
    (hi : i < s.auths.length) (hlate : ∀ x ∈ s.failures, lockoutWindow < test - x.2) :
    s.rateLimited c e = false ↔ s.failedAttempts < 3 ∨ ∃ t, (i, t) ∈ s.failures := by
  have hinv : Stamped s := Exec.exec_invariant_all stamped_step (stamped_start _ _ _ _ _) hx
  obtain ⟨a, ha⟩ : ∃ a, s.auths[i]? = some a := ⟨_, List.getElem?_eq_getElem hi⟩
  have hlimit := rateLimited_iff (c := c) he ha
  rw [isLockedOut_iff] at hlimit
  rw [← Bool.not_eq_true, hlimit]
  constructor
  · intro hfree
    by_cases hc : s.failedAttempts < 3
    · exact .inl hc
    · -- three are counted, so the window must have been measured from a stamp
      refine .inr ?_
      cases hl : a.lastFailure with
      | none =>
          exact absurd ⟨Nat.not_lt.mp hc, fun last h => by rw [view, hl] at h; cases h⟩ hfree
      | some t => exact ⟨t, hinv.own i a t ha hl⟩
  · rintro (hc | ⟨t, ht⟩) ⟨h3, hwin⟩
    · exact absurd h3 (Nat.not_le.mpr hc)
    · obtain ⟨b, hb, hne⟩ := hinv.kept (i, t) ht
      rw [ha] at hb
      cases hb
      obtain ⟨last, hl⟩ := Option.ne_none_iff_exists'.mp hne
      have h1 := hlate (i, last) (hinv.own i a last ha hl)
      have h2 := hwin last hl
      dsimp only at h1
      omega

/-- A guest who gives three wrong codes. -/
def stubbornGuest : List (TrackingEvent Nat Nat Nat) :=
  [.connect .tofu [] (some 7), .password 0 1 0 0 none, .password 0 2 1 1 none,
    .password 0 3 2 2 none]

theorem lockout_ends_same_guest :
    ∃ s, Exec.exec (step Crypto.clear) (start .empty .missing false 0 0) stubbornGuest = some s
      ∧ s.failedAttempts = 3
      ∧ s.rateLimited Crypto.clear (.password 0 7 (lockoutWindow + 3) (lockoutWindow + 3) none)
        = false := by
  have hx : Exec.exec (step Crypto.clear) (start .empty .missing false 0 0) stubbornGuest
      = some _ := rfl
  exact ⟨_, rfl, rfl, (lockout_ends_iff hx rfl (by decide) (by decide)).mpr
    (.inr ⟨2, by decide⟩)⟩

/-- The same three failures, and a second guest who only connects. -/
def secondGuest : List (TrackingEvent Nat Nat Nat) := stubbornGuest ++ [.connect .tofu [] (some 7)]

/-- A guest with the right code is turned away an hour later, having failed nothing. -/
theorem lockout_outlives_window :
    ∃ s, Exec.exec (step Crypto.clear) (start .empty .missing false 0 0) secondGuest = some s
      ∧ (∀ x ∈ s.failures, lockoutWindow < 60 * lockoutWindow - x.2)
      ∧ s.rateLimited Crypto.clear
          (.password 1 7 (60 * lockoutWindow) (60 * lockoutWindow) none) = true :=
  ⟨_, rfl, by decide, by decide⟩

end Proof

end Irosh
