import Irosh.Auth.Interleaved

/-!
# When revoking a key takes effect

Deleting a record from the vault does not reach the list in memory. The list is
consulted first and reread only for a key it does not know, so a key it does
know is accepted on its word, with the record long gone.

Nor does it reach what other checks have read. A check that has read the
directory before the removal replaces the list with what it read, some time
after it, and puts the key back. An old snapshot that is empty does harm too:
under TOFU it makes a claimed vault look unclaimed.

`Forgotten` is the condition that rules all of this out, and `revocation_iff`
shows that it is the right one. (The one exception is an authenticator whose
counter has reached the limit while it has no failure of its own on record: it
refuses everybody, for ever, if no check under way can still move the counter.)
-/

namespace Irosh.Proof

open Irosh UnifiedAuthenticator

variable {K H P : Type}

/-- No record of `k` is left, and the loader still finds a record of somebody else, so that TOFU
cannot apply. -/
def Revoked (k : K) (p : Pool K H P) : Prop :=
  ¬ p.auth.dir.Holds k ∧ ∃ vault, loadAllAuthorizedClients p.auth.dir = .ok vault ∧ vault ≠ []

/-- From `p` on, for as long as `k` stays revoked, every check of `k` from number `n` on that comes to
an end is refused. -/
def RefusesFrom [DecidableEq K] (c : Crypto K H P) (k : K) (n : Nat) (p : Pool K H P) : Prop :=
  ∀ es p', Exec.Meets (Pool.step c) (fun q _ => Revoked k q) p es →
    Exec.exec (Pool.step c) p es = some p' →
    ∀ i s v, n ≤ i → p'.calls[i]? = some (.key s k (.done v)) → v.result = .ok false

/-- Every check of `k` that is started from `p` on is refused, for as long as `k` stays revoked. -/
def RevocationHolds [DecidableEq K] (c : Crypto K H P) (k : K) (p : Pool K H P) : Prop :=
  RefusesFrom c k p.calls.length p

/-- TOFU admits nobody, whatever is in the list. -/
def AdoptsNobody (a : UnifiedAuthenticator K H) : Prop :=
  a.policy = .strict ∨ a.tempPasswordHash ≠ none

/-- A snapshot that may be installed: `k` is not in it, and it does not make the vault look empty. -/
def Powerless (k : K) (a : UnifiedAuthenticator K H) (snapshot : List K) : Prop :=
  k ∉ snapshot ∧ (snapshot ≠ [] ∨ AdoptsNobody a)

/-- **The list does not know `k`, and no check under way is about to tell it.** -/
structure Forgotten (k : K) (p : Pool K H P) : Prop where
  list : k ∉ p.auth.authorizedKeys
  snapshots : ∀ s x snapshot, .key s x (.replace snapshot) ∈ p.calls → Powerless k p.auth snapshot

/-- The counter is at its limit and there is no failure whose window could pass. -/
def LockedForEver (a : UnifiedAuthenticator K H) : Prop :=
  3 ≤ a.failedAttempts ∧ a.lastFailure = none

/-- A check that has not come to its lockout test, or is over. -/
def AtRest : Running K P → Prop
  | .key _ _ pc => pc = .lockout ∨ ∃ v, pc = .done v
  | .password _ _ pc => pc = .lockout ∨ ∃ v, pc = .done v

/-- Nobody gets in, and nobody who is in can change that. -/
def Barred (p : Pool K H P) : Prop := LockedForEver p.auth ∧ ∀ r ∈ p.calls, AtRest r

theorem isLockedOut_forEver {a : UnifiedAuthenticator K H} (h : LockedForEver a) (now : Nat) :
    a.isLockedOut now = (true, a) := by
  unfold isLockedOut
  rw [if_neg (by have := h.1; omega), h.2]

/-- Anybody else's lockout passes if one waits long enough. -/
theorem exists_unlocked {a : UnifiedAuthenticator K H} (h : ¬ LockedForEver a) :
    ∃ now, (a.isLockedOut now).1 = false := by
  by_cases hf : a.failedAttempts < 3
  · exact ⟨0, by simp [isLockedOut, hf]⟩
  · cases hl : a.lastFailure with
    | none => exact absurd ⟨by omega, hl⟩ h
    | some last =>
        refine ⟨last + lockoutWindow + 1, ?_⟩
        unfold isLockedOut
        rw [if_neg hf, hl]
        dsimp only
        rw [if_pos (by omega)]

variable [DecidableEq K] {c : Crypto K H P} {now : Nat} {wr : Option StorageError} {k x : K}

/-! ## One check -/

/-- A snapshot is carried by a check that has just read the directory. -/
theorem stepKey_replace {a a' : UnifiedAuthenticator K H} {pc : KeyPc K} {snapshot : List K}
    (h : stepKey c now wr x a pc = some (.replace snapshot, a')) : a.readVault = .ok snapshot := by
  cases pc with
  | lockout =>
      simp only [stepKey, Option.some.injEq, Prod.mk.injEq] at h
      split at h
      · cases h.1
      · cases h.1
  | lookup =>
      simp only [stepKey] at h
      split at h
      · cases h
      · split at h <;> cases h
  | readVault =>
      simp only [stepKey] at h
      split at h
      · rename_i keys hread
        cases h
        exact hread
      · cases h
  | replace _ => cases h
  | final => cases h
  | done _ => cases h

/-- The final section comes after an installed snapshot, or after a read that failed. -/
theorem stepKey_final {a a' : UnifiedAuthenticator K H} {pc : KeyPc K}
    (h : stepKey c now wr x a pc = some (.final, a')) :
    (∃ snapshot, pc = .replace snapshot ∧ a'.authorizedKeys = snapshot)
      ∨ ∃ e, a.readVault = .error e := by
  cases pc with
  | lockout =>
      simp only [stepKey, Option.some.injEq, Prod.mk.injEq] at h
      split at h
      · cases h.1
      · cases h.1
  | lookup =>
      simp only [stepKey] at h
      split at h
      · cases h
      · split at h <;> cases h
  | readVault =>
      simp only [stepKey] at h
      split at h
      · cases h
      · rename_i e hread
        exact .inr ⟨e, hread⟩
  | replace snapshot =>
      cases h
      exact .inl ⟨snapshot, rfl, rfl⟩
  | final => cases h
  | done _ => cases h

/-- The final section refuses a key the list does not know where TOFU does not apply. -/
theorem finalSection_refused {a : UnifiedAuthenticator K H} (hk : k ∉ a.authorizedKeys)
    (ha : a.authorizedKeys ≠ [] ∨ AdoptsNobody a) :
    (finalSection c now wr k a).1.result = .ok false := by
  unfold finalSection
  rw [if_neg hk]
  split
  · rfl
  · rename_i hs
    split
    · rfl
    · rename_i hw
      have hne : a.authorizedKeys ≠ [] := by
        rcases ha with hne | hp | ht
        · exact hne
        · exact absurd hp hs
        · -- with a temp password there is a challenge
          refine absurd ?_ hw
          rw [Option.isSome_iff_ne_none.mpr ht, Bool.or_true]
      rw [if_neg fun he => hne (List.isEmpty_iff.mp he)]
      rfl

/-- **A check of a key the list does not know.** -/
theorem stepKey_refused {a a' : UnifiedAuthenticator K H} {pc : KeyPc K} {v : KeyVerdict}
    (hp : a.policy ≠ .acceptAll) (hk : k ∉ a.authorizedKeys)
    (hf : pc = .final → a.authorizedKeys ≠ [] ∨ AdoptsNobody a)
    (h : stepKey c now wr k a pc = some (.done v, a')) : v.result = .ok false := by
  cases pc with
  | lockout =>
      simp only [stepKey, Option.some.injEq, Prod.mk.injEq] at h
      split at h
      · cases h.1
        rfl
      · cases h.1
  | lookup =>
      simp only [stepKey, if_neg hp, if_neg hk] at h
      cases h
  | readVault =>
      simp only [stepKey] at h
      split at h <;> cases h
  | replace _ => cases h
  | final =>
      cases h
      exact finalSection_refused hk (hf rfl)
  | done _ => cases h

/-! ## A forgotten key stays forgotten -/

omit [DecidableEq K] in
/-- What every check reads while `k` is revoked is harmless. -/
theorem powerless_of_revoked {p : Pool K H P} {s : Nat} {snapshot : List K} (h : Revoked k p)
    (hread : (p.view s).readVault = .ok snapshot) : Powerless k p.auth snapshot := by
  obtain ⟨hgone, vault, hload, hne⟩ := h
  have hsnap : snapshot = vault.map Prod.snd := by
    have hview : (p.view s).readVault = .ok (vault.map Prod.snd) := by
      simp [readVault, Pool.view, hload]
    rw [hview] at hread
    cases hread
    rfl
  rw [hsnap]
  exact ⟨fun hk => hgone (holds_of_mem_load hload hk), .inl (by simpa using hne)⟩

omit [DecidableEq K] in
theorem readVault_of_revoked {p : Pool K H P} {s : Nat} {e : StorageError} (h : Revoked k p) :
    (p.view s).readVault ≠ .error e := by
  obtain ⟨_, vault, hload, _⟩ := h
  simp [readVault, Pool.view, hload]

/-- **Checks of `k` from number `n` on are refused.** -/
structure Refusing (k : K) (n : Nat) (p : Pool K H P) : Prop where
  policy : p.auth.policy ≠ .acceptAll
  /-- Those that are over have been. -/
  answered : ∀ i s v, n ≤ i → p.calls[i]? = some (.key s k (.done v)) → v.result = .ok false
  /-- The others find nothing in the list. -/
  forgotten : ¬ p.auth.dir.Holds k → Forgotten k p
  /-- Nor does the vault look empty to them. -/
  final : ¬ p.auth.dir.Holds k → ∀ i s, n ≤ i → p.calls[i]? = some (.key s k .final) →
    p.auth.authorizedKeys ≠ [] ∨ AdoptsNobody p.auth

omit [DecidableEq K] in
theorem refusing_start {n : Nat} {p : Pool K H P} {r : Running K P} (h : Refusing k n p)
    (hr : Pool.Started r) : Refusing k n { p with calls := p.calls ++ [r] } := by
  have hold : ∀ {i : Nat} {s : Nat} {x : K} {pc : KeyPc K}, pc ≠ .lockout →
      (p.calls ++ [r])[i]? = some (.key s x pc) → p.calls[i]? = some (.key s x pc) := by
    intro i s x pc hpc hi
    rcases Nat.lt_or_ge i p.calls.length with hlt | hge
    · rw [List.getElem?_append_left hlt] at hi
      exact hi
    · rw [List.getElem?_append_right hge] at hi
      have hmem := List.mem_singleton.mp (List.mem_of_getElem? hi)
      rw [← hmem] at hr
      exact absurd hr hpc
  refine ⟨h.policy, ?_, ?_, ?_⟩
  · intro i s v hn hi
    exact h.answered i s v hn (hold (by simp) hi)
  · intro hg
    refine ⟨(h.forgotten hg).list, ?_⟩
    intro s x snapshot hm
    obtain ⟨i, hi⟩ := List.mem_iff_getElem?.mp hm
    exact (h.forgotten hg).snapshots s x snapshot (List.mem_of_getElem? (hold (by simp) hi))
  · intro hg i s hn hi
    exact h.final hg i s hn (hold (by simp) hi)

/-- **A step of a key check.** -/
theorem refusing_stepKey {n i s : Nat} {p : Pool K H P} {pc pc' : KeyPc K}
    {a' : UnifiedAuthenticator K H} (h : Refusing k n p) (hr : Revoked k p)
    (hi : p.calls[i]? = some (.key s x pc))
    (hs : stepKey c now wr x (p.view s) pc = some (pc', a')) :
    Refusing k n (p.put i s a' (.key s x pc')) := by
  have hf := h.forgotten hr.1
  obtain ⟨hpol, _, htemp, heff⟩ := stepKey_effect hs
  have hpol' : a'.policy = p.auth.policy := hpol
  have htemp' : a'.tempPasswordHash = p.auth.tempPasswordHash := htemp
  have hnobody : AdoptsNobody p.auth → AdoptsNobody a' := by
    rintro (hp | ht)
    · exact .inl (hpol'.trans hp)
    · exact .inr (by rw [htemp']; exact ht)
  -- TOFU admits somebody else, an installed snapshot is harmless, and the rest leaves the list alone
  have hlist : (¬ a'.dir.Holds k → k ∉ a'.authorizedKeys)
      ∧ (p.auth.authorizedKeys ≠ [] ∨ AdoptsNobody p.auth →
          a'.authorizedKeys ≠ [] ∨ AdoptsNobody a') := by
    rcases heff with ⟨_, _, _, hdir, hkeys⟩ | ⟨_, _, ⟨snapshot, rfl, hkeys⟩ | ⟨_, hkeys⟩⟩
    · refine ⟨?_, fun _ => .inl (by rw [hkeys]; exact List.cons_ne_nil _ _)⟩
      intro hgone hk
      rw [hkeys, List.mem_singleton] at hk
      subst hk
      exact hgone (by rw [hdir]; exact holds_writeAuthorizedClient _ (c.fingerprint_ne_nil k) k)
    · have hharm := hf.snapshots s x snapshot (List.mem_of_getElem? hi)
      rw [hkeys]
      exact ⟨fun _ => hharm.1, fun _ => hharm.2.imp_right hnobody⟩
    · rw [hkeys]
      exact ⟨fun _ => hf.list, Or.imp_right hnobody⟩
  refine ⟨by rw [show (p.put i s a' (.key s x pc')).auth.policy = p.auth.policy from hpol'];
             exact h.policy, ?_, ?_, ?_⟩
  · intro j t v hn hj
    by_cases hji : j = i
    · subst hji
      rw [Pool.put_calls_self hi] at hj
      cases hj
      exact stepKey_refused (a := p.view s) h.policy hf.list
        (fun hpc => h.final hr.1 j s hn (hpc ▸ hi)) hs
    · rw [Pool.put_calls_ne (Ne.symm hji)] at hj
      exact h.answered j t v hn hj
  · intro hgone
    refine ⟨hlist.1 hgone, ?_⟩
    intro t y snapshot hm
    have hharm : Powerless k p.auth snapshot := by
      rcases Pool.mem_put_calls hm with hm | hm
      · cases hm
        exact powerless_of_revoked hr (stepKey_replace hs)
      · exact hf.snapshots t y snapshot hm
    exact ⟨hharm.1, hharm.2.imp_right hnobody⟩
  · intro hgone j t hn hj
    by_cases hji : j = i
    · subst hji
      rw [Pool.put_calls_self hi] at hj
      cases hj
      rcases stepKey_final hs with ⟨snapshot, rfl, hkeys⟩ | ⟨e, he⟩
      · have hharm := hf.snapshots s k snapshot (List.mem_of_getElem? hi)
        show a'.authorizedKeys ≠ [] ∨ AdoptsNobody a'
        rw [hkeys]
        exact hharm.2.imp_right hnobody
      · exact absurd he (readVault_of_revoked hr)
    · rw [Pool.put_calls_ne (Ne.symm hji)] at hj
      exact hlist.2 (h.final hr.1 j t hn hj)

/-- **A step of a password check.** -/
theorem refusing_stepPassword {n i s : Nat} {w : P} {p : Pool K H P} {pc pc' : PasswordPc K}
    {a' : UnifiedAuthenticator K H} (h : Refusing k n p) (hr : Revoked k p)
    (hi : p.calls[i]? = some (.password s w pc))
    (hs : stepPassword c now wr w (p.view s) pc = some (pc', a')) :
    Refusing k n (p.put i s a' (.password s w pc')) := by
  have hf := h.forgotten hr.1
  obtain ⟨hpol, _, htemp, heff⟩ := stepPassword_effect hs
  have hpol' : a'.policy = p.auth.policy := hpol
  have htemp' : a'.tempPasswordHash = p.auth.tempPasswordHash := htemp
  have hnobody : AdoptsNobody p.auth → AdoptsNobody a' := by
    rintro (hp | ht)
    · exact .inl (hpol'.trans hp)
    · exact .inr (by rw [htemp']; exact ht)
  have hold : ∀ {j t : Nat} {y : K} {q : KeyPc K},
      (p.put i s a' (.password s w pc')).calls[j]? = some (.key t y q) →
      p.calls[j]? = some (.key t y q) := by
    intro j t y q hj
    by_cases hji : j = i
    · subst hji
      rw [Pool.put_calls_self hi] at hj
      cases hj
    · rw [Pool.put_calls_ne (Ne.symm hji)] at hj
      exact hj
  refine ⟨by rw [show (p.put i s a' (.password s w pc')).auth.policy = p.auth.policy from hpol'];
             exact h.policy, ?_, ?_, ?_⟩
  · intro j t v hn hj
    exact h.answered j t v hn (hold hj)
  · intro hgone
    refine ⟨?_, ?_⟩
    · show k ∉ a'.authorizedKeys
      intro hk
      rcases heff with ⟨key, _, hkeys, hdir⟩ | ⟨hkeys, _⟩
      · rw [hkeys] at hk
        rcases List.mem_append.mp hk with hk | hk
        · exact hf.list hk
        · -- `k` itself has been paired, so its record is back
          rw [List.mem_singleton] at hk
          subst hk
          refine hgone ?_
          show a'.dir.Holds k
          rw [hdir]
          exact holds_writeAuthorizedClient _ (c.fingerprint_ne_nil k) k
      · rw [hkeys] at hk
        exact hf.list hk
    · intro t y snapshot hm
      obtain ⟨j, hj⟩ := List.mem_iff_getElem?.mp hm
      have hharm := hf.snapshots t y snapshot (List.mem_of_getElem? (hold hj))
      exact ⟨hharm.1, hharm.2.imp_right hnobody⟩
  · intro _ j t hn hj
    rcases h.final hr.1 j t hn (hold hj) with hne | hno
    · left
      show a'.authorizedKeys ≠ []
      rcases heff with ⟨key, _, hkeys, _⟩ | ⟨hkeys, _⟩
      · rw [hkeys]
        simp
      · rw [hkeys]
        exact hne
    · exact .inr (hnobody hno)

/-- **Preserved by every event while `k` is revoked.** -/
theorem refusing_step {n : Nat} {p p' : Pool K H P} {e : PoolEvent K H P} (h : Refusing k n p)
    (hr : Revoked k p) (hs : p.step c e = some p') : Refusing k n p' := by
  rcases Pool.step_cases hs with ⟨r, hst, rfl⟩ |
    ⟨i, now, wr, s, x, pc, pc', a', rfl, hi, hk, rfl⟩ |
    ⟨i, now, wr, s, w, pc, pc', a', rfl, hi, hk, rfl⟩ | ⟨dir, shadow, rfl, rfl⟩
  · exact refusing_start h hst
  · exact refusing_stepKey h hr hi hk
  · exact refusing_stepPassword h hr hi hk
  · exact ⟨h.policy, h.answered, fun _ => ⟨(h.forgotten hr.1).list, (h.forgotten hr.1).snapshots⟩,
      fun _ => h.final hr.1⟩

/-! ## An authenticator locked for ever -/

/-- **Nobody gets in**, from number `n` on. -/
structure Shut (n : Nat) (p : Pool K H P) : Prop where
  barred : Barred p
  answered : ∀ i s x v, n ≤ i → p.calls[i]? = some (.key s x (.done v)) → v = .rateLimited

theorem shut_step {n : Nat} {p p' : Pool K H P} {e : PoolEvent K H P} (h : Shut n p)
    (hs : p.step c e = some p') : Shut n p' := by
  obtain ⟨⟨hlocked, hrest⟩, hans⟩ := h
  have hlock : ∀ s now, (p.view s).isLockedOut now = (true, p.view s) := fun s now =>
    isLockedOut_forEver (a := p.view s) hlocked now
  rcases Pool.step_cases hs with ⟨r, hst, rfl⟩ |
    ⟨i, now, wr, s, x, pc, pc', a', rfl, hi, hk, rfl⟩ |
    ⟨i, now, wr, s, w, pc, pc', a', rfl, hi, hk, rfl⟩ | ⟨dir, shadow, rfl, rfl⟩
  · refine ⟨⟨hlocked, ?_⟩, ?_⟩
    · intro q hq
      rcases List.mem_append.mp hq with hq | hq
      · exact hrest q hq
      · rw [List.mem_singleton.mp hq]
        cases r with
        | key s x pc => exact .inl hst
        | password s w pc => exact .inl hst
    · intro i s x v hn hi
      rcases Nat.lt_or_ge i p.calls.length with hlt | hge
      · rw [List.getElem?_append_left hlt] at hi
        exact hans i s x v hn hi
      · rw [List.getElem?_append_right hge] at hi
        have hmem := List.mem_singleton.mp (List.mem_of_getElem? hi)
        rw [← hmem] at hst
        cases hst
  · -- the check stands at its lockout test, and is turned away
    rcases hrest _ (List.mem_of_getElem? hi) with rfl | ⟨v, rfl⟩
    · simp only [stepKey, hlock, if_true, Option.some.injEq, Prod.mk.injEq] at hk
      obtain ⟨rfl, rfl⟩ := hk
      refine ⟨⟨hlocked, ?_⟩, ?_⟩
      · intro q hq
        rcases Pool.mem_put_calls hq with rfl | hq
        · exact .inr ⟨_, rfl⟩
        · exact hrest q hq
      · intro j t y v hn hj
        by_cases hji : j = i
        · subst hji
          rw [Pool.put_calls_self hi] at hj
          cases hj
          rfl
        · rw [Pool.put_calls_ne (Ne.symm hji)] at hj
          exact hans j t y v hn hj
    · cases hk
  · rcases hrest _ (List.mem_of_getElem? hi) with rfl | ⟨v, rfl⟩
    · simp only [stepPassword, hlock, if_true, Option.some.injEq, Prod.mk.injEq] at hk
      obtain ⟨rfl, rfl⟩ := hk
      refine ⟨⟨hlocked, ?_⟩, ?_⟩
      · intro q hq
        rcases Pool.mem_put_calls hq with rfl | hq
        · exact .inr ⟨_, rfl⟩
        · exact hrest q hq
      · intro j t y v hn hj
        by_cases hji : j = i
        · subst hji
          rw [Pool.put_calls_self hi] at hj
          cases hj
        · rw [Pool.put_calls_ne (Ne.symm hji)] at hj
          exact hans j t y v hn hj
    · cases hk
  · exact ⟨⟨hlocked, hrest⟩, hans⟩

/-! ## A remembered key is accepted -/

theorem RefusesFrom.answer {n i s : Nat} {p : Pool K H P} {v : KeyVerdict}
    (h : RefusesFrom c k n p) (hn : n ≤ i) (hi : p.calls[i]? = some (.key s k (.done v))) :
    v.result = .ok false :=
  h [] p trivial rfl i s v hn hi

theorem RefusesFrom.step {n : Nat} {p p' : Pool K H P} {e : PoolEvent K H P}
    (h : RefusesFrom c k n p) (hr : Revoked k p) (hs : p.step c e = some p') :
    RefusesFrom c k n p' := by
  intro es q hg hx
  refine h (e :: es) q ⟨hr, ?_⟩ ?_
  · intro p'' hs'
    rw [hs] at hs'
    cases hs'
    exact hg
  · rw [Exec.exec_cons, hs]
    exact hx

theorem RefusesFrom.advance {n i s : Nat} {p : Pool K H P} {pc pc' : KeyPc K}
    {a' : UnifiedAuthenticator K H} (now : Nat) (h : RefusesFrom c k n p) (hr : Revoked k p)
    (hi : p.calls[i]? = some (.key s x pc))
    (hs : stepKey c now none x (p.view s) pc = some (pc', a')) :
    RefusesFrom c k n (p.put i s a' (.key s x pc')) :=
  h.step (e := .advance i now none) hr (by simp [Pool.step, Pool.advance, hi, hs])

omit [DecidableEq K] in
/-- The state in which a check of `k` on session 0 has just been started. -/
def withCheck (k : K) (p : Pool K H P) : Pool K H P :=
  { p with calls := p.calls ++ [.key 0 k .lockout] }

omit [DecidableEq K] in
theorem withCheck_calls (p : Pool K H P) :
    (withCheck k p).calls[p.calls.length]? = some (.key 0 k .lockout) := by
  simp [withCheck]

/-- The state in which it has passed the lockout test. -/
def pastLockout (k : K) (now : Nat) (p : Pool K H P) : Pool K H P :=
  (withCheck k p).put p.calls.length 0 (((withCheck k p).view 0).isLockedOut now).2 (.key 0 k .lookup)

omit [DecidableEq K] in
theorem pastLockout_calls (now : Nat) (p : Pool K H P) :
    (pastLockout k now p).calls[p.calls.length]? = some (.key 0 k .lookup) :=
  Pool.put_calls_self (withCheck_calls p)

/-- Unless it is locked for ever, a check can be brought that far, and nothing else has moved. -/
theorem RefusesFrom.passesLockout {n : Nat} {p : Pool K H P} (h : RefusesFrom c k n p)
    (hr : Revoked k p) (hl : ¬ LockedForEver p.auth) :
    ∃ now, RefusesFrom c k n (pastLockout k now p) := by
  obtain ⟨now, hopen⟩ := exists_unlocked (a := (withCheck k p).view 0) hl
  refine ⟨now, ?_⟩
  have h1 : RefusesFrom c k n (withCheck k p) := h.step (e := .startKey 0 k) hr rfl
  exact h1.advance now hr (withCheck_calls p) (by simp [stepKey, hopen])

/-- **A key in the list is accepted from memory.** -/
theorem accepted_of_listed {n : Nat} {p : Pool K H P} (hn : n ≤ p.calls.length)
    (hr : Revoked k p) (hp : p.auth.policy ≠ .acceptAll) (hl : ¬ LockedForEver p.auth)
    (hk : k ∈ p.auth.authorizedKeys) : ¬ RefusesFrom c k n p := by
  intro h
  obtain ⟨now, h1⟩ := h.passesLockout hr hl
  have hr1 : Revoked k (pastLockout k now p) := by
    simpa [Revoked, pastLockout, Pool.put, withCheck, Pool.view] using hr
  have hlook : stepKey c now none k ((pastLockout k now p).view 0) .lookup
      = some (.done .known, ((pastLockout k now p).view 0).resetFailures) := by
    simp [stepKey, pastLockout, Pool.put, Pool.view, withCheck, hp, hk]
  have h2 := h1.advance now hr1 (pastLockout_calls now p) hlook
  exact absurd (h2.answer hn (Pool.put_calls_self (pastLockout_calls now p))) (by simp [KeyVerdict.result])

/-- **An old snapshot brings the key back.** -/
theorem accepted_of_snapshot {n i s : Nat} {p : Pool K H P} {snapshot : List K}
    (hn : n ≤ p.calls.length) (hr : Revoked k p) (hp : p.auth.policy ≠ .acceptAll)
    (hl : ¬ LockedForEver p.auth) (hi : p.calls[i]? = some (.key s x (.replace snapshot)))
    (hk : k ∈ snapshot) : ¬ RefusesFrom c k n p := by
  intro h
  have hinstall : stepKey c 0 none x (p.view s) (.replace snapshot)
      = some (.final, replaceKeys snapshot (p.view s)) := rfl
  have h1 := h.advance 0 hr hi hinstall
  exact accepted_of_listed (p := p.put i s (replaceKeys snapshot (p.view s)) (.key s x .final))
    (by simpa [Pool.put] using hn) hr hp hl hk h1

/-- A check of `k`, number `j`, stands at `pc`, and check `i` is about to install an empty snapshot. -/
structure Staged (c : Crypto K H P) (k : K) (n i j s : Nat) (x : K) (pc : KeyPc K)
    (p : Pool K H P) : Prop where
  refuses : RefusesFrom c k n p
  revoked : Revoked k p
  policy : p.auth.policy = .tofu
  temp : p.auth.tempPasswordHash = none
  stale : p.calls[i]? = some (.key s x (.replace []))
  mine : p.calls[j]? = some (.key 0 k pc)

theorem Staged.advance {n i j s : Nat} {p : Pool K H P} {pc pc' : KeyPc K}
    {a' : UnifiedAuthenticator K H} (h : Staged c k n i j s x pc p) (hij : i ≠ j) (hpc : pc ≠ .final)
    (hs : stepKey c now none k (p.view 0) pc = some (pc', a')) :
    Staged c k n i j s x pc' (p.put j 0 a' (.key 0 k pc')) := by
  obtain ⟨hpol, _, htemp, heff⟩ := stepKey_effect hs
  have hdir : a'.dir = p.auth.dir := by
    rcases heff with ⟨hf, _⟩ | ⟨_, hd, _⟩
    · exact absurd hf hpc
    · exact hd
  refine ⟨h.refuses.advance now h.revoked h.mine hs, ?_, hpol.trans h.policy, htemp.trans h.temp,
    (Pool.put_calls_ne (Ne.symm hij)).trans h.stale, Pool.put_calls_self h.mine⟩
  show ¬ a'.dir.Holds k ∧ ∃ vault, loadAllAuthorizedClients a'.dir = .ok vault ∧ vault ≠ []
  rw [hdir]
  exact h.revoked

/-- The old snapshot is installed between the check's own replacement and its final section. -/
theorem Staged.absurd_final {n i j s : Nat} {p : Pool K H P} (hn : n ≤ j) (hij : i ≠ j)
    (h : Staged c k n i j s x .final p) : False := by
  let stale := p.put i s (replaceKeys [] (p.view s)) (.key s x .final)
  have h1 : RefusesFrom c k n stale := h.refuses.advance 0 h.revoked h.stale rfl
  -- the node password goes too, which is no business of the vault's
  let bare : Pool K H P := { stale with auth := { stale.auth with shadow := .missing } }
  have h2 : RefusesFrom c k n bare := h1.step (e := .disk p.auth.dir .missing) h.revoked rfl
  have hj : bare.calls[j]? = some (.key 0 k .final) := by
    have hkept : stale.calls[j]? = p.calls[j]? := Pool.put_calls_ne hij
    exact hkept.trans h.mine
  have hfound : (finalSection c 0 none k (bare.view 0)).1 = .tofu := by
    have hp : (bare.view 0).policy = .tofu := h.policy
    have ht : (bare.view 0).tempPasswordHash = none := h.temp
    have hk : (bare.view 0).authorizedKeys = [] := rfl
    have hs : (bare.view 0).nodePwExists = false := rfl
    simp [finalSection, hp, ht, hk, hs]
  have h3 := h2.advance 0 h.revoked hj rfl
  have hv := h3.answer hn (Pool.put_calls_self hj)
  rw [hfound] at hv
  cases hv

/-- **An old snapshot that is empty lets TOFU admit the key.** -/
theorem accepted_of_empty_snapshot {n i s : Nat} {p : Pool K H P} (hn : n ≤ p.calls.length)
    (hr : Revoked k p) (hp : p.auth.policy = .tofu) (ht : p.auth.tempPasswordHash = none)
    (hl : ¬ LockedForEver p.auth) (hk : k ∉ p.auth.authorizedKeys)
    (hi : p.calls[i]? = some (.key s x (.replace []))) : ¬ RefusesFrom c k n p := by
  intro h
  obtain ⟨vault, hload, _⟩ := hr.2
  have hlt : i < p.calls.length := (List.getElem?_eq_some_iff.mp hi).1
  have hij : i ≠ p.calls.length := by omega
  obtain ⟨now, hopen⟩ := exists_unlocked (a := (withCheck k p).view 0) hl
  have h0 : Staged c k n i p.calls.length s x .lockout (withCheck k p) :=
    ⟨h.step (e := .startKey 0 k) hr rfl, hr, hp, ht,
      (List.getElem?_append_left hlt).trans hi, withCheck_calls p⟩
  -- what it sees from the lockout test on
  let a := (((withCheck k p).view 0).isLockedOut now).2
  have hlockout : stepKey c now none k ((withCheck k p).view 0) .lockout = some (.lookup, a) := by
    simp [stepKey, hopen, a]
  have hlookup : stepKey c now none k a .lookup = some (.readVault, a) := by
    simp [stepKey, a, Pool.view, withCheck, hp, hk]
  have hread : stepKey c now none k a .readVault = some (.replace (vault.map Prod.snd), a) := by
    simp [stepKey, readVault, a, Pool.view, withCheck, hload]
  have h1 := h0.advance hij (by simp) hlockout
  have h2 := h1.advance hij (by simp) (by rw [Pool.put_view]; exact hlookup)
  have h3 := h2.advance hij (by simp) (by rw [Pool.put_view]; exact hread)
  have hreplace : stepKey c now none k a (.replace (vault.map Prod.snd))
      = some (.final, replaceKeys (vault.map Prod.snd) a) := rfl
  have h4 := h3.advance hij (by simp) (by rw [Pool.put_view]; exact hreplace)
  exact h4.absurd_final hn hij

/-! ## The exact condition -/

omit [DecidableEq K] in
theorem refusing_of_forgotten {p : Pool K H P} (hp : p.auth.policy ≠ .acceptAll)
    (h : Forgotten k p) : Refusing k p.calls.length p := by
  refine ⟨hp, ?_, fun _ => h, ?_⟩
  · intro i s v hn hi
    exact absurd (List.getElem?_eq_some_iff.mp hi).1 (by omega)
  · intro _ i s hn hi
    exact absurd (List.getElem?_eq_some_iff.mp hi).1 (by omega)

omit [DecidableEq K] in
theorem shut_of_barred {p : Pool K H P} (h : Barred p) : Shut p.calls.length p := by
  refine ⟨h, ?_⟩
  intro i s x v hn hi
  exact absurd (List.getElem?_eq_some_iff.mp hi).1 (by omega)

/-- **Once the last record of `k` is gone, every later check of `k` is refused exactly where the list
has forgotten `k` and no check under way is about to remind it.** -/
theorem revocation_iff (c : Crypto K H P) (k : K) (p : Pool K H P)
    (hp : p.auth.policy = .tofu ∨ p.auth.policy = .strict) (hr : Revoked k p) :
    (Forgotten k p ∨ Barred p → RevocationHolds c k p)
      ∧ (RevocationHolds c k p → Forgotten k p ∨ LockedForEver p.auth) := by
  have hall : p.auth.policy ≠ .acceptAll := by
    rcases hp with hp | hp <;> simp [hp]
  constructor
  · intro h es p' hg hx
    rcases h with h | h
    · exact (Exec.exec_invariant (fun _ _ _ hi hr hs => refusing_step hi hr hs)
        (refusing_of_forgotten hall h) hg hx).answered
    · intro i s v hn hi
      have hshut := Exec.exec_invariant_all (fun _ _ _ h hs => shut_step h hs) (shut_of_barred h) hx
      rw [hshut.answered i s k v hn hi]
      rfl
  · intro h
    by_contra hno
    rw [not_or] at hno
    obtain ⟨hforg, hl⟩ := hno
    by_cases hk : k ∈ p.auth.authorizedKeys
    · exact accepted_of_listed (Nat.le_refl _) hr hall hl hk h
    · refine hforg ⟨hk, ?_⟩
      intro s x snapshot hm
      obtain ⟨i, hi⟩ := List.mem_iff_getElem?.mp hm
      by_contra hharm
      by_cases hks : k ∈ snapshot
      · exact accepted_of_snapshot (Nat.le_refl _) hr hall hl hi hks h
      · -- an empty one, then, where TOFU may apply
        have hbad : snapshot = [] ∧ ¬ AdoptsNobody p.auth := by
          constructor
          · by_contra hne
            exact hharm ⟨hks, .inl hne⟩
          · intro hno
            exact hharm ⟨hks, .inr hno⟩
        obtain ⟨rfl, hadopt⟩ := hbad
        have htofu : p.auth.policy = .tofu := hp.resolve_right fun hs => hadopt (.inl hs)
        have htemp : p.auth.tempPasswordHash = none := by
          by_contra ht
          exact hadopt (.inr ht)
        exact accepted_of_empty_snapshot (Nat.le_refl _) hr htofu htemp hl hk hi h

/-- A directory with the records of two devices. -/
def twoDevices : ClientsDir Nat :=
  ⟨true, true, [.file (clientKeyName ['a']) (some 1), .file (clientKeyName ['b']) (some 2)]⟩

/-- The directory with the record of device 2 removed. -/
def oneDevice : ClientsDir Nat := (resetAuthorizedClient twoDevices ['b']).1

/-- A pool nobody is using. -/
def idlePool (dir : ClientsDir Nat) (keys : List Nat) : Pool Nat Nat Nat :=
  ⟨.new dir .missing .tofu keys none, fun _ => none, [], []⟩

/-- The record of device 2 is removed from a vault the daemon has never loaded: every later check of
that key is refused. -/
theorem revocation_unseen_device :
    Revoked 2 (idlePool oneDevice [1]) ∧ RevocationHolds Crypto.clear 2 (idlePool oneDevice [1]) := by
  have hd : oneDevice.entries = [.file (clientKeyName ['a']) (some 1)] := by decide
  have hr : Revoked 2 (idlePool oneDevice [1]) := by
    refine ⟨?_, [(['a'], 1)], by decide, by decide⟩
    rintro ⟨name, hm, _⟩
    rw [show (idlePool oneDevice [1]).auth.dir.entries = oneDevice.entries from rfl, hd] at hm
    simp at hm
  refine ⟨hr, (revocation_iff Crypto.clear 2 _ (.inl rfl) hr).1 (.inl ⟨by decide, ?_⟩)⟩
  intro s x snapshot hm
  cases hm

/-- The daemon knows device 2; its record is revoked; the device logs in as before. Nor does it help
that the list does not know device 2, where a check of a stranger's key (7) has read the directory
before the removal: it installs what it read after it. -/
theorem revoked_device_still_accepted :
    (resetAuthorizedClient twoDevices ['b']).2 = true
      ∧ oneDevice.entries = [.file (clientKeyName ['a']) (some 1)]
      ∧ (Exec.exec (Pool.step Crypto.clear) (idlePool twoDevices [1, 2])
          [.disk oneDevice .missing, .startKey 0 2, .advance 0 0 none, .advance 0 0 none]).map
            (·.calls) = some [.key 0 2 (.done .known)]
      ∧ (Exec.exec (Pool.step Crypto.clear) (idlePool twoDevices [1])
          [.startKey 0 7, .advance 0 0 none, .advance 0 0 none, .advance 0 0 none,
            .disk oneDevice .missing, .advance 0 0 none,
            .startKey 1 2, .advance 1 0 none, .advance 1 0 none]).map (·.calls)
          = some [.key 0 7 .final, .key 1 2 (.done .known)]
      ∧ KeyVerdict.known.result = .ok true := by
  decide

end Irosh.Proof
