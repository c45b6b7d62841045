import Irosh.Auth.Interleaved

/-!
# At most one owner

The first device to connect to an unclaimed node becomes its owner. The decision
is taken under the list's lock, and takes an empty list to mean an unclaimed
vault. The list, though, is overwritten with a snapshot that was read *before* the
lock was taken. A check that read the directory while it was still empty can
install that emptiness after somebody else has been admitted, and then the next
check finds an empty list once more.

Nothing else can go wrong: as long as no empty snapshot is installed over a
vault that already holds a record, `Owned` is an invariant and at most one key is
ever admitted.
-/

namespace Irosh.Proof

open Irosh UnifiedAuthenticator

variable {K H P : Type}

/-- An unclaimed node that has not been contacted yet. -/
def Unclaimed (p : Pool K H P) : Prop :=
  p.auth.policy = .tofu ∧ p.auth.shadow = .missing ∧ p.auth.tempPasswordHash = none
    ∧ p.auth.dir.keys = [] ∧ p.auth.authorizedKeys = [] ∧ p.calls = [] ∧ p.admitted = []

/-- Other processes delete no record. -/
def DeletesNothing [DecidableEq K] (p : Pool K H P) : PoolEvent K H P → Bool
  | .disk dir _ => p.auth.dir.keys.all fun k => decide (k ∈ dir.keys)
  | _ => true

/-- No check installs an empty snapshot once the vault holds a record. -/
def InstallsNoStaleEmptiness (p : Pool K H P) : PoolEvent K H P → Bool
  | .advance i _ _ =>
      match p.calls[i]? with
      | some (.key _ _ (.replace [])) => p.auth.dir.keys.isEmpty
      | _ => true
  | _ => true

/-! ## The invariant -/

/-- **Once a key has been admitted the list is not empty again.** -/
structure Owned (p : Pool K H P) : Prop where
  /-- There is no temp password. -/
  temp : p.auth.tempPasswordHash = none
  /-- Hence no password check is about to vault anything. -/
  idle : ∀ s w, .password s w (.settle (some true)) ∉ p.calls
  /-- At most one key has been admitted. -/
  one : p.admitted.length ≤ 1
  /-- Its record is on disk. -/
  held : ∀ k ∈ p.admitted, p.auth.dir.Holds k
  /-- And the list knows that the vault is claimed. -/
  claimed : p.admitted ≠ [] → p.auth.authorizedKeys ≠ []

theorem owned_unclaimed {p : Pool K H P} (h : Unclaimed p) : Owned p := by
  obtain ⟨_, _, ht, _, _, hc, ha⟩ := h
  refine ⟨ht, ?_, ?_, ?_, ?_⟩
  · intro s w hm; rw [hc] at hm; cases hm
  · rw [ha]; exact Nat.zero_le 1
  · intro k hk; rw [ha] at hk; cases hk
  · intro hne; exact absurd ha hne

/-- Without a temp password no answer is "the temp password". -/
theorem checkPasswordMatch_ne_temp {c : Crypto K H P} {w : P} {a : UnifiedAuthenticator K H}
    (h : a.tempPasswordHash = none) : a.checkPasswordMatch c w ≠ some true := by
  intro hm
  obtain ⟨⟨temp, ht, _⟩, _⟩ := checkPasswordMatch_temp hm
  rw [h] at ht
  cases ht

variable [DecidableEq K]

/-- **Preserved by a step of a key check.** -/
theorem owned_stepKey {c : Crypto K H P} {p : Pool K H P} {i s now : Nat}
    {wr : Option StorageError} {k : K} {pc pc' : KeyPc K} {a' : UnifiedAuthenticator K H}
    (h : Owned p) (hg : InstallsNoStaleEmptiness p (.advance i now wr) = true)
    (hi : p.calls[i]? = some (.key s k pc))
    (hs : stepKey c now wr k (p.view s) pc = some (pc', a')) :
    Owned (p.put i s a' (.key s k pc')) := by
  obtain ⟨_, _, htemp, heff⟩ := stepKey_effect hs
  have hidle : ∀ s' w, .password s' w (.settle (some true))
      ∉ (p.put i s a' (.key s k pc')).calls := by
    intro s' w hm
    rcases Pool.mem_put_calls hm with hm | hm
    · cases hm
    · exact h.idle s' w hm
  rcases heff with ⟨_, rfl, hnil, hdir, hkeys⟩ | ⟨hne, hdir, hkeys⟩
  · -- TOFU admits `k`: the list was empty, so nobody has been admitted before
    have hnone : p.admitted = [] := by
      by_contra hcon
      exact h.claimed hcon hnil
    have hadm : (p.put i s a' (.key s k (.done .tofu))).admitted = [k] := by
      simp [Pool.put, hnone]
    refine ⟨htemp.trans h.temp, hidle, ?_, ?_, ?_⟩
    · rw [hadm]; exact Nat.le_refl 1
    · intro x hx
      rw [hadm, List.mem_singleton] at hx
      show a'.dir.Holds x
      rw [hdir, hx]
      exact holds_writeAuthorizedClient _ (c.fingerprint_ne_nil k) k
    · intro _
      show a'.authorizedKeys ≠ []
      rw [hkeys]
      exact List.cons_ne_nil _ _
  · have hadm : (p.put i s a' (.key s k pc')).admitted = p.admitted := by
      cases pc' with
      | done v =>
          cases v with
          | tofu => exact absurd rfl hne
          | _ => rfl
      | _ => rfl
    refine ⟨htemp.trans h.temp, hidle, by rw [hadm]; exact h.one, ?_, ?_⟩
    · intro x hx
      rw [hadm] at hx
      show a'.dir.Holds x
      rw [hdir]
      exact h.held x hx
    · intro hcl
      rw [hadm] at hcl
      show a'.authorizedKeys ≠ []
      rcases hkeys with ⟨snapshot, rfl, hk⟩ | ⟨_, hk⟩
      · -- the list is replaced: an empty snapshot would mean an empty vault
        rw [hk]
        intro hsnap
        subst hsnap
        have hempty : p.auth.dir.keys = [] := by
          have : p.auth.dir.keys.isEmpty = true := by
            simpa [InstallsNoStaleEmptiness, hi] using hg
          exact List.isEmpty_iff.mp this
        obtain ⟨x, hx⟩ := List.exists_mem_of_ne_nil _ hcl
        have hmem := ClientsDir.mem_keys.mpr (h.held x hx)
        rw [hempty] at hmem
        cases hmem
      · rw [hk]
        exact h.claimed hcl

/-- **Preserved by a step of a password check.** -/
theorem owned_stepPassword {c : Crypto K H P} {p : Pool K H P} {i s now : Nat}
    {wr : Option StorageError} {w : P} {pc pc' : PasswordPc K} {a' : UnifiedAuthenticator K H}
    (h : Owned p) (hi : p.calls[i]? = some (.password s w pc))
    (hs : stepPassword c now wr w (p.view s) pc = some (pc', a')) :
    Owned (p.put i s a' (.password s w pc')) := by
  have hmem : Running.password s w pc ∈ p.calls := List.mem_of_getElem? hi
  obtain ⟨_, _, htemp, heff⟩ := stepPassword_effect hs
  rcases heff with ⟨_, hpc, _, _⟩ | ⟨hkeys, hdir⟩
  · rw [hpc] at hmem
    exact absurd hmem (h.idle s w)
  · refine ⟨htemp.trans h.temp, ?_, h.one, ?_, ?_⟩
    · intro s' w' hm
      rcases Pool.mem_put_calls hm with hm | hm
      · -- the answer was computed just now, and there is no temp password to match
        cases hm
        cases pc with
        | verify =>
            have hans : (p.view s).checkPasswordMatch c w = some true := by
              simpa [stepPassword] using congrArg (Option.map Prod.fst) hs
            exact checkPasswordMatch_ne_temp (a := p.view s) h.temp hans
        | lockout =>
            have := congrArg (Option.map Prod.fst) hs
            simp only [stepPassword, Option.map_some, Option.some.injEq] at this
            split at this <;> cases this
        | settle answer =>
            have := congrArg (Option.map Prod.fst) hs
            simp [stepPassword] at this
        | done v => cases hs
      · exact h.idle s' w' hm
    · intro x hx
      show a'.dir.Holds x
      rw [hdir]
      exact h.held x hx
    · intro hcl
      show a'.authorizedKeys ≠ []
      rw [hkeys]
      exact h.claimed hcl

/-- **Preserved by every event.** -/
theorem owned_step {c : Crypto K H P} {p p' : Pool K H P} {e : PoolEvent K H P} (h : Owned p)
    (hd : DeletesNothing p e = true) (hg : InstallsNoStaleEmptiness p e = true)
    (hs : p.step c e = some p') : Owned p' := by
  rcases Pool.step_cases hs with ⟨r, hr, rfl⟩ | ⟨i, now, wr, s, k, pc, pc', a', rfl, hi, hk, rfl⟩ |
    ⟨i, now, wr, s, w, pc, pc', a', rfl, hi, hk, rfl⟩ | ⟨dir, shadow, rfl, rfl⟩
  · refine ⟨h.temp, ?_, h.one, h.held, h.claimed⟩
    intro s w hm
    rcases List.mem_append.mp hm with hm | hm
    · exact h.idle s w hm
    · rw [← List.mem_singleton.mp hm] at hr
      cases hr
  · exact owned_stepKey h hg hi hk
  · exact owned_stepPassword h hi hk
  · -- another process edits the directory, but deletes nothing
    refine ⟨h.temp, h.idle, h.one, ?_, h.claimed⟩
    intro x hx
    have hmem := List.all_eq_true.mp hd x (ClientsDir.mem_keys.mpr (h.held x hx))
    exact ClientsDir.mem_keys.mp (of_decide_eq_true hmem)

/-! ## The result -/

/--
**At most one key is ever admitted**, in every run in which no record is deleted
and no check installs an empty snapshot once the vault holds a record. The key
that was admitted is on disk.
-/
theorem one_owner (c : Crypto K H P) {p p' : Pool K H P} {es : List (PoolEvent K H P)}
    (h0 : Unclaimed p)
    (hm : Exec.Meets (Pool.step c)
      (fun q e => DeletesNothing q e = true ∧ InstallsNoStaleEmptiness q e = true) p es)
    (hx : Exec.exec (Pool.step c) p es = some p') :
    p'.admitted.length ≤ 1 ∧ ∀ k ∈ p'.admitted, p'.auth.dir.Holds k := by
  have hinv : Owned p' :=
    Exec.exec_invariant (I := Owned) (fun q e q' hi hg hs => owned_step hi hg.1 hg.2 hs)
      (owned_unclaimed h0) hm hx
  exact ⟨hinv.one, hinv.held⟩

/-- A node that nobody has contacted. -/
def unclaimedPool : Pool Nat Nat Nat :=
  ⟨.new .empty .missing .tofu [] none, fun _ => none, [], []⟩

/-- Two devices, one after the other. -/
def inTurn : List (PoolEvent Nat Nat Nat) :=
  [.startKey 0 1, .startKey 1 2] ++ Pool.advances 0 (List.replicate 5 (0, none))
    ++ Pool.advances 1 (List.replicate 5 (0, none))

/-- The first device is admitted, the second is not. -/
theorem one_owner_in_turn :
    ∃ p', Exec.exec (Pool.step Crypto.clear) unclaimedPool inTurn = some p' ∧ p'.admitted = [1]
      ∧ p'.admitted.length ≤ 1 := by
  have hsome : ((Exec.exec (Pool.step Crypto.clear) unclaimedPool inTurn).map (·.admitted))
      = some [1] := by decide
  obtain ⟨p', hx, ha⟩ := Option.map_eq_some_iff.mp hsome
  exact ⟨p', hx, ha, (one_owner Crypto.clear (p := unclaimedPool) (by unfold Unclaimed; decide)
    (by decide) hx).1⟩

/-- Two devices read the empty directory; the first is admitted, and then the second installs the
emptiness it has read and is admitted as well. -/
def overlapping : List (PoolEvent Nat Nat Nat) :=
  [.startKey 0 1, .startKey 1 2] ++ Pool.advances 0 (List.replicate 3 (0, none))
    ++ Pool.advances 1 (List.replicate 3 (0, none)) ++ Pool.advances 0 (List.replicate 2 (0, none))
    ++ Pool.advances 1 (List.replicate 2 (0, none))

/-- Two owners. -/
theorem two_owners :
    Unclaimed unclaimedPool ∧
      (Exec.exec (Pool.step Crypto.clear) unclaimedPool overlapping).map
          (fun p => (p.admitted, p.auth.dir.keys, p.calls))
        = some ([1, 2], [1, 2], [.key 0 1 (.done .tofu), .key 1 2 (.done .tofu)]) := by
  unfold Unclaimed
  decide

end Irosh.Proof
