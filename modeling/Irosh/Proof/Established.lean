import Irosh.Auth.Interleaved

/-!
# Established trust, under overlap

A key whose record is on disk is meant to be accepted, whatever the other
sessions do. A single call is: it reads the directory, finds the record and
accepts. What can come between is the replacement of the shared list by *another*
call, with a snapshot from before the record was written, after this call has
installed its own and before it looks the key up again.

The proof follows the program counter of one call. `Certain` says what the call
already has in hand at each point: from the directory read on it carries the key
in its snapshot, and from the replacement on the shared list carries it.
-/

namespace Irosh.Proof

open Irosh UnifiedAuthenticator

variable {K H P : Type}

/-- The record of `k` is on disk. -/
def OnDisk [DecidableEq K] (k : K) (p : Pool K H P) : Bool := decide (k ∈ p.auth.dir.keys)

/-- The directory read of check `i` goes through. -/
def ReadsVault (i : Nat) (p : Pool K H P) : PoolEvent K H P → Bool
  | .advance j _ _ =>
      match p.calls[j]? with
      | some (.key _ _ .readVault) =>
          j != i || p.auth.dir.present && (loadAllAuthorizedClients p.auth.dir).isOk
      | _ => true
  | _ => true

/-- While check `i` is about to look up `k` for the second time, no other check installs a snapshot
without `k`. -/
def InstallsNoOlderList [DecidableEq K] (i : Nat) (k : K) (p : Pool K H P) :
    PoolEvent K H P → Bool
  | .advance j _ _ =>
      match p.calls[i]?, p.calls[j]? with
      | some (.key _ _ .final), some (.key _ _ (.replace snapshot)) => decide (k ∈ snapshot)
      | _, _ => true
  | _ => true

/-! ## What a call has in hand -/

/-- What is certain about `k` when its check stands at `pc`. -/
def Certain (k : K) (keys : List K) : KeyPc K → Prop
  | .lockout => True
  | .lookup => True
  | .readVault => True
  | .replace snapshot => k ∈ snapshot
  | .final => k ∈ keys
  | .done v => v = .rateLimited ∨ v.result = .ok true

/-- Check `i` is session `s`'s check of `k`, and stands where it can only succeed. -/
def Trusted (i s : Nat) (k : K) (p : Pool K H P) : Prop :=
  ∃ pc, p.calls[i]? = some (.key s k pc) ∧ Certain k p.auth.authorizedKeys pc

/-- A step of another check takes nothing back. -/
theorem certain_other {k : K} {keys keys' : List K} {pc : KeyPc K} (h : Certain k keys pc)
    (hk : pc = .final → k ∈ keys → k ∈ keys') : Certain k keys' pc := by
  cases pc with
  | final => exact hk rfl h
  | _ => exact h

variable [DecidableEq K]

/-- **The call's own step.** -/
theorem certain_stepKey {c : Crypto K H P} {i s now : Nat} {wr : Option StorageError} {k : K}
    {p : Pool K H P} {pc pc' : KeyPc K} {a' : UnifiedAuthenticator K H}
    (hi : p.calls[i]? = some (.key s k pc)) (hd : OnDisk k p = true)
    (hr : ReadsVault i p (.advance i now wr) = true) (h : Certain k p.auth.authorizedKeys pc)
    (hs : stepKey c now wr k (p.view s) pc = some (pc', a')) :
    Certain k a'.authorizedKeys pc' := by
  cases pc with
  | lockout =>
      cases hs
      split
      · exact .inl rfl
      · trivial
  | lookup =>
      simp only [stepKey] at hs
      split at hs
      · cases hs; exact .inr rfl
      · split at hs
        · cases hs; exact .inr rfl
        · cases hs; trivial
  | readVault =>
      -- the record is on disk, so a read that goes through brings it along
      have hread : p.auth.dir.present = true ∧ (loadAllAuthorizedClients p.auth.dir).isOk = true := by
        simpa [ReadsVault, hi] using hr
      have hholds : p.auth.dir.Holds k := ClientsDir.mem_keys.mp (of_decide_eq_true hd)
      cases hl : loadAllAuthorizedClients p.auth.dir with
      | error e => rw [hl] at hread; cases hread.2
      | ok vault =>
          have hv : (p.view s).readVault = .ok (vault.map Prod.snd) := by
            simp [readVault, Pool.view, hl]
          simp only [stepKey, hv] at hs
          cases hs
          exact mem_load_of_holds hread.1 hl hholds
  | replace snapshot =>
      cases hs
      exact h
  | final =>
      have hk : k ∈ (p.view s).authorizedKeys := h
      simp only [stepKey, finalSection, if_pos hk] at hs
      cases hs
      exact .inr rfl
  | done v => cases hs

/-- **Preserved by every event.** -/
theorem trusted_step {c : Crypto K H P} {i s : Nat} {k : K} {p p' : Pool K H P}
    {e : PoolEvent K H P} (h : Trusted i s k p) (hd : OnDisk k p = true)
    (hr : ReadsVault i p e = true) (hn : InstallsNoOlderList i k p e = true)
    (hs : p.step c e = some p') : Trusted i s k p' := by
  obtain ⟨pc, hi, hpc⟩ := h
  have hlt : i < p.calls.length := (List.getElem?_eq_some_iff.mp hi).1
  rcases Pool.step_cases hs with ⟨r, _, rfl⟩ | ⟨j, now, wr, t, x, q, q', a', rfl, hj, hk, rfl⟩ |
    ⟨j, now, wr, t, w, q, q', a', rfl, hj, hk, rfl⟩ | ⟨dir, shadow, rfl, rfl⟩
  · exact ⟨pc, by rw [List.getElem?_append_left hlt]; exact hi, hpc⟩
  · by_cases hji : j = i
    · subst hji
      rw [hi] at hj
      cases hj
      have hc := certain_stepKey hi hd hr hpc hk
      exact ⟨q', Pool.put_calls_self hi, hc⟩
    · refine ⟨pc, by rw [Pool.put_calls_ne hji]; exact hi, certain_other hpc ?_⟩
      intro hf hmem
      subst hf
      show k ∈ a'.authorizedKeys
      obtain ⟨_, _, _, heff⟩ := stepKey_effect hk
      rcases heff with ⟨_, _, hnil, _, _⟩ | ⟨_, _, ⟨snapshot, rfl, hkeys⟩ | ⟨_, hkeys⟩⟩
      · -- TOFU needs an empty list, but the list holds `k`
        have : (p.view t).authorizedKeys = p.auth.authorizedKeys := rfl
        rw [this] at hnil
        rw [hnil] at hmem
        cases hmem
      · rw [hkeys]
        simpa [InstallsNoOlderList, hi, hj] using hn
      · rw [hkeys]
        exact hmem
  · have hji : j ≠ i := by
      intro hji
      subst hji
      rw [hi] at hj
      cases hj
    refine ⟨pc, by rw [Pool.put_calls_ne hji]; exact hi, certain_other hpc ?_⟩
    intro _ hmem
    show k ∈ a'.authorizedKeys
    obtain ⟨_, _, _, heff⟩ := stepPassword_effect hk
    rcases heff with ⟨key, _, hkeys, _⟩ | ⟨hkeys, _⟩
    · rw [hkeys]
      exact List.mem_append_left _ hmem
    · rw [hkeys]
      exact hmem
  · exact ⟨pc, hi, hpc⟩

/-! ## The call comes to an end -/

/-- How many steps a check still has to take at most. -/
def remaining : KeyPc K → Nat
  | .lockout => 5
  | .lookup => 4
  | .readVault => 3
  | .replace _ => 2
  | .final => 1
  | .done _ => 0

/-- A check that is not done is never blocked, and each step brings it closer to its end. -/
theorem advance_remaining (c : Crypto K H P) {p : Pool K H P} {i s : Nat} {k : K} {pc : KeyPc K}
    (hi : p.calls[i]? = some (.key s k pc)) (hpc : ∀ v, pc ≠ .done v) (now : Nat)
    (wr : Option StorageError) :
    ∃ p' pc', p.step c (.advance i now wr) = some p' ∧ p'.calls[i]? = some (.key s k pc')
      ∧ remaining pc' < remaining pc := by
  have key : ∃ pc' a', stepKey c now wr k (p.view s) pc = some (pc', a')
      ∧ remaining pc' < remaining pc := by
    cases pc with
    | lockout =>
        refine ⟨_, _, rfl, ?_⟩
        split <;> simp [remaining]
    | lookup =>
        simp only [stepKey]
        split
        · exact ⟨_, _, rfl, by simp [remaining]⟩
        · split
          · exact ⟨_, _, rfl, by simp [remaining]⟩
          · exact ⟨_, _, rfl, by simp [remaining]⟩
    | readVault =>
        simp only [stepKey]
        split
        · exact ⟨_, _, rfl, by simp [remaining]⟩
        · exact ⟨_, _, rfl, by simp [remaining]⟩
    | replace snapshot => exact ⟨_, _, rfl, by simp [remaining]⟩
    | final => exact ⟨_, _, rfl, by simp [remaining]⟩
    | done v => exact absurd rfl (hpc v)
  obtain ⟨pc', a', hk, hrem⟩ := key
  refine ⟨p.put i s a' (.key s k pc'), pc', ?_, Pool.put_calls_self hi, hrem⟩
  simp [Pool.step, Pool.advance, hi, hk]

/-! ## The result -/

/--
**Established trust wins**, in every run in which the call's own directory read
goes through and no older list is installed under its final section.

`p` is the state in which the check of `k` has just been started. Wherever the
run has led, the check has either ended, rate limited or with `true`, or it can
take its next step and is then closer to its end.
-/
theorem established_trust_wins (c : Crypto K H P) {i s : Nat} {k : K} {p p' : Pool K H P}
    {es : List (PoolEvent K H P)} (h0 : p.calls[i]? = some (.key s k .lockout))
    (hm : Exec.Meets (Pool.step c)
      (fun q e => OnDisk k q = true ∧ ReadsVault i q e = true ∧ InstallsNoOlderList i k q e = true)
      p es)
    (hx : Exec.exec (Pool.step c) p es = some p') :
    ∃ pc, p'.calls[i]? = some (.key s k pc)
      ∧ ((∃ v, pc = .done v ∧ (v = .rateLimited ∨ v.result = .ok true))
        ∨ ∀ now wr, ∃ p₁ pc₁, p'.step c (.advance i now wr) = some p₁
            ∧ p₁.calls[i]? = some (.key s k pc₁) ∧ remaining pc₁ < remaining pc) := by
  have hinv : Trusted i s k p' :=
    Exec.exec_invariant (I := Trusted i s k)
      (fun q e q' hi hg hs => trusted_step hi hg.1 hg.2.1 hg.2.2 hs) ⟨.lockout, h0, trivial⟩ hm hx
  obtain ⟨pc, hi, hpc⟩ := hinv
  refine ⟨pc, hi, ?_⟩
  by_cases hdone : ∃ v, pc = .done v
  · obtain ⟨v, rfl⟩ := hdone
    exact .inl ⟨v, rfl, hpc⟩
  · right
    intro now wr
    exact advance_remaining c hi (fun v hv => hdone ⟨v, hv⟩) now wr

/-- A strict node whose vault holds device 1, whose list is still empty, and a check of that device. -/
def strictPool (dir : ClientsDir Nat) (calls : List (Running Nat Nat)) : Pool Nat Nat Nat :=
  ⟨.new dir .missing .strict [] none, fun _ => none, calls, []⟩

def oneRecord : ClientsDir Nat := ⟨true, true, [.file (clientKeyName ['a']) (some 1)]⟩

/-- Another device's check runs in between and reads the same directory: device 1 is accepted. -/
theorem established_trust_beside_stranger :
    let p := strictPool oneRecord [.key 0 1 .lockout, .key 1 2 .lockout]
    let es := Pool.advances 0 (List.replicate 4 (0, none))
      ++ Pool.advances 1 (List.replicate 5 (0, none)) ++ Pool.advances 0 [(0, none)]
    ∃ p', Exec.exec (Pool.step Crypto.clear) p es = some p'
      ∧ p'.calls[0]? = some (.key 0 1 (.done .refreshed))
      ∧ ∃ pc, p'.calls[0]? = some (.key 0 1 pc)
        ∧ ((∃ v, pc = .done v ∧ (v = .rateLimited ∨ v.result = .ok true))
          ∨ ∀ now wr, ∃ p₁ pc₁, p'.step Crypto.clear (.advance 0 now wr) = some p₁
              ∧ p₁.calls[0]? = some (.key 0 1 pc₁) ∧ remaining pc₁ < remaining pc) := by
  intro p es
  have hsome : ((Exec.exec (Pool.step Crypto.clear) p es).map fun q => q.calls[0]?)
      = some (some (.key 0 1 (.done .refreshed))) := by decide
  obtain ⟨p', hx, hc⟩ := Option.map_eq_some_iff.mp hsome
  exact ⟨p', hx, hc, established_trust_wins Crypto.clear (p := p) rfl (by decide) hx⟩

/-- The check of device 2 reads the directory while it is still empty; then the record of device 1 is
written and its check begins. The old emptiness is installed just before its second lookup. -/
theorem established_trust_overwritten :
    let before := [.startKey 1 2] ++ Pool.advances 0 (List.replicate 3 (0, none))
      ++ [.disk oneRecord .missing]
    let after := [.startKey 0 1] ++ Pool.advances 1 (List.replicate 4 (0, none))
      ++ Pool.advances 0 [(0, none)] ++ Pool.advances 1 [(0, none)]
    (Exec.exec (Pool.step Crypto.clear) (strictPool .empty []) before).map (·.auth.dir.keys)
        = some [1]
      ∧ (Exec.exec (Pool.step Crypto.clear) (strictPool .empty []) (before ++ after)).map
          (fun p => (p.auth.dir.keys, p.calls[1]?))
        = some ([1], some (.key 0 1 (.done .strict)))
      ∧ KeyVerdict.result .strict = .ok false := by
  decide

end Irosh.Proof
