import Irosh.Lib.Exec
import Irosh.Storage.Identity
import Irosh.Client.HostKey

/-!
# Two files that are made on first use

The node's secret and the key pinned for a server are both written by whoever finds them
missing, and both tests and writes are separate steps. Two calls, or two connections, that
find the file missing each write their own, and the second replaces what the first one
relies on.

Both are instances of `FirstWriter`: where no two find the file missing at a time, and none
finds it missing while there is a key in it, every step of either system is one of its rules.
-/

namespace Irosh

open Exec FirstWriter

/-! ## The secret -/

section

variable {K : Type}

theorem hexChar_not_whitespace {n : Nat} (h : n < 16) : isWhitespace (hexChar n) = false := by
  have hall : ∀ n, n < 16 → isWhitespace (hexChar n) = false := by decide
  exact hall n h

theorem trim_of_plain {s : List Char} (h : ∀ c ∈ s, isWhitespace c = false) : trim s = s := by
  have hdrop : ∀ t : List Char, (∀ c ∈ t, isWhitespace c = false) → t.dropWhile isWhitespace = t := by
    intro t ht
    cases t with
    | nil => rfl
    | cons c t => rw [List.dropWhile_cons_of_neg (by rw [ht c List.mem_cons_self]; decide)]
  rw [trim, hdrop s h, hdrop s.reverse fun c hc => h c (List.mem_reverse.mp hc), List.reverse_reverse]

theorem trim_hex (sk : SecretKeys K) (k : K) : trim (sk.hex k) = sk.hex k := by
  apply trim_of_plain
  intro c hc
  obtain ⟨b, -, hb⟩ := List.mem_flatMap.mp hc
  have hlt : b.toNat < 256 := b.toNat_lt
  rcases List.mem_pair.mp hb with rfl | rfl
  · exact hexChar_not_whitespace (by omega)
  · exact hexChar_not_whitespace (by omega)

/-- A key is read back from the text that is written for it. -/
def SecretKeys.ReadsHex (sk : SecretKeys K) : Prop := ∀ k, sk.fromStr (sk.hex k) = some k

theorem loadSecret_hex {sk : SecretKeys K} (h : sk.ReadsHex) (k : K) :
    loadSecret sk (.text (sk.hex k)) = .ok k := by
  rw [loadSecret, trim_hex, h k]

/-- The file, as the calls see it. -/
def SecretFile.slot (sk : SecretKeys K) (file : SecretFile) : Slot K :=
  match file with
  | .missing => .empty
  | .unreadable | .text _ =>
      match loadSecret sk file with
      | .ok k => .full k
      | .error _ => .broken

def IdentityPc.standing (pc : IdentityPc K) : FirstWriter.Stage K := if pc.firstRun then .vacant else .apart

theorem SecretFile.slot_eq_full {sk : SecretKeys K} {file : SecretFile} {k : K} :
    file.slot sk = .full k ↔ loadSecret sk file = .ok k := by
  unfold SecretFile.slot
  cases file with
  | missing => simp [loadSecret]
  | unreadable => simp [loadSecret]
  | text raw =>
      cases loadSecret sk (.text raw) with
      | ok k => simp
      | error e => simp

namespace IdentitySite

/-- Some call has returned `k`. -/
def Returned (s : IdentitySite K) (k : K) : Prop := ∃ i, s.pc i = .ended (.ok k)

/-- The calls and the file agree. -/
def Agreed (sk : SecretKeys K) (s : IdentitySite K) : Prop :=
  Safe (s.file.slot sk) (fun i => (s.pc i).standing) s.Returned

variable {sk : SecretKeys K} {s s' : IdentitySite K} {i : Nat}

theorem standing_move (s : IdentitySite K) (i : Nat) (pc : IdentityPc K) :
    (fun j => ((s.move i pc).pc j).standing)
      = Function.update (fun j => (s.pc j).standing) i pc.standing :=
  (Function.comp_update IdentityPc.standing s.pc i pc)

theorem returned_move {pc : IdentityPc K} {k : K} (h : (s.move i pc).Returned k) :
    s.Returned k ∨ pc = .ended (.ok k) := by
  obtain ⟨j, hj⟩ := h
  have hupdate : Function.update s.pc i pc j = .ended (.ok k) := hj
  by_cases hji : j = i
  · subst hji
    rw [Function.update_self] at hupdate
    exact .inr hupdate
  · rw [Function.update_of_ne hji] at hupdate
    exact .inl ⟨j, hupdate⟩

/-- A call moves on without writing, and relies on nothing new. -/
theorem Agreed.move {pc : IdentityPc K} (h : s.Agreed sk)
    (hvacant : pc.firstRun = true → (s.pc i).firstRun = true)
    (hreturn : ∀ k, pc = .ended (.ok k) → loadSecret sk s.file = .ok k) :
    (s.move i pc).Agreed sk := by
  unfold Agreed
  rw [standing_move]
  have hrelied : ∀ k, (s.move i pc).Returned k → s.file.slot sk = .full k := by
    intro k hk
    rcases returned_move hk with hold | hnew
    · exact h.relied k hold
    · exact SecretFile.slot_eq_full.mpr (hreturn k hnew)
  by_cases hp : pc.firstRun = true
  · -- it was there already
    have hsame : Function.update (fun j => (s.pc j).standing) i pc.standing
        = fun j => (s.pc j).standing := by
      have hstand : pc.standing = (s.pc i).standing := by
        rw [IdentityPc.standing, IdentityPc.standing, if_pos hp, if_pos (hvacant hp)]
      rw [hstand]
      exact Function.update_eq_self i fun j => (s.pc j).standing
    rw [hsame]
    exact ⟨h.vacant, h.alone, h.holds, hrelied⟩
  · have hstand : pc.standing = .apart := if_neg hp
    rw [hstand]
    exact ⟨(h.leave i).vacant, (h.leave i).alone, (h.leave i).holds, hrelied⟩

/-- Where a call finds nothing, there is no key to be read, and no other call that found nothing is on
its way. -/
def OneFirstRun (sk : SecretKeys K) (s : IdentitySite K) : IdentityEvent K → Prop
  | .test i failed =>
      failed ∨ s.file = .missing →
        (∀ k, loadSecret sk s.file ≠ .ok k) ∧ ∀ j, j ≠ i → (s.pc j).firstRun = false
  | _ => True

theorem moveUnless_agreed {pc : IdentityPc K} (h : s.Agreed sk) (failure : Option StorageError)
    (hvacant : pc.firstRun = true → (s.pc i).firstRun = true)
    (hreturn : ∀ k, pc = .ended (.ok k) → loadSecret sk s.file = .ok k) :
    (s.moveUnless i failure pc).Agreed sk := by
  cases failure with
  | none => exact h.move hvacant hreturn
  | some e => exact h.move (fun hp => by cases hp) fun k hk => by cases hk

theorem step_agreed (hsk : sk.ReadsHex) (e : IdentityEvent K) (h : s.Agreed sk)
    (hone : s.OneFirstRun sk e) (hs : s.step sk e = some s') : s'.Agreed sk := by
  cases e with
  | ensureKeyDir i failure =>
      simp only [step] at hs
      split at hs
      · cases hs
        exact moveUnless_agreed h failure (fun hp => by cases hp) fun k hk => by cases hk
      · cases hs
  | test i failed =>
      simp only [step] at hs
      split at hs
      · cases hs
        by_cases hm : failed ∨ s.file = .missing
        · rw [if_pos hm]
          obtain ⟨hnokey, halone⟩ := hone hm
          unfold Agreed
          rw [standing_move]
          have hvacant : ∀ j, j ≠ i → (s.pc j).standing ≠ .vacant := by
            intro j hji
            rw [IdentityPc.standing, halone j hji]
            simp
          have hlook := h.look (fun k hk => hnokey k (SecretFile.slot_eq_full.mp hk)) hvacant
          refine hlook.relies fun k hk => ?_
          rcases returned_move hk with hold | hnew
          · exact hold
          · cases hnew
        · rw [if_neg hm]
          exact h.move (fun hp => by cases hp) fun k hk => by cases hk
      · cases hs
  | read i failure =>
      simp only [step] at hs
      split at hs
      · cases hs
        refine moveUnless_agreed h failure (fun hp => by cases hp) fun k hk => ?_
        injection hk
      · cases hs
  | generate i k =>
      simp only [step] at hs
      split at hs
      · rename_i hpc
        cases hs
        exact h.move (fun _ => by rw [hpc]; rfl) fun k hk => by cases hk
      · cases hs
  | stage i failure =>
      simp only [step] at hs
      split at hs
      · rename_i hpc
        cases hs
        exact moveUnless_agreed h failure (fun _ => by rw [hpc]; rfl) fun k hk => by cases hk
      · cases hs
  | rename i failure =>
      simp only [step] at hs
      split at hs
      · rename_i k hpc
        cases hs
        have hvacant : (s.pc i).standing = .vacant := by
          rw [hpc]
          rfl
        have hslot : (SecretFile.text (sk.hex k)).slot sk = .full k :=
          SecretFile.slot_eq_full.mpr (loadSecret_hex hsk k)
        unfold Agreed
        show Safe ((SecretFile.text (sk.hex k)).slot sk)
          (fun j => ((s.move i (.ended (.ok k))).pc j).standing) (s.move i (.ended (.ok k))).Returned
        rw [standing_move, hslot]
        refine h.publish hvacant fun w hw => ?_
        rcases returned_move hw with hold | hnew
        · exact .inl hold
        · cases hnew
          exact .inr rfl
      · cases hs
        exact h.move (fun hp => by cases hp) fun k hk => by cases hk
      · cases hs
  | stop i =>
      simp only [step] at hs
      split at hs
      · cases hs
      · cases hs
        exact h.move (fun hp => by cases hp) fun k hk => by cases hk

theorem agreed_new (sk : SecretKeys K) (file : SecretFile) : (new file : IdentitySite K).Agreed sk := by
  have hrel : ∀ k, (new file : IdentitySite K).Returned k → False := by
    rintro k ⟨i, hi⟩
    cases hi
  exact (Safe.new (file.slot sk)).relies hrel

end IdentitySite

end

/-! ## The pinned key -/

section

variable {K : Type}

/-- How a connection stands to the record. -/
def ConnectPc.standing : ConnectPc K → FirstWriter.Stage K
  | .loaded none | .learning _ _ _ => .vacant
  | .loaded (some key) => .holds key
  | .idle | .found | .accepted _ | .refused | .failed _ | .dropped => .apart

namespace HostKeySite

/-- The connections and the record agree. -/
def Agreed (s : HostKeySite K) : Prop :=
  Safe s.record (fun i => (s.pc i).standing) (· ∈ s.accepted)

variable {s s' : HostKeySite K} {i : Nat} {pc : ConnectPc K} {key : K}

theorem standing_move (s : HostKeySite K) (i : Nat) (pc : ConnectPc K) :
    (fun j => ((s.move i pc).pc j).standing)
      = Function.update (fun j => (s.pc j).standing) i pc.standing :=
  Function.comp_update ConnectPc.standing s.pc i pc

/-- A connection ends its dealings with the record. -/
theorem Agreed.leave (h : s.Agreed) (i : Nat) (hpc : pc.standing = .apart) : (s.move i pc).Agreed := by
  unfold Agreed
  rw [standing_move, hpc]
  exact Safe.leave h i

/-- A connection moves on and stands where it stood. -/
theorem Agreed.stay (h : s.Agreed) (hpc : pc.standing = (s.pc i).standing) : (s.move i pc).Agreed := by
  unfold Agreed
  rw [standing_move, hpc]
  have hsame : Function.update (fun j => (s.pc j).standing) i (s.pc i).standing
      = fun j => (s.pc j).standing := Function.update_eq_self i fun j => (s.pc j).standing
  rw [hsame]
  exact h

theorem mem_accept {w : K} (h : w ∈ (s.accept i key).accepted) : w ∈ s.accepted ∨ w = key := by
  rcases List.mem_append.mp h with hold | hnew
  · exact .inl hold
  · exact .inr (List.mem_singleton.mp hnew)

/-- Where a connection finds no record, there is no key to be read and no other connection that found
none is on its way, and the record is removed only while no connection is about to compare with it. -/
def OneFirstUse (s : HostKeySite K) : HostKeyEvent K → Prop
  | .test i failed =>
      failed ∨ s.record = .empty →
        (∀ key, s.record ≠ .full key) ∧ ∀ j, j ≠ i → (s.pc j).standing ≠ .vacant
  | .resetKnownServer _ => ∀ j key, s.pc j ≠ .loaded (some key)
  | _ => True

variable [DecidableEq K]

theorem checkServerKey_tofu_accepted {known : Option K}
    (h : checkServerKey .tofu known key = .accepted) : known = some key := by
  unfold checkServerKey at h
  cases known with
  | none => simp at h
  | some k =>
      by_cases hk : key = k
      · rw [hk]
      · simp [hk] at h

theorem checkServerKey_tofu_learn {known : Option K}
    (h : checkServerKey .tofu known key = .learn) : known = none := by
  unfold checkServerKey at h
  cases known with
  | none => rfl
  | some k =>
      by_cases hk : key = k
      · simp [hk] at h
      · simp [hk] at h

theorem step_agreed (e : HostKeyEvent K) (h : s.Agreed) (hone : s.OneFirstUse e)
    (hs : s.step .tofu e = some s') : s'.Agreed := by
  cases e with
  | test i failed =>
      simp only [step] at hs
      split at hs
      · rw [if_neg (by decide)] at hs
        by_cases hnone : failed ∨ s.record = .empty
        · rw [if_pos hnone] at hs
          cases hs
          obtain ⟨hnokey, halone⟩ := hone hnone
          unfold Agreed
          rw [standing_move]
          exact Safe.look h hnokey halone
        · rw [if_neg hnone] at hs
          cases hs
          exact h.leave i rfl
      · cases hs
  | read i failure =>
      simp only [step] at hs
      split at hs
      · cases hs
        unfold readRecord
        split
        · rename_i key hfull
          unfold Agreed
          rw [standing_move]
          exact Safe.read h i hfull
        · exact h.leave i rfl
        · exact h.leave i rfl
      · cases hs
        exact h.leave i rfl
      · cases hs
  | check i key =>
      simp only [step] at hs
      split at hs
      · rename_i known hpc
        split at hs
        · rename_i hverdict
          cases hs
          -- it shows the key that is held, and the record with it
          have hknown := checkServerKey_tofu_accepted hverdict
          have hholds : (s.pc i).standing = .holds key := by
            rw [hpc, hknown]
            rfl
          have hrely := Safe.rely h hholds fun w => mem_accept (s := s) (i := i)
          unfold Agreed
          show Safe s.record (fun j => ((s.move i (.accepted key)).pc j).standing)
            (· ∈ (s.accept i key).accepted)
          rw [standing_move]
          exact hrely.leave i
        · cases hs
          exact h.leave i rfl
        · cases hs
          exact h.leave i rfl
        · rename_i hverdict
          cases hs
          have hknown := checkServerKey_tofu_learn hverdict
          refine h.stay ?_
          rw [hpc, hknown]
          rfl
      · cases hs
  | stage i failure =>
      simp only [step] at hs
      split at hs
      · rename_i key waiting hpc
        cases hs
        refine h.stay ?_
        rw [hpc]
        rfl
      · cases hs
        exact h.leave i rfl
      · cases hs
  | rename i failure =>
      simp only [step] at hs
      split at hs
      · rename_i key hpc
        cases hs
        have hvacant : (s.pc i).standing = .vacant := by
          rw [hpc]
          rfl
        unfold Agreed
        show Safe (.full key) (fun j => ((s.move i (.accepted key)).pc j).standing)
          (· ∈ (s.accept i key).accepted)
        rw [standing_move]
        exact Safe.publish h hvacant fun w => mem_accept (s := s) (i := i)
      · rename_i key hpc
        cases hs
        have hvacant : (s.pc i).standing = .vacant := by
          rw [hpc]
          rfl
        unfold Agreed
        show Safe (.full key) (fun j => ((s.move i .dropped).pc j).standing) (· ∈ s.accepted)
        rw [standing_move]
        exact Safe.publish h hvacant fun w hw => .inl hw
      · cases hs
        exact h.leave i rfl
      · cases hs
  | giveUp i =>
      simp only [step] at hs
      split at hs
      · cases hs
        exact h.leave i rfl
      · cases hs
        exact h.leave i rfl
      · cases hs
        exact h.leave i rfl
      · rename_i key staged hpc
        cases hs
        refine h.stay ?_
        rw [hpc]
        rfl
      · cases hs
  | resetKnownServer failure =>
      simp only [step] at hs
      split at hs
      · cases hs
        exact h
      · split at hs
        · cases hs
          exact h
        · cases hs
          have hnone : ∀ j w, (s.pc j).standing ≠ .holds w := by
            intro j w hj
            have hloaded := hone j w
            revert hj hloaded
            cases s.pc j with
            | loaded known =>
                cases known with
                | none => intro hj; cases hj
                | some k =>
                    intro hj hloaded
                    cases hj
                    exact hloaded rfl
            | idle | found | learning | accepted | refused | failed | dropped => intro hj; cases hj
          exact (Safe.clear h hnone).relies fun w hw => absurd hw List.not_mem_nil

omit [DecidableEq K] in
theorem agreed_new (record : Slot K) : (new record).Agreed :=
  (Safe.new record).relies fun _ hw => absurd hw List.not_mem_nil

end HostKeySite

end

/-- Two keys, for concrete runs. -/
def SecretKeys.two : SecretKeys Bool where
  toBytes k := if k then [1] else [0]
  fromStr text := if text = ['0', '0'] then some false else if text = ['0', '1'] then some true else none

theorem SecretKeys.two_readsHex : SecretKeys.two.ReadsHex
  | true => rfl
  | false => rfl

namespace Proof

/-- All calls that succeed return the key in the file, unless one of them found nothing while there was
a key or while another one was on its way that had found nothing. -/
theorem one_identity {K : Type} {sk : SecretKeys K} (hsk : sk.ReadsHex) (file : SecretFile)
    (events : List (IdentityEvent K)) (s : IdentitySite K)
    (hone : Meets (IdentitySite.step sk) (IdentitySite.OneFirstRun sk) (.new file) events)
    (hx : exec (IdentitySite.step sk) (.new file) events = some s) :
    (∀ k k', s.Returned k → s.Returned k' → k = k')
      ∧ ∀ k, s.Returned k → loadSecret sk s.file = .ok k := by
  have hagreed : s.Agreed sk :=
    exec_invariant (fun s e s' hi hg hs => IdentitySite.step_agreed hsk e hi hg hs)
      (IdentitySite.agreed_new sk file) hone hx
  refine ⟨fun k k' hk hk' => hagreed.agree hk hk', fun k hk => ?_⟩
  exact SecretFile.slot_eq_full.mp (hagreed.relied k hk)

/-- A first run makes a key, and the next one reads it. -/
theorem one_identity_second_reads :
    ∃ s, exec (IdentitySite.step SecretKeys.two) (.new .missing)
        [.ensureKeyDir 0 none, .test 0 false, .ensureKeyDir 1 none, .generate 0 true, .stage 0 none,
          .rename 0 none, .test 1 false, .read 1 none] = some s
      ∧ s.pc 0 = .ended (.ok true) ∧ s.pc 1 = .ended (.ok true)
      ∧ loadSecret SecretKeys.two s.file = .ok true := by
  refine ⟨_, rfl, rfl, rfl, ?_⟩
  refine (one_identity SecretKeys.two_readsHex .missing
    [.ensureKeyDir 0 none, .test 0 false, .ensureKeyDir 1 none, .generate 0 true, .stage 0 none,
      .rename 0 none, .test 1 false, .read 1 none] _ ?_ rfl).2 true ⟨0, rfl⟩
  refine ⟨trivial, ?_⟩
  rintro s₁ ⟨⟩
  refine ⟨fun _ => ⟨?_, ?_⟩, ?_⟩
  · intro k hk
    cases hk
  · intro j hj
    show (Function.update (fun _ => IdentityPc.idle) 0 _ j).firstRun = false
    rw [Function.update_of_ne hj]
    rfl
  rintro s₂ ⟨⟩
  refine ⟨trivial, ?_⟩
  rintro s₃ ⟨⟩
  refine ⟨trivial, ?_⟩
  rintro s₄ ⟨⟩
  refine ⟨trivial, ?_⟩
  rintro s₅ ⟨⟩
  refine ⟨trivial, ?_⟩
  rintro s₆ ⟨⟩
  refine ⟨?_, ?_⟩
  · rintro (hfailed | hmissing)
    · cases hfailed
    · cases hmissing
  rintro s₇ ⟨⟩
  exact ⟨trivial, fun _ _ => trivial⟩

/-- Two first runs at a time: each returns the key it made up. Or a call that cannot examine the file,
while the key of the one before is in it. -/
theorem two_identities :
    (∃ s, exec (IdentitySite.step SecretKeys.two) (.new .missing)
        [.ensureKeyDir 0 none, .ensureKeyDir 1 none, .test 0 false, .test 1 false, .generate 0 false,
          .generate 1 true, .stage 0 none, .rename 0 none, .stage 1 none, .rename 1 none] = some s
      ∧ s.Returned false ∧ s.Returned true ∧ loadSecret SecretKeys.two s.file = .ok true)
    ∧ ∃ s, exec (IdentitySite.step SecretKeys.two) (.new .missing)
        [.ensureKeyDir 0 none, .test 0 false, .generate 0 false, .stage 0 none, .rename 0 none,
          .ensureKeyDir 1 none, .test 1 true, .generate 1 true, .stage 1 none, .rename 1 none] = some s
      ∧ s.Returned false ∧ s.Returned true ∧ loadSecret SecretKeys.two s.file = .ok true :=
  ⟨⟨_, rfl, ⟨0, rfl⟩, ⟨1, rfl⟩, rfl⟩, _, rfl, ⟨0, rfl⟩, ⟨1, rfl⟩, rfl⟩

/-- Since the record was last removed all connections have been accepted with the key in it, unless one
found none while there was a key or while another one was on its way that had found none. -/
theorem host_key_pinned {K : Type} [DecidableEq K] (record : Slot K) (events : List (HostKeyEvent K))
    (s : HostKeySite K)
    (hone : Meets (HostKeySite.step .tofu) HostKeySite.OneFirstUse (.new record) events)
    (hx : exec (HostKeySite.step .tofu) (.new record) events = some s) :
    (∀ key ∈ s.accepted, ∀ key' ∈ s.accepted, key = key')
      ∧ ∀ key ∈ s.accepted, s.record = .full key := by
  have hagreed : s.Agreed :=
    exec_invariant (fun s e s' hi hg hs => HostKeySite.step_agreed e hi hg hs)
      (HostKeySite.agreed_new record) hone hx
  exact ⟨fun key hk key' hk' => hagreed.agree hk hk', fun key hk => hagreed.relied key hk⟩

/-- The first connection pins `1`, and the next one is not let through with `2`. -/
theorem host_key_pinned_second_refused :
    ∃ s : HostKeySite Nat, exec (HostKeySite.step .tofu) (.new .empty)
        [.test 0 false, .check 0 1, .stage 0 none, .rename 0 none, .test 1 false, .read 1 none,
          .check 1 2] = some s
      ∧ s.accepted = [1] ∧ s.pc 1 = .refused ∧ s.record = .full 1 := by
  refine ⟨_, rfl, rfl, rfl, ?_⟩
  refine (host_key_pinned .empty
    [.test 0 false, .check 0 1, .stage 0 none, .rename 0 none, .test 1 false, .read 1 none,
      .check 1 2] _ ?_ rfl).2 1 (List.mem_singleton.mpr rfl)
  refine ⟨fun _ => ⟨?_, ?_⟩, ?_⟩
  · intro key hkey
    cases hkey
  · intro j _ hj
    cases hj
  rintro s₁ ⟨⟩
  refine ⟨trivial, ?_⟩
  rintro s₂ ⟨⟩
  refine ⟨trivial, ?_⟩
  rintro s₃ ⟨⟩
  refine ⟨trivial, ?_⟩
  rintro s₄ ⟨⟩
  refine ⟨?_, ?_⟩
  · rintro (hfailed | hempty)
    · cases hfailed
    · cases hempty
  rintro s₅ ⟨⟩
  refine ⟨trivial, ?_⟩
  rintro s₆ ⟨⟩
  exact ⟨trivial, fun _ _ => trivial⟩

/-- Two connections that start before either has pinned a key are both accepted, with different keys. So
is one that cannot examine the record that the one before has pinned. -/
theorem host_key_replaced :
    (∃ s : HostKeySite Nat, exec (HostKeySite.step .tofu) (.new .empty)
        [.test 0 false, .test 1 false, .check 0 1, .stage 0 none, .rename 0 none, .check 1 2,
          .stage 1 none, .rename 1 none] = some s
      ∧ s.accepted = [1, 2] ∧ s.record = .full 2)
    ∧ ∃ s : HostKeySite Nat, exec (HostKeySite.step .tofu) (.new .empty)
        [.test 0 false, .check 0 1, .stage 0 none, .rename 0 none, .test 1 true, .check 1 2,
          .stage 1 none, .rename 1 none] = some s
      ∧ s.accepted = [1, 2] ∧ s.record = .full 2 :=
  ⟨⟨_, rfl, rfl, rfl⟩, _, rfl, rfl, rfl⟩

end Proof

end Irosh
