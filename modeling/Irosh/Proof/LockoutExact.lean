import Mathlib.Data.List.Induction
import Irosh.Auth.Window

/-!
# What a counter and a timestamp know of a window

The limiter is documented as a window: three failures within sixty seconds. What it keeps
is a counter that only a success or an expired lockout zeroes. Three failures are always
enough, but they need not be close to each other. Failures come in groups of three: the
third locks, and after it nothing is recorded until the window has passed and the counter
starts again. So an attempt is rejected exactly if the last group is complete and its last
failure is recent; whether the group fits into a window is nobody's concern.
-/

namespace Irosh

open UnifiedAuthenticator Exec

/-! ## The counter and the timestamp -/

/-- What the limiter keeps. -/
structure Gauge where
  count : Nat
  last : Option Nat

namespace Gauge

/-- An attempt at `t` is rejected. -/
def Locked (g : Gauge) (t : Nat) : Prop :=
  3 ≤ g.count ∧ ∀ last, g.last = some last → t - last ≤ lockoutWindow

/-- An attempt that is not rejected zeroes a full counter. -/
def decay (g : Gauge) : Gauge := if 3 ≤ g.count then { g with count := 0 } else g

/-- What the rest of the call does. -/
def put (g : Gauge) (now : Nat) : Option Mark → Gauge
  | some .failed => ⟨g.count + 1, some now⟩
  | some .reset => { g with count := 0 }
  | some .passed => g
  | none => g

variable {g : Gauge} {t last : Nat}

theorem not_locked_of_lt (h : g.count < 3) : ¬ g.Locked t := fun hl => absurd hl.1 (Nat.not_le_of_lt h)

theorem decay_of_lt (h : g.count < 3) : g.decay = g := by rw [decay, if_neg (Nat.not_le_of_lt h)]

theorem decay_of_full (h : 3 ≤ g.count) : g.decay = ⟨0, g.last⟩ := by rw [decay, if_pos h]

theorem locked_of_none (h : 3 ≤ g.count) (hl : g.last = none) : g.Locked t := by
  refine ⟨h, fun last hlast => ?_⟩
  rw [hl] at hlast
  cases hlast

theorem locked_of_recent (h : 3 ≤ g.count) (hl : g.last = some last) (hw : t - last ≤ lockoutWindow) :
    g.Locked t := by
  refine ⟨h, fun last' hlast => ?_⟩
  rw [hl] at hlast
  cases hlast
  exact hw

theorem not_locked_of_passed (hl : g.last = some last) (hw : lockoutWindow < t - last) :
    ¬ g.Locked t := fun h => absurd (h.2 last hl) (Nat.not_le_of_lt hw)

end Gauge

/-- A call on a limiter: it is rejected, or it decays the counter and leaves its mark. -/
def Calls (g g' : Gauge) (test now : Nat) (rateLimited : Prop) (mark : Option Mark) : Prop :=
  (rateLimited ∧ g.Locked test ∧ g' = g ∧ mark = none)
    ∨ (¬ rateLimited ∧ ¬ g.Locked test ∧ g' = g.decay.put now mark)

theorem calls_rejected {g : Gauge} {test now : Nat} {rateLimited : Prop} {mark : Option Mark}
    (hr : rateLimited) (hg : g.Locked test) (hm : mark = none) :
    Calls g g test now rateLimited mark := .inl ⟨hr, hg, rfl, hm⟩

theorem calls_open {g b g' : Gauge} {test now : Nat} {rateLimited : Prop} {mark : Option Mark}
    (hg : ¬ g.Locked test) (hb : b = g.decay) (hr : ¬ rateLimited) (h : g' = b.put now mark) :
    Calls g g' test now rateLimited mark := .inr ⟨hr, hg, hb ▸ h⟩

/-! ## Both authenticators -/

section

variable {K H P : Type}

def UnifiedAuthenticator.gauge (a : UnifiedAuthenticator K H) : Gauge := ⟨a.failedAttempts, a.lastFailure⟩

def PasswordAuth.gauge (a : PasswordAuth H) : Gauge := ⟨a.failedAttempts, a.lastFailure⟩

/-- The lockout test, of whatever carries the counter and the timestamp. -/
theorem lockTest_gauge {σ : Type} (gauge : σ → Gauge) (test : Nat) (a zeroed : σ)
    (hzeroed : gauge zeroed = ⟨0, (gauge a).last⟩) (r : Bool × σ)
    (hr : r = if (gauge a).count < 3 then (false, a) else
      match (gauge a).last with
      | none => (true, a)
      | some last => if test - last > lockoutWindow then (false, zeroed) else (true, a)) :
    (r = (true, a) ∧ (gauge a).Locked test)
      ∨ ∃ b, r = (false, b) ∧ ¬ (gauge a).Locked test ∧ gauge b = (gauge a).decay := by
  subst hr
  by_cases hc : (gauge a).count < 3
  · rw [if_pos hc]
    exact .inr ⟨a, rfl, Gauge.not_locked_of_lt hc, (Gauge.decay_of_lt hc).symm⟩
  · rw [if_neg hc]
    have hfull : 3 ≤ (gauge a).count := Nat.le_of_not_lt hc
    cases hl : (gauge a).last with
    | none => exact .inl ⟨rfl, Gauge.locked_of_none hfull hl⟩
    | some last =>
        dsimp only
        by_cases hw : test - last > lockoutWindow
        · rw [if_pos hw]
          refine .inr ⟨zeroed, rfl, Gauge.not_locked_of_passed hl hw, ?_⟩
          rw [Gauge.decay_of_full hfull, hzeroed]
        · rw [if_neg hw]
          exact .inl ⟨rfl, Gauge.locked_of_recent hfull hl (Nat.le_of_not_lt hw)⟩

theorem isLockedOut_gauge (test : Nat) (a : UnifiedAuthenticator K H) :
    (a.isLockedOut test = (true, a) ∧ a.gauge.Locked test)
      ∨ ∃ b, a.isLockedOut test = (false, b) ∧ ¬ a.gauge.Locked test ∧ b.gauge = a.gauge.decay :=
  lockTest_gauge UnifiedAuthenticator.gauge test a { a with failedAttempts := 0 } rfl _ rfl

theorem simple_isLockedOut_gauge (test : Nat) (a : PasswordAuth H) :
    (a.isLockedOut test = (true, a) ∧ a.gauge.Locked test)
      ∨ ∃ b, a.isLockedOut test = (false, b) ∧ ¬ a.gauge.Locked test ∧ b.gauge = a.gauge.decay :=
  lockTest_gauge PasswordAuth.gauge test a { a with failedAttempts := 0 } rfl _ rfl

theorem refreshKeys_gauge (a : UnifiedAuthenticator K H) : a.refreshKeys.gauge = a.gauge := by
  rw [refreshKeys_eq]
  rfl

variable [DecidableEq K]

theorem finalSection_gauge (c : Crypto K H P) (now : Nat) (wr : Option StorageError) (key : K)
    (a : UnifiedAuthenticator K H) :
    (finalSection c now wr key a).1 ≠ .rateLimited
      ∧ (finalSection c now wr key a).2.gauge = a.gauge.put now (finalSection c now wr key a).1.mark := by
  unfold finalSection
  split
  · exact ⟨by simp, rfl⟩
  split
  · exact ⟨by simp, rfl⟩
  split
  · exact ⟨by simp, rfl⟩
  split
  · cases wr with
    | none => exact ⟨by simp, rfl⟩
    | some e => exact ⟨by simp, rfl⟩
  · exact ⟨by simp, rfl⟩

theorem checkPublicKey_calls (c : Crypto K H P) (test now : Nat) (wr : Option StorageError) (key : K)
    (a : UnifiedAuthenticator K H) :
    Calls a.gauge (checkPublicKey c test now wr key a).2.gauge test now
      ((checkPublicKey c test now wr key a).1 = .rateLimited)
      (checkPublicKey c test now wr key a).1.mark := by
  unfold checkPublicKey
  rcases isLockedOut_gauge test a with ⟨hlocked, hg⟩ | ⟨b, hfree, hg, hdecay⟩
  · rw [hlocked]
    exact calls_rejected rfl hg rfl
  · rw [hfree]
    dsimp only
    rw [if_neg Bool.false_ne_true]
    by_cases hall : b.policy = .acceptAll
    · rw [if_pos hall]
      exact calls_open hg hdecay (by simp) rfl
    rw [if_neg hall]
    by_cases hknown : key ∈ b.authorizedKeys
    · rw [if_pos hknown]
      exact calls_open hg hdecay (by simp) rfl
    · rw [if_neg hknown]
      obtain ⟨hverdict, hgauge⟩ := finalSection_gauge c now wr key b.refreshKeys
      rw [refreshKeys_gauge] at hgauge
      exact calls_open hg hdecay hverdict hgauge

theorem settlePassword_gauge (c : Crypto K H P) (now : Nat) (wr : Option StorageError)
    (answer : Option Bool) (a : UnifiedAuthenticator K H) :
    (settlePassword c now wr answer a).1 ≠ .rateLimited
      ∧ (settlePassword c now wr answer a).2.gauge
        = a.gauge.put now (settlePassword c now wr answer a).1.mark := by
  rcases answer with _ | _ | _
  · exact ⟨by simp [settlePassword], rfl⟩
  · exact ⟨by simp [settlePassword], rfl⟩
  · unfold settlePassword
    dsimp only
    split
    · exact ⟨by simp, rfl⟩
    split
    · exact ⟨by simp, rfl⟩
    · cases wr with
      | none => exact ⟨by simp, rfl⟩
      | some e => exact ⟨by simp, rfl⟩

theorem checkPassword_calls (c : Crypto K H P) (test now : Nat) (wr : Option StorageError)
    (password : P) (a : UnifiedAuthenticator K H) :
    Calls a.gauge (checkPassword c test now wr password a).2.gauge test now
      ((checkPassword c test now wr password a).1 = .rateLimited)
      (checkPassword c test now wr password a).1.mark := by
  unfold checkPassword
  rcases isLockedOut_gauge test a with ⟨hlocked, hg⟩ | ⟨b, hfree, hg, hdecay⟩
  · rw [hlocked]
    exact calls_rejected rfl hg rfl
  · rw [hfree]
    obtain ⟨hverdict, hgauge⟩ := settlePassword_gauge c now wr (b.checkPasswordMatch c password) b
    exact calls_open hg hdecay hverdict hgauge

omit [DecidableEq K] in
theorem simple_calls (verify : P → H → Verified) (test now : Nat) (password : P) (a : PasswordAuth H) :
    Calls a.gauge (PasswordAuth.checkPassword verify test now password a).2.gauge test now
      ((PasswordAuth.checkPassword verify test now password a).1 = .rateLimited)
      (PasswordAuth.checkPassword verify test now password a).1.mark := by
  unfold PasswordAuth.checkPassword
  rcases simple_isLockedOut_gauge test a with ⟨hlocked, hg⟩ | ⟨b, hfree, hg, hdecay⟩
  · rw [hlocked]
    exact calls_rejected rfl hg rfl
  · rw [hfree]
    dsimp only
    rw [if_neg Bool.false_ne_true]
    cases verify password b.passwordHash with
    | correct => exact calls_open hg hdecay (by simp) rfl
    | invalid => exact calls_open hg hdecay (by simp) rfl
    | broken => exact calls_open hg hdecay (by simp) rfl

end

/-! ## Histories -/

namespace History

variable {h : History} {t : Nat}

/-- One more entry, or none. -/
def add (h : History) (now : Nat) (mark : Option Mark) : History :=
  h ++ (mark.map fun m => (now, m)).toList

theorem sinceReset_snoc (entry : Nat × Mark) :
    sinceReset (h ++ [entry]) = match entry.2 with
      | .failed => h.sinceReset ++ [entry.1]
      | .reset => []
      | .passed => h.sinceReset := by
  rw [sinceReset, List.foldl_append]
  rfl

theorem sinceSuccess_snoc (entry : Nat × Mark) :
    sinceSuccess (h ++ [entry]) = match entry.2 with
      | .failed => h.sinceSuccess ++ [entry.1]
      | .reset | .passed => [] := by
  rw [sinceSuccess, List.foldl_append]
  rfl

/-- The failures since the last success come last among those since the last reset. -/
theorem sinceSuccess_suffix (h : History) : h.sinceSuccess <:+ h.sinceReset := by
  induction h using List.reverseRecOn with
  | nil => exact List.suffix_rfl
  | append_singleton h entry ih =>
      rw [sinceReset_snoc, sinceSuccess_snoc]
      cases entry.2 with
      | failed =>
          obtain ⟨rest, hrest⟩ := ih
          exact ⟨rest, by rw [← List.append_assoc, hrest]⟩
      | reset => exact List.suffix_rfl
      | passed => exact List.nil_suffix

end History

/-- **What the limiter knows of the history.** Failures come in groups of three, and between two
groups the window has passed. -/
structure GaugeFits (g : Gauge) (h : History) (clock : Nat) : Prop where
  past : ∀ f ∈ h.sinceReset, f ≤ clock
  ordered : h.sinceReset.Pairwise (· ≤ ·)
  last : ∀ f, h.sinceReset.getLast? = some f → g.last = some f
  count : g.count = h.sinceReset.length % 3
    ∨ g.count = 3 ∧ h.sinceReset ≠ [] ∧ 3 ∣ h.sinceReset.length
  /-- A full group has been forgotten only after the window. -/
  decayed : g.count = 0 → 3 ∣ h.sinceReset.length →
    ∀ f, h.sinceReset.getLast? = some f → f + lockoutWindow < clock
  gaps : ∀ i a b, 3 ∣ i + 1 → h.sinceReset[i]? = some a → h.sinceReset[i + 1]? = some b →
    a + lockoutWindow < b

namespace GaugeFits

variable {g g' : Gauge} {h : History} {clock test now : Nat}

theorem new : GaugeFits ⟨0, none⟩ [] clock where
  past := fun _ hf => absurd hf List.not_mem_nil
  ordered := List.Pairwise.nil
  last := fun _ hf => by cases hf
  count := .inl rfl
  decayed := fun _ _ _ hf => by cases hf
  gaps := fun _ _ _ _ ha => by cases ha

theorem later (hf : GaugeFits g h clock) (hle : clock ≤ now) : GaugeFits g h now where
  past := fun f hmem => Nat.le_trans (hf.past f hmem) hle
  ordered := hf.ordered
  last := hf.last
  count := hf.count
  decayed := fun hc hd f hlast => Nat.lt_of_lt_of_le (hf.decayed hc hd f hlast) hle
  gaps := hf.gaps

/-- The lockout test, passed. -/
theorem decay (hf : GaugeFits g h clock) (hle : clock ≤ test) (hfree : ¬ g.Locked test) :
    GaugeFits g.decay h test ∧ g.decay.count = h.sinceReset.length % 3 := by
  have hlater := hf.later hle
  rcases hf.count with hcount | ⟨hcount, hne, hdvd⟩
  · have hlt : g.count < 3 := by
      rw [hcount]
      exact Nat.mod_lt _ (by decide)
    rw [Gauge.decay_of_lt hlt]
    exact ⟨hlater, hcount⟩
  · have hfull : 3 ≤ g.count := by omega
    rw [Gauge.decay_of_full hfull]
    have hzero : h.sinceReset.length % 3 = 0 := Nat.mod_eq_zero_of_dvd hdvd
    refine ⟨⟨hlater.past, hlater.ordered, hlater.last, .inl hzero.symm, ?_, hlater.gaps⟩, hzero.symm⟩
    -- the window has passed since the last failure, or the attempt would have been rejected
    intro _ _ f hlast
    by_contra hrecent
    refine hfree (Gauge.locked_of_recent hfull (hf.last f hlast) ?_)
    omega

/-- **A call keeps it.** -/
theorem call {rateLimited : Prop} {mark : Option Mark} (hf : GaugeFits g h clock) (hle : clock ≤ test)
    (hnow : test ≤ now) (hcall : Calls g g' test now rateLimited mark) :
    GaugeFits g' (h.add now mark) now := by
  rcases hcall with ⟨-, -, hg, hmark⟩ | ⟨-, hfree, hg⟩
  · subst hg hmark
    rw [History.add, Option.map_none, Option.toList_none, List.append_nil]
    exact hf.later (Nat.le_trans hle hnow)
  obtain ⟨hd, hcount⟩ := hf.decay hle hfree
  have hd' := hd.later hnow
  subst hg
  rcases mark with _ | _ | _ | _
  · rw [History.add, Option.map_none, Option.toList_none, List.append_nil]
    exact hd'
  · -- one more failure
    have hsnoc : (h.add now (some .failed)).sinceReset = h.sinceReset ++ [now] :=
      History.sinceReset_snoc (now, .failed)
    refine ⟨?_, ?_, ?_, ?_, ?_, ?_⟩
    · intro f hmem
      rw [hsnoc, List.mem_append, List.mem_singleton] at hmem
      rcases hmem with hold | hnew
      · exact hd'.past f hold
      · exact Nat.le_of_eq hnew
    · rw [hsnoc, List.pairwise_append]
      refine ⟨hd.ordered, List.pairwise_singleton _ _, ?_⟩
      intro a ha b hb
      rw [List.mem_singleton.mp hb]
      exact hd'.past a ha
    · intro f hlast
      rw [hsnoc, List.getLast?_concat] at hlast
      exact hlast
    · rw [hsnoc, List.length_append, List.length_singleton]
      show g.decay.count + 1 = _ ∨ g.decay.count + 1 = 3 ∧ _
      rw [hcount]
      rcases Nat.lt_or_ge (h.sinceReset.length % 3) 2 with hlt | hge
      · exact .inl (by omega)
      · exact .inr ⟨by omega, by simp, by omega⟩
    · intro hzero
      exact absurd hzero (Nat.succ_ne_zero _)
    · intro i a b hi ha hb
      rw [hsnoc] at ha hb
      rcases Nat.lt_or_ge (i + 1) h.sinceReset.length with hlt | hge
      · rw [List.getElem?_append_left (by omega)] at ha
        rw [List.getElem?_append_left hlt] at hb
        exact hd.gaps i a b hi ha hb
      · -- the first of a new group
        have hlen : i + 1 = h.sinceReset.length := by
          obtain ⟨hbound, -⟩ := List.getElem?_eq_some_iff.mp hb
          rw [List.length_append, List.length_singleton] at hbound
          omega
        rw [List.getElem?_append_right hge, hlen, Nat.sub_self] at hb
        cases hb
        rw [List.getElem?_append_left (by omega)] at ha
        have hlast : h.sinceReset.getLast? = some a := by
          rw [List.getLast?_eq_getElem?, ← hlen]
          exact ha
        have hdvd : 3 ∣ h.sinceReset.length := hlen ▸ hi
        have hzero : g.decay.count = 0 := hcount.trans (Nat.mod_eq_zero_of_dvd hdvd)
        exact Nat.lt_of_lt_of_le (hd.decayed hzero hdvd a hlast) hnow
  · have hsnoc : (h.add now (some .reset)).sinceReset = [] := History.sinceReset_snoc (now, .reset)
    refine ⟨?_, ?_, ?_, .inl ?_, ?_, ?_⟩
    · rw [hsnoc]
      exact fun _ hmem => absurd hmem List.not_mem_nil
    · rw [hsnoc]
      exact List.Pairwise.nil
    · rw [hsnoc]
      exact fun _ hlast => by cases hlast
    · rw [hsnoc]
      rfl
    · rw [hsnoc]
      exact fun _ _ _ hlast => by cases hlast
    · rw [hsnoc]
      exact fun _ _ _ _ ha => by cases ha
  · have hsnoc : (h.add now (some .passed)).sinceReset = h.sinceReset :=
      History.sinceReset_snoc (now, .passed)
    exact ⟨hsnoc ▸ hd'.past, hsnoc ▸ hd'.ordered, hsnoc ▸ hd'.last, hsnoc ▸ hd'.count,
      hsnoc ▸ hd'.decayed, hsnoc ▸ hd'.gaps⟩

end GaugeFits

/-! ## Three failures close to each other -/

namespace History

variable {h : History} {t : Nat}

/-- Three failures within the window before `t`, and no success after the first of them. -/
def ThreeBefore (h : History) (t : Nat) : Prop :=
  ∃ a b c, [a, b, c].Sublist h.sinceSuccess ∧ t ≤ a + lockoutWindow

/-- Since the last success, some three failures fell within one window. -/
def ThreeWithin (h : History) : Prop :=
  ∃ a b c, [a, b, c].Sublist h.sinceSuccess ∧ c ≤ a + lockoutWindow

/-- The last failure since the last success is recent. -/
def LastRecent (h : History) (t : Nat) : Prop :=
  ∃ f, h.sinceSuccess.getLast? = some f ∧ t ≤ f + lockoutWindow

/-- The last group of three is complete and its last failure is recent. -/
def GroupFull (h : History) (t : Nat) : Prop :=
  3 ∣ h.sinceReset.length ∧ ∃ f, h.sinceReset.getLast? = some f ∧ t ≤ f + lockoutWindow

/-- The group is complete although its failures lie far apart, or before a success. -/
def Spread (h : History) (t : Nat) : Prop := h.GroupFull t ∧ ¬ h.ThreeWithin

/-- The first of three failures has two after it. -/
theorem index_of_sublist {a b c : Nat} {times : List Nat} (hsub : [a, b, c].Sublist times) :
    ∃ i, times[i]? = some a ∧ i + 2 < times.length := by
  induction times with
  | nil => cases hsub
  | cons x times ih =>
      cases hsub with
      | cons _ htail =>
          obtain ⟨i, hi, hlen⟩ := ih htail
          exact ⟨i + 1, by rw [List.getElem?_cons_succ, hi], by rw [List.length_cons]; omega⟩
      | cons_cons _ htail =>
          have hlen : 2 ≤ times.length := htail.length_le
          exact ⟨0, rfl, by rw [List.length_cons]; omega⟩

end History

namespace GaugeFits

variable {g : Gauge} {h : History} {clock t : Nat}

/-- The limiter rejects exactly on a full group. -/
theorem locked_iff (hf : GaugeFits g h clock) (hle : clock ≤ t) : g.Locked t ↔ h.GroupFull t := by
  constructor
  · rintro ⟨hfull, hrecent⟩
    rcases hf.count with hcount | ⟨-, hne, hdvd⟩
    · have hlt : h.sinceReset.length % 3 < 3 := Nat.mod_lt _ (by decide)
      omega
    · refine ⟨hdvd, h.sinceReset.getLast hne, List.getLast?_eq_getLast_of_ne_nil hne, ?_⟩
      have hlast := hrecent _ (hf.last _ (List.getLast?_eq_getLast_of_ne_nil hne))
      omega
  · rintro ⟨hdvd, f, hlast, hrecent⟩
    rcases hf.count with hcount | ⟨hcount, -, -⟩
    · -- an empty counter after a full group: the window has passed
      have hzero : g.count = 0 := hcount.trans (Nat.mod_eq_zero_of_dvd hdvd)
      have hpassed := hf.decayed hzero hdvd f hlast
      omega
    · exact Gauge.locked_of_recent (by omega) (hf.last f hlast) (by omega)

theorem le_of_index (hf : GaugeFits g h clock) {i j a b : Nat} (hij : i ≤ j) (ha : h.sinceReset[i]? = some a)
    (hb : h.sinceReset[j]? = some b) : a ≤ b := by
  obtain ⟨hi, rfl⟩ := List.getElem?_eq_some_iff.mp ha
  obtain ⟨hj, rfl⟩ := List.getElem?_eq_some_iff.mp hb
  rcases Nat.lt_or_eq_of_le hij with hlt | heq
  · exact List.pairwise_iff_getElem.mp hf.ordered i j hi hj hlt
  · subst heq
    exact Nat.le_refl _

/-- **Three failures within the window lock.** Otherwise a group ends among the last three, with the
window between it and the next failure. -/
theorem groupFull_of_threeBefore (hf : GaugeFits g h clock) (hle : clock ≤ t) (hthree : h.ThreeBefore t) :
    h.GroupFull t := by
  obtain ⟨a, b, c, hsub, hrecent⟩ := hthree
  have hsuffix := h.sinceSuccess_suffix
  obtain ⟨i, ha, hi⟩ := History.index_of_sublist (hsub.trans hsuffix.sublist)
  have hdvd : 3 ∣ h.sinceReset.length := by
    by_contra hndvd
    -- the end of the last complete group
    obtain ⟨m, hm⟩ : ∃ m, m + 1 = h.sinceReset.length - h.sinceReset.length % 3 :=
      ⟨h.sinceReset.length - h.sinceReset.length % 3 - 1, by omega⟩
    obtain ⟨x, hx⟩ : ∃ x, h.sinceReset[m]? = some x := ⟨_, List.getElem?_eq_getElem (by omega)⟩
    obtain ⟨y, hy⟩ : ∃ y, h.sinceReset[m + 1]? = some y := ⟨_, List.getElem?_eq_getElem (by omega)⟩
    have hgap := hf.gaps m _ _ (by omega) hx hy
    have hfirst := hf.le_of_index (by omega) ha hx
    have hpast := hf.past _ (List.mem_of_getElem? hy)
    omega
  have hne : h.sinceReset ≠ [] := by
    intro hnil
    rw [hnil] at ha
    cases ha
  have hlast := List.getLast?_eq_getLast_of_ne_nil hne
  refine ⟨hdvd, _, hlast, ?_⟩
  rw [List.getLast?_eq_getElem?] at hlast
  have hle' := hf.le_of_index (by omega) ha hlast
  omega

/-- **What the claimed window and the limiter have in common.** -/
theorem exact_iff (hf : GaugeFits g h clock) (hle : clock ≤ t) :
    ((h.ThreeBefore t → g.Locked t) ∧ (g.Locked t → h.ThreeWithin ∧ h.LastRecent t)) ↔ ¬ h.Spread t := by
  rw [hf.locked_iff hle]
  constructor
  · rintro ⟨-, honly⟩ ⟨hfull, hfar⟩
    exact hfar (honly hfull).1
  · intro hspread
    refine ⟨hf.groupFull_of_threeBefore hle, fun hfull => ?_⟩
    have hthree : h.ThreeWithin := by
      by_contra hfar
      exact hspread ⟨hfull, hfar⟩
    refine ⟨hthree, ?_⟩
    -- the failures since the last success end where those since the last reset end
    obtain ⟨a, b, c, hsub, -⟩ := hthree
    obtain ⟨-, f, hlast, hrecent⟩ := hfull
    obtain ⟨front, hfront⟩ := h.sinceSuccess_suffix
    have hne : h.sinceSuccess ≠ [] := by
      intro hnil
      rw [hnil] at hsub
      cases hsub
    rw [← hfront, List.getLast?_append_of_ne_nil _ hne] at hlast
    exact ⟨f, hlast, hrecent⟩

end GaugeFits

/-! ## Runs -/

section

variable {K H P : Type}

theorem simpleStep_fits (verify : P → H → Verified) {s s' : Timed (PasswordAuth H)} {e : SimpleCall P}
    (hf : GaugeFits s.auth.gauge s.history s.clock) (hs : s.simpleStep verify e = some s') :
    GaugeFits s'.auth.gauge s'.history s'.clock := by
  cases e with
  | key now =>
      obtain ⟨hle, hs⟩ := Option.ite_none_right_eq_some.mp hs
      cases hs
      have hkept := hf.later hle
      rw [← List.append_nil s.history] at hkept
      exact hkept
  | password password test now =>
      obtain ⟨⟨hle, hnow⟩, hs⟩ := Option.ite_none_right_eq_some.mp hs
      cases hs
      exact hf.call hle hnow (simple_calls verify test now password s.auth)

variable [DecidableEq K]

theorem unifiedStep_fits (c : Crypto K H P) {s s' : Timed (UnifiedAuthenticator K H)}
    {e : UnifiedCall K H P} (hf : GaugeFits s.auth.gauge s.history s.clock)
    (hs : s.unifiedStep c e = some s') : GaugeFits s'.auth.gauge s'.history s'.clock := by
  cases e with
  | key key test now wr =>
      obtain ⟨⟨hle, hnow⟩, hs⟩ := Option.ite_none_right_eq_some.mp hs
      cases hs
      exact hf.call hle hnow (checkPublicKey_calls c test now wr key s.auth)
  | password password test now wr =>
      obtain ⟨⟨hle, hnow⟩, hs⟩ := Option.ite_none_right_eq_some.mp hs
      cases hs
      exact hf.call hle hnow (checkPassword_calls c test now wr password s.auth)
  | disk dir shadow =>
      cases hs
      exact hf

end

theorem Calls.rateLimited_iff {g g' : Gauge} {test now : Nat} {rateLimited : Prop}
    {mark : Option Mark} (hcall : Calls g g' test now rateLimited mark) :
    rateLimited ↔ g.Locked test := by
  rcases hcall with ⟨hr, hg, -, -⟩ | ⟨hr, hg, -⟩
  · exact ⟨fun _ => hg, fun _ => hr⟩
  · exact ⟨fun h => absurd h hr, fun h => absurd h hg⟩

/-- What is expected of the limiter for an attempt at `t`. -/
def History.Exact (h : History) (t : Nat) (rateLimited : Prop) : Prop :=
  (h.ThreeBefore t → rateLimited) ∧ (rateLimited → h.ThreeWithin ∧ h.LastRecent t)

/-- Wrong passwords at the given seconds. -/
def wrongAt (seconds : List Nat) : List (SimpleCall Nat) :=
  seconds.map fun n => .password 0 (n * 1000000000) (n * 1000000000)

/-- The password is `1`. -/
def plainVerify (password hash : Nat) : Verified := if password = hash then .correct else .invalid

def afterWrong (seconds : List Nat) : Option (Timed (PasswordAuth Nat)) :=
  exec (Timed.simpleStep plainVerify) ⟨PasswordAuth.new 1, 0, []⟩ (wrongAt seconds)

namespace Proof

/-- The attempts of a run are rejected exactly as the window says, unless three failures that lie far
apart were added up. -/
theorem lockout_exact_iff {K H P : Type} [DecidableEq K] (c : Crypto K H P) (verify : P → H → Verified)
    (dir : ClientsDir K) (shadow : Shadow H) (policy : HostKeyPolicy) (keys : List K) (temp : Option H)
    (hash : H) (start t : Nat) :
    (∀ calls s, exec (Timed.unifiedStep c)
        ⟨UnifiedAuthenticator.new dir shadow policy keys temp, start, []⟩ calls = some s → s.clock ≤ t →
      ∀ now wr,
        (∀ key, s.history.Exact t ((UnifiedAuthenticator.checkPublicKey c t now wr key s.auth).1
            = .rateLimited) ↔ ¬ s.history.Spread t)
        ∧ ∀ password, s.history.Exact t ((UnifiedAuthenticator.checkPassword c t now wr password
            s.auth).1 = .rateLimited) ↔ ¬ s.history.Spread t)
    ∧ ∀ calls s, exec (Timed.simpleStep verify) ⟨PasswordAuth.new hash, start, []⟩ calls = some s →
        s.clock ≤ t → ∀ now (password : P),
        (s.history.Exact t ((PasswordAuth.checkPassword verify t now password s.auth).1 = .rateLimited)
          ↔ ¬ s.history.Spread t) := by
  constructor
  · intro calls s hx hclock now wr
    have hf : GaugeFits s.auth.gauge s.history s.clock :=
      exec_invariant_all (I := fun s => GaugeFits s.auth.gauge s.history s.clock)
        (fun _ _ _ hi hs => unifiedStep_fits c hi hs) GaugeFits.new hx
    constructor
    · intro key
      rw [History.Exact, (checkPublicKey_calls c t now wr key s.auth).rateLimited_iff]
      exact hf.exact_iff hclock
    · intro password
      rw [History.Exact, (checkPassword_calls c t now wr password s.auth).rateLimited_iff]
      exact hf.exact_iff hclock
  · intro calls s hx hclock now password
    have hf : GaugeFits s.auth.gauge s.history s.clock :=
      exec_invariant_all (I := fun s => GaugeFits s.auth.gauge s.history s.clock)
        (fun _ _ _ hi hs => simpleStep_fits verify hi hs) GaugeFits.new hx
    rw [History.Exact, (simple_calls verify t now password s.auth).rateLimited_iff]
    exact hf.exact_iff hclock

/-- Three wrong passwords within two seconds, and the right one a second later. -/
theorem lockout_exact_three_seconds :
    ∃ s, afterWrong [0, 1, 2] = some s ∧ s.clock ≤ 3000000000
      ∧ s.history.Exact 3000000000
        ((PasswordAuth.checkPassword plainVerify 3000000000 3000000000 1 s.auth).1 = .rateLimited) := by
  refine ⟨_, rfl, by decide, ?_⟩
  refine ((lockout_exact_iff Crypto.clear plainVerify .empty .missing .strict [] none 1 0
    3000000000).2 (wrongAt [0, 1, 2]) _ rfl (by decide) 3000000000 1).mpr ?_
  rintro ⟨-, hfar⟩
  exact hfar ⟨0, 1000000000, 2000000000, List.Sublist.refl _, by decide⟩

/-- Three wrong passwords, a hundred seconds from one to the next, and the right one is rejected. -/
theorem spaced_failures_lock :
    ∃ s, afterWrong [0, 100, 200] = some s ∧ s.clock ≤ 210000000000
      ∧ (PasswordAuth.checkPassword plainVerify 210000000000 210000000000 1 s.auth).1 = .rateLimited
      ∧ ¬ s.history.ThreeWithin
      ∧ ¬ s.history.Exact 210000000000
        ((PasswordAuth.checkPassword plainVerify 210000000000 210000000000 1 s.auth).1
          = .rateLimited) := by
  have hfar : ¬ History.ThreeWithin [(0, .failed), (100000000000, .failed), (200000000000, .failed)] := by
    rintro ⟨a, b, c, hsub, hwithin⟩
    have heq := hsub.eq_of_length rfl
    obtain ⟨rfl, hrest⟩ := List.cons.inj heq
    obtain ⟨-, hrest⟩ := List.cons.inj hrest
    obtain ⟨rfl, -⟩ := List.cons.inj hrest
    exact absurd hwithin (by decide)
  exact ⟨_, rfl, by decide, rfl, hfar, fun hexact => hfar (hexact.2 rfl).1⟩

end Proof

end Irosh
