import Mathlib.Logic.Function.Basic

/-!
# A register whose newest record wins

Records carry a stamp. A record is replaced by one with a later stamp and by no other, and
a register may forget. `Since` says that a record has been seen: what is found is that
record or a later one. It holds from the moment a record is put until the register forgets.
-/

namespace Newest

variable {R Q V : Type}

structure Stamped (V : Type) where
  stamp : Nat
  value : V
  deriving DecidableEq, Repr

/-- A register `R` of records under names `Q`. -/
structure Register (R Q V : Type) where
  find : R → Q → Option (Stamped V)
  put : R → Q → Stamped V → R
  drop : R → Q → R
  find_put_ne : ∀ r q p q', q' ≠ q → find (put r q p) q' = find r q'
  find_put_newer : ∀ r q p, (∀ old, find r q = some old → old.stamp < p.stamp) → find (put r q p) q = some p
  find_put_older : ∀ r q p old, find r q = some old → p.stamp ≤ old.stamp → find (put r q p) q = some old
  find_drop_self : ∀ r q, find (drop r q) q = none
  find_drop_ne : ∀ r q q', q' ≠ q → find (drop r q) q' = find r q'

namespace Register

variable {reg : Register R Q V} {r : R} {q q' : Q} {p : Stamped V}

/-- What is found after a record was put. -/
theorem find_put (reg : Register R Q V) (r : R) (q : Q) (p : Stamped V) :
    reg.find (reg.put r q p) q = some p
      ∨ ∃ old, reg.find r q = some old ∧ p.stamp ≤ old.stamp ∧ reg.find (reg.put r q p) q = some old := by
  by_cases hnewer : ∀ old, reg.find r q = some old → old.stamp < p.stamp
  · exact .inl (reg.find_put_newer r q p hnewer)
  · obtain ⟨old, hnot⟩ := not_forall.mp hnewer
    obtain ⟨hold, hle⟩ := Classical.not_imp.mp hnot
    exact .inr ⟨old, hold, Nat.not_lt.mp hle, reg.find_put_older r q p old hold (Nat.not_lt.mp hle)⟩

/-- What is found is `p` or later. -/
def Since (reg : Register R Q V) (r : R) (q : Q) (p : Stamped V) : Prop :=
  ∃ p', reg.find r q = some p' ∧ (p' = p ∨ p.stamp < p'.stamp)

/-- A record that is put is seen, where a stamp tells which record it is. -/
theorem since_put_self (hstamp : ∀ old, reg.find r q = some old → old.stamp = p.stamp → old = p) :
    reg.Since (reg.put r q p) q p := by
  rcases reg.find_put r q p with hnew | ⟨old, hold, hle, hkept⟩
  · exact ⟨p, hnew, .inl rfl⟩
  · refine ⟨old, hkept, ?_⟩
    rcases Nat.eq_or_lt_of_le hle with heq | hlt
    · exact .inl (hstamp old hold heq.symm)
    · exact .inr hlt

/-- **Nothing that is put takes a record back.** -/
theorem Since.put (h : reg.Since r q p) (q' : Q) (new : Stamped V) : reg.Since (reg.put r q' new) q p := by
  obtain ⟨old, hold, hlater⟩ := h
  by_cases heq : q = q'
  · subst heq
    rcases reg.find_put r q new with hnew | ⟨old', hold', -, hkept⟩
    · by_cases hle : new.stamp ≤ old.stamp
      · -- the old one stays, and so it is the new one
        have hstays := reg.find_put_older r q new old hold hle
        exact ⟨old, hstays, hlater⟩
      · refine ⟨new, hnew, .inr ?_⟩
        rcases hlater with rfl | hlt
        · omega
        · omega
    · rw [hold] at hold'
      cases hold'
      exact ⟨old, hkept, hlater⟩
  · exact ⟨old, (reg.find_put_ne r q' new q heq).trans hold, hlater⟩

theorem Since.drop (h : reg.Since r q p) (hne : q ≠ q') : reg.Since (reg.drop r q') q p := by
  obtain ⟨old, hold, hlater⟩ := h
  exact ⟨old, (reg.find_drop_ne r q' q hne).trans hold, hlater⟩

/-- What is found after a record was put is that, or was there. -/
theorem of_find_put {p' : Stamped V} (h : reg.find (reg.put r q p) q' = some p') :
    q' = q ∧ p' = p ∨ reg.find r q' = some p' := by
  by_cases heq : q' = q
  · subst heq
    rcases reg.find_put r q' p with hnew | ⟨old, hold, -, hkept⟩
    · exact .inl ⟨rfl, Option.some.inj (h.symm.trans hnew)⟩
    · exact .inr (hold.trans (hkept.symm.trans h))
  · exact .inr ((reg.find_put_ne r q p q' heq).symm.trans h)

theorem of_find_drop {p' : Stamped V} (h : reg.find (reg.drop r q) q' = some p') :
    reg.find r q' = some p' := by
  by_cases heq : q' = q
  · subst heq
    rw [reg.find_drop_self] at h
    cases h
  · exact (reg.find_drop_ne r q q' heq).symm.trans h

end Register

/-- A register that is a function. -/
def table (Q V : Type) [DecidableEq Q] : Register (Q → Option (Stamped V)) Q V where
  find r q := r q
  put r q p := if (∀ old, r q = some old → old.stamp < p.stamp) then Function.update r q (some p) else r
  drop r q := Function.update r q none
  find_put_ne r q p q' hne := by
    split
    · exact Function.update_of_ne hne _ _
    · rfl
  find_put_newer r q p hnewer := by
    rw [if_pos hnewer, Function.update_self]
  find_put_older r q p old hold hle := by
    rw [if_neg fun hnewer => absurd (hnewer old hold) (Nat.not_lt.mpr hle), hold]
  find_drop_self r q := Function.update_self _ _ _
  find_drop_ne r q q' hne := Function.update_of_ne hne _ _

end Newest
