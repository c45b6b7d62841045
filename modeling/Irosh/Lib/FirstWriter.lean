import Mathlib.Logic.Function.Basic

/-!
# A file written by whoever finds it missing

Any number of parties share one file. Each looks whether it is there. If it is, the party
reads it; if not, the party writes a value of its own, some time later, over whatever is
there by then. A party *relies* on a value it has read or written.

Nothing keeps two parties from finding the file missing, or one from finding nothing where
there is a value. `Safe` is what holds as long as neither happens: whoever may still write
replaces no value, and all values relied on are the one in the file. There is one rule for
each thing a party does.
-/

namespace FirstWriter

variable {ι V : Type}

/-- What is at the path. -/
inductive Slot (V : Type) where
  | empty
  /-- Something that cannot be read as a value. -/
  | broken
  | full (v : V)
  deriving DecidableEq, Repr

/-- How a party stands to the file. -/
inductive Stage (V : Type) where
  | apart
  /-- It has found nothing, and may write. -/
  | vacant
  /-- It has read `v`. -/
  | holds (v : V)
  deriving DecidableEq, Repr

/-- Whoever may write is alone, and everyone else relies on what is there. -/
structure Safe (slot : Slot V) (stage : ι → Stage V) (relied : V → Prop) : Prop where
  vacant : ∀ i, stage i = .vacant → ∀ v, slot ≠ .full v
  alone : ∀ i j, stage i = .vacant → stage j = .vacant → i = j
  holds : ∀ i v, stage i = .holds v → slot = .full v
  relied : ∀ v, relied v → slot = .full v

variable {slot : Slot V} {stage : ι → Stage V} {relied relied' : V → Prop} {i : ι} {v : V}

theorem Safe.new (slot : Slot V) : Safe slot (fun _ : ι => .apart) (fun _ => False) where
  vacant := fun _ h => by cases h
  alone := fun _ _ h => by cases h
  holds := fun _ _ h => by cases h
  relied := fun _ h => h.elim

/-- All values relied on agree. -/
theorem Safe.agree (h : Safe slot stage relied) {v w : V} (hv : relied v) (hw : relied w) : v = w := by
  have heq := (h.relied v hv).symm.trans (h.relied w hw)
  cases heq
  rfl

theorem Safe.relies (h : Safe slot stage relied) (hsub : ∀ v, relied' v → relied v) :
    Safe slot stage relied' :=
  ⟨h.vacant, h.alone, h.holds, fun v hv => h.relied v (hsub v hv)⟩

/-- A party that holds a value relies on it. -/
theorem Safe.rely (h : Safe slot stage relied) (hi : stage i = .holds v)
    (hsub : ∀ w, relied' w → relied w ∨ w = v) : Safe slot stage relied' := by
  refine ⟨h.vacant, h.alone, h.holds, ?_⟩
  intro w hw
  rcases hsub w hw with hold | hnew
  · exact h.relied w hold
  · rw [hnew]
    exact h.holds i v hi

variable [DecidableEq ι]

theorem of_update {j : ι} {p q : Stage V} (h : Function.update stage i p j = q) :
    (j = i ∧ p = q) ∨ (j ≠ i ∧ stage j = q) := by
  by_cases hji : j = i
  · subst hji
    rw [Function.update_self] at h
    exact .inl ⟨rfl, h⟩
  · rw [Function.update_of_ne hji] at h
    exact .inr ⟨hji, h⟩

/-- A party turns to something else. -/
theorem Safe.leave (h : Safe slot stage relied) (i : ι) :
    Safe slot (Function.update stage i .apart) relied := by
  have hother : ∀ j p, p ≠ .apart → Function.update stage i .apart j = p → stage j = p := by
    intro j p hp hj
    rcases of_update hj with ⟨-, heq⟩ | ⟨-, hold⟩
    · exact absurd heq.symm hp
    · exact hold
  refine ⟨?_, ?_, ?_, h.relied⟩
  · intro j hj
    exact h.vacant j (hother j _ (by simp) hj)
  · intro j k hj hk
    exact h.alone j k (hother j _ (by simp) hj) (hother k _ (by simp) hk)
  · intro j w hj
    exact h.holds j w (hother j _ (by simp) hj)

/-- A party finds nothing, and no other party is where it may write. -/
theorem Safe.look (h : Safe slot stage relied) (hslot : ∀ v, slot ≠ .full v)
    (halone : ∀ j, j ≠ i → stage j ≠ .vacant) :
    Safe slot (Function.update stage i .vacant) relied := by
  have hvacant : ∀ j, Function.update stage i .vacant j = .vacant → j = i := by
    intro j hj
    rcases of_update hj with ⟨heq, -⟩ | ⟨hne, hold⟩
    · exact heq
    · exact absurd hold (halone j hne)
  refine ⟨fun _ _ => hslot, ?_, ?_, h.relied⟩
  · intro j k hj hk
    rw [hvacant j hj, hvacant k hk]
  · intro j w hj
    rcases of_update hj with ⟨-, heq⟩ | ⟨-, hold⟩
    · cases heq
    · exact h.holds j w hold

/-- A party reads. -/
theorem Safe.read (h : Safe slot stage relied) (i : ι) (hslot : slot = .full v) :
    Safe slot (Function.update stage i (.holds v)) relied := by
  have hvacant : ∀ j, Function.update stage i (.holds v) j = .vacant → stage j = .vacant := by
    intro j hj
    rcases of_update hj with ⟨-, heq⟩ | ⟨-, hold⟩
    · cases heq
    · exact hold
  refine ⟨?_, ?_, ?_, h.relied⟩
  · intro j hj
    exact h.vacant j (hvacant j hj)
  · intro j k hj hk
    exact h.alone j k (hvacant j hj) (hvacant k hk)
  · intro j w hj
    rcases of_update hj with ⟨-, heq⟩ | ⟨-, hold⟩
    · cases heq
      exact hslot
    · exact h.holds j w hold

/-- A party that has found nothing writes, and may rely on what it wrote. -/
theorem Safe.publish (h : Safe slot stage relied) (hi : stage i = .vacant)
    (hsub : ∀ w, relied' w → relied w ∨ w = v) :
    Safe (.full v) (Function.update stage i .apart) relied' := by
  -- nothing was there, so nobody held or relied on anything
  have hslot := h.vacant i hi
  refine ⟨?_, (h.leave i).alone, ?_, ?_⟩
  · intro j hj
    rcases of_update hj with ⟨-, heq⟩ | ⟨hne, hold⟩
    · cases heq
    · exact absurd (h.alone j i hold hi) hne
  · intro j w hj
    exact absurd ((h.leave i).holds j w hj) (hslot w)
  · intro w hw
    rcases hsub w hw with hold | hnew
    · exact absurd (h.relied w hold) (hslot w)
    · rw [hnew]

omit [DecidableEq ι] in
/-- The file is removed while nobody holds what was in it. -/
theorem Safe.clear (h : Safe slot stage relied) (hnone : ∀ j w, stage j ≠ .holds w) :
    Safe .empty stage (fun _ => False) := by
  refine ⟨?_, h.alone, fun j w hj => absurd hj (hnone j w), fun _ hw => hw.elim⟩
  intro _ _ v hv
  cases hv

end FirstWriter
