import Mathlib.Data.List.Infix
import Mathlib.Data.List.Nodup

/-!
# A sequential object and its histories

An object handles one call after another, and now and then changes by itself. A history is
the list of what it did, with the answer to every call. `replay` runs it again, and fails
at a call with another answer.

Histories only grow. What was in one before is before everything that came later: that is
all it takes for the order to agree with real time.
-/

namespace Serial

variable {S ι C R N : Type}

/-- What an object does with a call, and how it changes by itself. -/
structure Object (S C R N : Type) where
  call : S → C → S × R
  change : S → N → S

/-- One thing an object did. -/
inductive Entry (ι C R N : Type) where
  | called (caller : ι) (c : C) (r : R)
  | changed (n : N)
  deriving DecidableEq, Repr

/-- The state after an entry, if the answer is the object's own. -/
def apply [DecidableEq R] (o : Object S C R N) (s : S) : Entry ι C R N → Option S
  | .called _ c r => if (o.call s c).2 = r then some (o.call s c).1 else none
  | .changed n => some (o.change s n)

/-- The state after a history. -/
def replay [DecidableEq R] (o : Object S C R N) : S → List (Entry ι C R N) → Option S
  | s, [] => some s
  | s, e :: es => (apply o s e).bind fun s' => replay o s' es

/-- Who has made the calls. -/
def Entry.caller? : Entry (Option ι) C R N → Option ι
  | .called caller _ _ => caller
  | .changed _ => none

def callers (h : List (Entry (Option ι) C R N)) : List ι := h.filterMap Entry.caller?

/-- `x` comes before `y`. -/
def Before {E : Type} (h : List E) (x y : E) : Prop :=
  ∃ earlier later, h = earlier ++ later ∧ x ∈ earlier ∧ y ∈ later ∧ y ∉ earlier

section Replay

variable [DecidableEq R] {o : Object S C R N} {s s' s₁ : S} {h : List (Entry ι C R N)}

theorem replay_append {h' : List (Entry ι C R N)} (hr : replay o s h = some s₁) :
    replay o s (h ++ h') = replay o s₁ h' := by
  induction h generalizing s with
  | nil => exact (Option.some.inj hr) ▸ rfl
  | cons e es ih =>
      obtain ⟨s₂, h1, h2⟩ := Option.bind_eq_some_iff.mp hr
      show (apply o s e).bind (fun s' => replay o s' (es ++ h')) = _
      rw [h1]
      exact ih h2

/-- A call with the object's own answer. -/
theorem replay_called {caller : ι} {c : C} (hr : replay o s h = some s₁) :
    replay o s (h ++ [.called caller c (o.call s₁ c).2]) = some (o.call s₁ c).1 := by
  rw [replay_append hr]
  show (if (o.call s₁ c).2 = (o.call s₁ c).2 then some (o.call s₁ c).1 else none).bind some = _
  rw [if_pos rfl]
  rfl

/-- Changes by itself. -/
theorem replay_changed {ns : List N} (hr : replay o s h = some s₁) :
    replay o s (h ++ ns.map .changed) = some (ns.foldl o.change s₁) := by
  rw [replay_append hr]
  clear hr
  induction ns generalizing s₁ with
  | nil => rfl
  | cons n ns ih => exact ih

/-- Every answer is the object's own, in some state. -/
theorem answer_of_replay {caller : ι} {c : C} {r : R} (hr : replay o s h = some s')
    (hmem : .called caller c r ∈ h) :
    ∃ s₁, (o.call s₁ c).2 = r := by
  induction h generalizing s with
  | nil => cases hmem
  | cons e es ih =>
      obtain ⟨s₂, h1, h2⟩ := Option.bind_eq_some_iff.mp hr
      rcases List.mem_cons.mp hmem with rfl | htail
      · simp only [apply] at h1
        split at h1
        · rename_i heq
          exact ⟨s, heq⟩
        · cases h1
      · exact ih h2 htail

end Replay

theorem callers_append (h h' : List (Entry (Option ι) C R N)) :
    callers (h ++ h') = callers h ++ callers h' := List.filterMap_append

theorem callers_changed (ns : List N) :
    callers (ns.map (.changed : N → Entry (Option ι) C R N)) = [] := by
  induction ns with
  | nil => rfl
  | cons n ns ih => exact ih

theorem mem_callers {h : List (Entry (Option ι) C R N)} {i : ι} :
    i ∈ callers h ↔ ∃ c r, .called (some i) c r ∈ h := by
  constructor
  · intro hi
    obtain ⟨e, he, hwho⟩ := List.mem_filterMap.mp hi
    cases e with
    | changed n => cases hwho
    | called caller c r => exact ⟨c, r, (show caller = some i from hwho) ▸ he⟩
  · rintro ⟨c, r, he⟩
    exact List.mem_filterMap.mpr ⟨_, he, rfl⟩

/-- **In real time.** -/
theorem before_of_prefix {E : Type} {h h' : List E} {x y : E} (hgrown : h <+: h') (hx : x ∈ h)
    (hnew : y ∉ h) (hy : y ∈ h') : Before h' x y := by
  obtain ⟨later, rfl⟩ := hgrown
  exact ⟨h, later, rfl, hx, (List.mem_append.mp hy).resolve_left hnew, hnew⟩

end Serial
