import Mathlib.Data.List.Basic

/-!
# The components of a path, for any separators

The text of a path is cut at its separators; empty pieces and `.` say nothing. What is
appended to a text that ends in a separator only adds components.
-/

namespace Components

/-- The components of a text. -/
def components (isSep : Char → Bool) (s : List Char) : List (List Char) :=
  (s.splitOnP isSep).filter fun piece => piece ≠ [] ∧ piece ≠ ['.']

/-- A text that leaves off where a component begins. -/
def Open (isSep : Char → Bool) (s : List Char) : Prop := s = [] ∨ ∃ front c, s = front ++ [c] ∧ isSep c = true

variable {isSep : Char → Bool} {s t name : List Char}

theorem components_append_sep {c : Char} (hc : isSep c = true) (s t : List Char) :
    components isSep (s ++ c :: t) = components isSep s ++ components isSep t := by
  rw [components, List.splitOnP_append_cons s t hc, List.filter_append]
  rfl

/-- A separator at the end says nothing. -/
theorem components_sep {c : Char} (hc : isSep c = true) (s : List Char) :
    components isSep (s ++ [c]) = components isSep s := by
  rw [components_append_sep hc]
  exact List.append_nil _

theorem Open.components_append (h : Open isSep s) (t : List Char) :
    components isSep (s ++ t) = components isSep s ++ components isSep t := by
  obtain rfl | ⟨front, c, rfl, hc⟩ := h
  · rfl
  · rw [components_sep hc, List.append_assoc]
    exact components_append_sep hc front t

/-- A name is one component. -/
theorem components_name (hsep : ∀ c ∈ name, isSep c = false) (hne : name ≠ []) (hdot : name ≠ ['.']) :
    components isSep name = [name] := by
  rw [components, List.splitOnP_eq_singleton hsep]
  simp [hne, hdot]

theorem Open.components_name (h : Open isSep s) (hsep : ∀ c ∈ name, isSep c = false) (hne : name ≠ [])
    (hdot : name ≠ ['.']) : components isSep (s ++ name) = components isSep s ++ [name] := by
  rw [h.components_append, Components.components_name hsep hne hdot]

/-- Separators in front say nothing. -/
theorem components_dropWhile (p : Char → Bool) (hp : ∀ c, p c = true → isSep c = true) (s : List Char) :
    components isSep (s.dropWhile p) = components isSep s := by
  induction s with
  | nil => rfl
  | cons c s ih =>
      cases hc : p c with
      | false => rw [List.dropWhile_cons_of_neg (by rw [hc]; exact Bool.false_ne_true)]
      | true =>
          rw [List.dropWhile_cons_of_pos hc, ih]
          exact (components_append_sep (hp c hc) [] s).symm

/-- Other separators in place of the ones there are. -/
theorem components_map {isSep' : Char → Bool} {f : Char → Char} (hf : ∀ c, isSep' (f c) = isSep c)
    (hid : ∀ c, isSep c = false → f c = c) (s : List Char) :
    components isSep' (s.map f) = components isSep s := by
  have hsplit : (s.map f).splitOnP isSep' = s.splitOnP isSep := by
    induction s with
    | nil => rfl
    | cons c s ih =>
        rw [List.map_cons, List.splitOnP_cons_eq_if_modifyHead, List.splitOnP_cons_eq_if_modifyHead, hf, ih]
        cases hc : isSep c with
        | true => rfl
        | false => rw [hid c hc]
  rw [components, hsplit]
  rfl

end Components
