import Mathlib.Data.List.Basic

/-!
# Transducers

A machine that reads letters one at a time and answers each with some output. Read in
pieces, a text gives what it gives read at once exactly if the rest does not notice where
the machine is at the cut.
-/

/-- A sequential transducer. -/
structure Transducer (σ α β : Type) where
  start : σ
  next : σ → α → σ
  emit : σ → α → List β

namespace Transducer

variable {σ α β : Type} (t : Transducer σ α β)

/-- Where the machine is after a text. -/
def stateFrom (s : σ) : List α → σ
  | [] => s
  | x :: xs => stateFrom (t.next s x) xs

/-- What it answers to a text. -/
def outFrom (s : σ) : List α → List β
  | [] => []
  | x :: xs => t.emit s x ++ outFrom (t.next s x) xs

/-- A text read from the start. -/
def out (xs : List α) : List β := t.outFrom t.start xs

def stateAfter (xs : List α) : σ := t.stateFrom t.start xs

@[simp] theorem stateFrom_nil (s : σ) : t.stateFrom s [] = s := rfl

@[simp] theorem stateFrom_cons (s : σ) (x : α) (xs : List α) :
    t.stateFrom s (x :: xs) = t.stateFrom (t.next s x) xs := rfl

@[simp] theorem outFrom_nil (s : σ) : t.outFrom s [] = [] := rfl

@[simp] theorem outFrom_cons (s : σ) (x : α) (xs : List α) :
    t.outFrom s (x :: xs) = t.emit s x ++ t.outFrom (t.next s x) xs := rfl

theorem outFrom_append (s : σ) (xs ys : List α) :
    t.outFrom s (xs ++ ys) = t.outFrom s xs ++ t.outFrom (t.stateFrom s xs) ys := by
  induction xs generalizing s with
  | nil => rfl
  | cons x xs ih => simp [ih, List.append_assoc]

/-- Two pieces give what the whole gives iff the second is read the same from the start. -/
theorem out_append_iff (xs ys : List α) :
    t.out xs ++ t.out ys = t.out (xs ++ ys) ↔
      t.out ys = t.outFrom (t.stateAfter xs) ys := by
  have hwhole : t.out (xs ++ ys) = t.out xs ++ t.outFrom (t.stateAfter xs) ys :=
    t.outFrom_append t.start xs ys
  rw [hwhole]
  exact List.append_right_inj _

/-- A text whose letters leave a state alone is answered letter by letter. -/
theorem of_fixed {s : σ} {xs : List α} (h : ∀ x ∈ xs, t.next s x = s) :
    t.outFrom s xs = xs.flatMap (t.emit s) ∧ t.stateFrom s xs = s := by
  induction xs with
  | nil => exact ⟨rfl, rfl⟩
  | cons x xs ih =>
    have hx : t.next s x = s := h x List.mem_cons_self
    obtain ⟨hout, hstate⟩ := ih fun y hy => h y (List.mem_cons_of_mem x hy)
    exact ⟨by simp [hx, hout], by simp [hx, hstate]⟩

end Transducer
