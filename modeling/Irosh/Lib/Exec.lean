import Mathlib.Data.List.Basic

/-!
# Executions of a partial step function

A system is a partial function `step : σ → ε → Option σ`: what an event does in
a state, and `none` where the event cannot happen. An execution is a list of
events each of which could happen in the state the earlier ones left.

Interleaving is not a separate notion. Every party's atomic actions are events
of the one system, so "in any interleaving" is "for every list of events", and
"in every state reached" is "at the end of every list", because each prefix of
an execution is itself an execution.

`Meets` is for results that need a condition on how the steps are taken: it
asks that condition of every step, in the state just before the step.
-/

namespace Exec

variable {σ ε : Type}

/-- The state a list of events leads to, if each of them can happen in turn. -/
def exec (step : σ → ε → Option σ) : σ → List ε → Option σ
  | s, [] => some s
  | s, e :: es => (step s e).bind fun s' => exec step s' es

/-- Every step the list takes meets `G` in the state it is taken from. -/
def Meets (step : σ → ε → Option σ) (G : σ → ε → Prop) : σ → List ε → Prop
  | _, [] => True
  | s, e :: es => G s e ∧ ∀ s', step s e = some s' → Meets step G s' es

variable {step : σ → ε → Option σ} {G : σ → ε → Prop} {s s' s₁ : σ} {e : ε} {es : List ε}

@[simp] theorem exec_nil : exec step s [] = some s := rfl

@[simp] theorem exec_cons :
    exec step s (e :: es) = (step s e).bind fun s₁ => exec step s₁ es := rfl

theorem exec_cons_some (h : exec step s (e :: es) = some s') :
    ∃ s₁, step s e = some s₁ ∧ exec step s₁ es = some s' := by
  rw [exec_cons] at h
  exact Option.bind_eq_some_iff.mp h

/-- One execution after another. -/
theorem exec_append {es' : List ε} (h : exec step s es = some s₁) :
    exec step s (es ++ es') = exec step s₁ es' := by
  induction es generalizing s with
  | nil => exact (Option.some.inj h) ▸ rfl
  | cons e es ih =>
      obtain ⟨s₂, h1, h2⟩ := exec_cons_some h
      rw [List.cons_append, exec_cons, h1]
      exact ih h2

/-- **The invariant rule.** What every step that meets `G` keeps, every execution keeps. -/
theorem exec_invariant {I : σ → Prop}
    (hstep : ∀ s e s', I s → G s e → step s e = some s' → I s')
    (h0 : I s) (hg : Meets step G s es) (hx : exec step s es = some s') : I s' := by
  induction es generalizing s with
  | nil => exact (Option.some.inj hx) ▸ h0
  | cons e es ih =>
      obtain ⟨s₁, h1, h2⟩ := exec_cons_some hx
      exact ih (hstep s e s₁ h0 hg.1 h1) (hg.2 s₁ h1) h2

/-- A condition on the events alone. -/
theorem meets_of_forall_mem (h : ∀ e ∈ es, ∀ s, G s e) : Meets step G s es := by
  induction es generalizing s with
  | nil => trivial
  | cons e es ih =>
      refine ⟨h e List.mem_cons_self s, ?_⟩
      intro s₁ _
      exact ih fun e' he' => h e' (List.mem_cons_of_mem _ he')

/-- The invariant rule where no condition on the steps is needed. -/
theorem exec_invariant_all {I : σ → Prop}
    (hstep : ∀ s e s', I s → step s e = some s' → I s')
    (h0 : I s) (hx : exec step s es = some s') : I s' :=
  exec_invariant (G := fun _ _ => True) (fun s e s' hi _ hs => hstep s e s' hi hs) h0
    (meets_of_forall_mem fun _ _ _ => trivial) hx

/-- **The converse rule.** If a step that breaks `G` leads into `B`, and `B` is never left again,
then an execution that ends outside `B` has met `G` throughout. -/
theorem meets_of_exec {I B : σ → Prop}
    (hstep : ∀ s e s', I s → G s e → step s e = some s' → I s')
    (hbreak : ∀ s e s', I s → ¬ G s e → step s e = some s' → B s')
    (hstay : ∀ s e s', B s → step s e = some s' → B s')
    (h0 : I s) (hx : exec step s es = some s') (hend : ¬ B s') : Meets step G s es := by
  induction es generalizing s with
  | nil => trivial
  | cons e es ih =>
      obtain ⟨s₁, h1, h2⟩ := exec_cons_some hx
      have hg : G s e := by
        by_contra hng
        exact hend (exec_invariant_all hstay (hbreak s e s₁ h0 hng h1) h2)
      refine ⟨hg, ?_⟩
      intro s₂ hs
      rw [h1] at hs
      cases hs
      exact ih (hstep s e s₁ h0 hg h1) h2

/-- `P` in the state an execution starts from and in every state it reaches. -/
def Throughout (step : σ → ε → Option σ) (P : σ → Prop) : σ → List ε → Prop
  | s, [] => P s
  | s, e :: es => P s ∧ ∀ s', step s e = some s' → Throughout step P s' es

theorem Throughout.head {P : σ → Prop} (h : Throughout step P s es) : P s := by
  cases es with
  | nil => exact h
  | cons e es => exact h.1

/-- **The exact rule.** If a step that breaks `G` leads out of `P` at once, and the others keep
an invariant inside `P`, then `P` holds throughout exactly where every step meets `G`. The
executions are those whose steps meet `H`. -/
theorem throughout_iff_meets {I P : σ → Prop} {H : σ → ε → Prop} (hP : ∀ s, I s → P s)
    (hstep : ∀ s e s', I s → H s e → G s e → step s e = some s' → I s')
    (hbreak : ∀ s e, I s → H s e → ¬ G s e → ∃ s', step s e = some s' ∧ ¬ P s')
    (h0 : I s) (hH : Meets step H s es) : Throughout step P s es ↔ Meets step G s es := by
  induction es generalizing s with
  | nil => exact ⟨fun _ => trivial, fun _ => hP s h0⟩
  | cons e es ih =>
    constructor
    · intro h
      have hg : G s e := by
        by_contra hng
        obtain ⟨s₁, h1, hout⟩ := hbreak s e h0 hH.1 hng
        exact hout (h.2 s₁ h1).head
      exact ⟨hg, fun s₁ h1 => (ih (hstep s e s₁ h0 hH.1 hg h1) (hH.2 s₁ h1)).mp (h.2 s₁ h1)⟩
    · intro h
      refine ⟨hP s h0, ?_⟩
      intro s₁ h1
      exact (ih (hstep s e s₁ h0 hH.1 h.1 h1) (hH.2 s₁ h1)).mpr (h.2 s₁ h1)

/-- What holds throughout holds at the end. -/
theorem Throughout.last {P : σ → Prop} (h : Throughout step P s es)
    (hx : exec step s es = some s') : P s' := by
  induction es generalizing s with
  | nil => exact (Option.some.inj hx) ▸ h
  | cons e es ih =>
    obtain ⟨s₁, h1, h2⟩ := exec_cons_some hx
    exact ih (h.2 s₁ h1) h2

/-- Whether a list of events meets a decidable condition can be decided by running it. -/
instance decidableMeets [∀ s e, Decidable (G s e)] : ∀ s es, Decidable (Meets step G s es)
  | _, [] => isTrue trivial
  | s, e :: es =>
      match h : step s e with
      | none => decidable_of_iff (G s e) ⟨fun hg => ⟨hg, fun _ hs => by rw [h] at hs; cases hs⟩,
          And.left⟩
      | some s₁ =>
          have := decidableMeets s₁ es
          decidable_of_iff (G s e ∧ Meets step G s₁ es)
            ⟨fun hg => ⟨hg.1, fun _ hs => by rw [h] at hs; cases hs; exact hg.2⟩,
              fun hm => ⟨hm.1, hm.2 s₁ h⟩⟩

end Exec
