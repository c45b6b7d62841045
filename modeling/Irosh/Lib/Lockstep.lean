/-!
# Programs that may fail, one at a time and side by side

Rules for `EStateM`, the monad of programs that change a state, may fail, and keep
what they had done to the state when they fail.

`Keeps I Q x` is about one program: it keeps `I` whether it succeeds or not, and what
it returns satisfies `Q`. `Agree R Q x y` is about two: from states related by `R`,
both succeed, with results related by `Q`, or both fail with the same error, and
the states are related by `R` again. Each has a rule for every way of putting
programs together.
-/

namespace Lockstep

variable {ε σ τ α β γ δ : Type}

/-- Fails with `e` if the test says so. -/
def refuse (bad : Bool) (e : ε) : EStateM ε σ Unit := if bad then throw e else pure ()

theorem bind_ok {x : EStateM ε σ α} {f : α → EStateM ε σ β} {s s' : σ} {a : α}
    (h : x.run s = .ok a s') : (x >>= f).run s = (f a).run s' := by
  show EStateM.bind x f s = (f a).run s'
  rw [EStateM.run] at h
  simp only [EStateM.bind, h]
  rfl

theorem bind_error {x : EStateM ε σ α} {f : α → EStateM ε σ β} {s s' : σ} {e : ε}
    (h : x.run s = .error e s') : (x >>= f).run s = .error e s' := by
  show EStateM.bind x f s = .error e s'
  rw [EStateM.run] at h
  simp only [EStateM.bind, h]

theorem run_refuse {bad : Bool} (h : bad = false) (e : ε) (s : σ) :
    (refuse bad e : EStateM ε σ Unit).run s = .ok () s := by
  rw [h]
  rfl

/-! ## One program -/

/-- Keeps `I`, and returns only what satisfies `Q`. -/
def Keeps (I : σ → Prop) (Q : α → Prop) (x : EStateM ε σ α) : Prop :=
  ∀ s, I s →
    match x.run s with
    | .ok a s' => Q a ∧ I s'
    | .error _ s' => I s'

theorem keeps_pure {I : σ → Prop} {Q : α → Prop} {a : α} (h : Q a) :
    Keeps I Q (pure a : EStateM ε σ α) := fun _ hs => ⟨h, hs⟩

theorem keeps_throw {I : σ → Prop} {Q : α → Prop} (e : ε) :
    Keeps I Q (throw e : EStateM ε σ α) := fun _ hs => hs

theorem keeps_refuse (I : σ → Prop) (bad : Bool) (e : ε) :
    Keeps I (fun _ => bad = false) (refuse bad e) := by
  cases bad with
  | true => exact keeps_throw e
  | false => exact keeps_pure rfl

theorem keeps_ofExcept (I : σ → Prop) (r : Except ε α) :
    Keeps I (fun a => r = .ok a) (ofExcept r : EStateM ε σ α) := by
  cases r with
  | ok a => exact keeps_pure rfl
  | error e => exact keeps_throw e

theorem Keeps.weaken {I : σ → Prop} {Q Q' : α → Prop} {x : EStateM ε σ α} (hx : Keeps I Q x)
    (h : ∀ a, Q a → Q' a) : Keeps I Q' x := by
  intro s hs
  have hr := hx s hs
  cases hrun : x.run s with
  | ok a s' =>
      rw [hrun] at hr
      exact ⟨h a hr.1, hr.2⟩
  | error e s' =>
      rw [hrun] at hr
      exact hr

theorem Keeps.bind {I : σ → Prop} {Q : α → Prop} {Q' : β → Prop} {x : EStateM ε σ α}
    {f : α → EStateM ε σ β} (hx : Keeps I Q x) (hf : ∀ a, Q a → Keeps I Q' (f a)) :
    Keeps I Q' (x >>= f) := by
  intro s hs
  have h := hx s hs
  cases hr : x.run s with
  | ok a s' =>
      rw [hr] at h
      rw [bind_ok hr]
      exact hf a h.1 s' h.2
  | error e s' =>
      rw [hr] at h
      rw [bind_error hr]
      exact h

/-! ## Two programs -/

/-- From related states, both succeed alike or both fail alike. -/
def Agree (R : σ → τ → Prop) (Q : α → β → Prop) (x : EStateM ε σ α) (y : EStateM ε τ β) : Prop :=
  ∀ s t, R s t →
    match x.run s, y.run t with
    | .ok a s', .ok b t' => Q a b ∧ R s' t'
    | .error e s', .error e' t' => e = e' ∧ R s' t'
    | _, _ => False

theorem agree_pure {R : σ → τ → Prop} {Q : α → β → Prop} {a : α} {b : β} (h : Q a b) :
    Agree R Q (pure a : EStateM ε σ α) (pure b) := fun _ _ hr => ⟨h, hr⟩

theorem agree_throw {R : σ → τ → Prop} {Q : α → β → Prop} (e : ε) :
    Agree R Q (throw e : EStateM ε σ α) (throw e) := fun _ _ hr => ⟨rfl, hr⟩

theorem agree_refuse {R : σ → τ → Prop} {Q : Unit → Unit → Prop} (h : Q () ()) (bad : Bool) (e : ε) :
    Agree R Q (refuse bad e) (refuse bad e) := by
  cases bad with
  | true => exact agree_throw e
  | false => exact agree_pure h

theorem agree_ofExcept (R : σ → τ → Prop) (r : Except ε α) :
    Agree R Eq (ofExcept r : EStateM ε σ α) (ofExcept r : EStateM ε τ α) := by
  cases r with
  | ok a => exact agree_pure rfl
  | error e => exact agree_throw e

theorem Agree.bind {R : σ → τ → Prop} {Q : α → β → Prop} {Q' : γ → δ → Prop}
    {x : EStateM ε σ α} {y : EStateM ε τ β} {f : α → EStateM ε σ γ} {g : β → EStateM ε τ δ}
    (hx : Agree R Q x y) (hf : ∀ a b, Q a b → Agree R Q' (f a) (g b)) :
    Agree R Q' (x >>= f) (y >>= g) := by
  intro s t hr
  have h := hx s t hr
  cases hxs : x.run s with
  | ok a s' =>
      cases hyt : y.run t with
      | ok b t' =>
          rw [hxs, hyt] at h
          rw [bind_ok hxs, bind_ok hyt]
          exact hf a b h.1 s' t' h.2
      | error e t' =>
          rw [hxs, hyt] at h
          exact h.elim
  | error e s' =>
      cases hyt : y.run t with
      | ok b t' =>
          rw [hxs, hyt] at h
          exact h.elim
      | error e' t' =>
          rw [hxs, hyt] at h
          rw [bind_error hxs, bind_error hyt]
          exact h

end Lockstep
