import Mathlib.Data.List.Basic

/-!
# Programs that talk to an environment

A program either returns, or performs an operation and goes on with the answer.
The environment is not modelled: it may give any answer at any time.
`Ensures φ Q p` says that every operation `p` ever performs satisfies `φ` and every
value it can return satisfies `Q`, whatever the answers. Safety of what a program
*does* can be stated so without saying what the environment *is*.

Where the environment matters, `eval` runs a program against one: a state, and what
each operation answers and changes in it.
-/

/-- Programs over operations `O`, each with its type of answers. -/
inductive Prog (O : Type) (R : O → Type) (α : Type) : Type where
  | pure (a : α)
  | op (o : O) (k : R o → Prog O R α)

namespace Prog

variable {O : Type} {R : O → Type} {α β : Type}

def bind (p : Prog O R α) (f : α → Prog O R β) : Prog O R β :=
  match p with
  | .pure a => f a
  | .op o k => .op o fun r => (k r).bind f

instance : Monad (Prog O R) where
  pure := .pure
  bind := .bind

/-- One operation. -/
def perform (o : O) : Prog O R (R o) := .op o .pure

theorem bind_assoc {γ : Type} (p : Prog O R α) (f : α → Prog O R β) (g : β → Prog O R γ) :
    (p >>= f) >>= g = p >>= fun a => f a >>= g := by
  induction p with
  | pure a => rfl
  | op o k ih => exact congrArg (op o) (funext ih)

theorem bind_pure (p : Prog O R α) : p >>= Pure.pure = p := by
  induction p with
  | pure a => rfl
  | op o k ih => exact congrArg (op o) (funext ih)

/-- Every operation satisfies `φ` and every result `Q`, whatever the answers. -/
def Ensures (φ : O → Prop) (Q : α → Prop) : Prog O R α → Prop
  | .pure a => Q a
  | .op o k => φ o ∧ ∀ r, (k r).Ensures φ Q

/-- Every operation satisfies `φ`. -/
def Always (φ : O → Prop) (p : Prog O R α) : Prop := p.Ensures φ fun _ => True

variable {φ : O → Prop} {Q : α → Prop} {S : β → Prop}

theorem always_pure (a : α) : (Pure.pure a : Prog O R α).Always φ := trivial

/-- **The rule of composition.** -/
theorem Ensures.bind {p : Prog O R α} {f : α → Prog O R β} (hp : p.Ensures φ Q)
    (hf : ∀ a, Q a → (f a).Ensures φ S) : (p >>= f).Ensures φ S := by
  induction p with
  | pure a => exact hf a hp
  | op o k ih => exact ⟨hp.1, fun r => ih r (hp.2 r)⟩

/-- Composition where the result does not matter. -/
theorem Always.bind {p : Prog O R α} {f : α → Prog O R β} (hp : p.Always φ)
    (hf : ∀ a, (f a).Ensures φ S) : (p >>= f).Ensures φ S :=
  Ensures.bind hp fun a _ => hf a

theorem Always.mono {ψ : O → Prop} {p : Prog O R α} (hp : p.Always φ) (h : ∀ o, φ o → ψ o) :
    p.Always ψ := by
  induction p with
  | pure a => trivial
  | op o k ih => exact ⟨h o hp.1, fun r => ih r (hp.2 r)⟩

/-- An operation and what comes after it. -/
theorem ensures_perform {o : O} {f : R o → Prog O R β} (ho : φ o)
    (hf : ∀ r, (f r).Ensures φ S) : (perform o >>= f).Ensures φ S := ⟨ho, hf⟩

theorem always_perform {o : O} (h : φ o) : (perform o : Prog O R (R o)).Always φ :=
  ⟨h, fun _ => trivial⟩

/-- Going on only after success. -/
theorem always_guard {ok : Bool} {p : Prog O R α} {a : α} (hp : p.Always φ) :
    (if ok = true then p else Pure.pure a).Always φ := by
  split
  · exact hp
  · trivial

/-! ## Running a program -/

/-- A program over some operations, as a program over more. -/
def lift {O' : Type} {R' : O' → Type} (inj : O → O') (back : ∀ o, R' (inj o) → R o) :
    Prog O R α → Prog O' R' α
  | .pure a => .pure a
  | .op o k => .op (inj o) fun r => (k (back o r)).lift inj back

theorem lift_bind {O' : Type} {R' : O' → Type} (inj : O → O') (back : ∀ o, R' (inj o) → R o)
    (p : Prog O R α) (f : α → Prog O R β) :
    (p >>= f).lift inj back = p.lift inj back >>= fun a => (f a).lift inj back := by
  induction p with
  | pure a => rfl
  | op o k ih => exact congrArg (op (inj o)) (funext fun r => ih (back o r))

theorem Ensures.lift {O' : Type} {R' : O' → Type} {inj : O → O'} {back : ∀ o, R' (inj o) → R o}
    {ψ : O' → Prop} {p : Prog O R α} (hp : p.Ensures φ Q) (hψ : ∀ o, φ o → ψ (inj o)) :
    (p.lift inj back).Ensures ψ Q := by
  induction p with
  | pure a => exact hp
  | op o k ih => exact ⟨hψ o hp.1, fun r => ih (back o r) (hp.2 (back o r))⟩

theorem Always.lift {O' : Type} {R' : O' → Type} {inj : O → O'} {back : ∀ o, R' (inj o) → R o}
    {ψ : O' → Prop} {p : Prog O R α} (hp : p.Always φ) (hψ : ∀ o, φ o → ψ (inj o)) :
    (p.lift inj back).Always ψ :=
  Ensures.lift hp hψ

theorem always_true (p : Prog O R α) : p.Always fun _ => True := by
  induction p with
  | pure a => trivial
  | op o k ih => exact ⟨trivial, ih⟩

variable {σ : Type} {answer : (o : O) → σ → R o × σ}

/-- The result of a program and the state it leaves, if `answer` is the environment. -/
def eval (answer : (o : O) → σ → R o × σ) : Prog O R α → σ → α × σ
  | .pure a, s => (a, s)
  | .op o k, s => (k (answer o s).1).eval answer (answer o s).2

@[simp] theorem eval_pure (a : α) (s : σ) : (Pure.pure a : Prog O R α).eval answer s = (a, s) := rfl

@[simp] theorem eval_perform (o : O) (s : σ) : (perform o).eval answer s = answer o s := rfl

theorem eval_bind (p : Prog O R α) (f : α → Prog O R β) (s : σ) :
    (p >>= f).eval answer s = (f (p.eval answer s).1).eval answer (p.eval answer s).2 := by
  induction p generalizing s with
  | pure a => rfl
  | op o k ih => exact ih _ _

/-- A run that ends well has gone on after the first part ended well. -/
theorem eval_bind_ok {ε : Type} {p : Prog O R (Except ε α)} {f : Except ε α → Prog O R (Except ε β)}
    {b : β} {s s' : σ} (h : (p >>= f).eval answer s = (.ok b, s'))
    (hf : ∀ e, f (.error e) = Pure.pure (.error e)) :
    ∃ a s₁, p.eval answer s = (.ok a, s₁) ∧ (f (.ok a)).eval answer s₁ = (.ok b, s') := by
  rw [eval_bind] at h
  cases hp : p.eval answer s with
  | mk r s₁ =>
      rw [hp] at h
      cases r with
      | error e =>
          rw [hf e] at h
          cases h
      | ok a => exact ⟨a, s₁, rfl, h⟩

/-- An operation and what comes after it. -/
@[simp] theorem eval_perform_bind (o : O) (f : R o → Prog O R β) (s : σ) :
    (perform o >>= f).eval answer s = (f (answer o s).1).eval answer (answer o s).2 := rfl

/-- What every operation that satisfies `φ` keeps, every program of such operations keeps. -/
theorem Always.eval_invariant {I : σ → Prop} {p : Prog O R α} (hp : p.Always φ)
    (hI : ∀ o s, φ o → I s → I (answer o s).2) {s : σ} (hs : I s) : I (p.eval answer s).2 := by
  induction p generalizing s with
  | pure a => exact hs
  | op o k ih => exact ih _ (hp.2 _) (hI o s hp.1 hs)

/-- A program among more operations is answered as these answer it. -/
theorem eval_lift {O' : Type} {R' : O' → Type} {more : (o : O') → σ → R' o × σ} (inj : O → O')
    (back : ∀ o, R' (inj o) → R o) (p : Prog O R α) (s : σ) :
    (p.lift inj back).eval more s
      = p.eval (fun o s => (back o (more (inj o) s).1, (more (inj o) s).2)) s := by
  induction p generalizing s with
  | pure a => rfl
  | op o k ih => exact ih _ _

/-- A program whose operations only see a part of the state runs on that part. -/
theorem Always.eval_part {τ : Type} {whole : (o : O) → τ → R o × τ} (part : τ → σ)
    (put : τ → σ → τ) (hself : ∀ t, put t (part t) = t) (hget : ∀ t s, part (put t s) = s)
    (hput : ∀ t s s', put (put t s) s' = put t s')
    (hwhole : ∀ o t, φ o → whole o t = ((answer o (part t)).1, put t (answer o (part t)).2))
    {p : Prog O R α} (hp : p.Always φ) (t : τ) :
    p.eval whole t = ((p.eval answer (part t)).1, put t (p.eval answer (part t)).2) := by
  induction p generalizing t with
  | pure a => exact congrArg (Prod.mk a) (hself t).symm
  | op o k ih =>
      have hstep := hwhole o t hp.1
      show (k (whole o t).1).eval whole (whole o t).2 = _
      rw [hstep]
      dsimp only
      rw [ih _ (hp.2 _), hget, hput]
      rfl

/-- A condition that operations do not lift is there at the end of a program. -/
theorem eval_stays {bad : σ → Prop} (hbad : ∀ o s, bad s → bad (answer o s).2) (p : Prog O R α) {s : σ}
    (hs : bad s) : bad (p.eval answer s).2 :=
  (always_true p).eval_invariant (fun o s _ => hbad o s) hs

/-- **Two environments that answer alike until something bad happens in the first.** -/
theorem eval_agrees {τ : Type} {answer' : (o : O) → τ → R o × τ} {bad : σ → Prop} {sim : σ → τ → Prop}
    (hbad : ∀ o s, bad s → bad (answer o s).2)
    (hstep : ∀ o s t, sim s t →
      bad (answer o s).2 ∨ (answer o s).1 = (answer' o t).1 ∧ sim (answer o s).2 (answer' o t).2)
    (p : Prog O R α) {s : σ} {t : τ} (h : sim s t) :
    bad (p.eval answer s).2
      ∨ (p.eval answer s).1 = (p.eval answer' t).1 ∧ sim (p.eval answer s).2 (p.eval answer' t).2 := by
  induction p generalizing s t with
  | pure a => exact .inr ⟨rfl, h⟩
  | op o k ih =>
      rcases hstep o s t h with hnow | ⟨hanswer, hnext⟩
      · exact .inl (eval_stays hbad (k (answer o s).1) hnow)
      · have hrest := ih (answer o s).1 hnext
        show bad ((k (answer o s).1).eval answer (answer o s).2).2
          ∨ _ = ((k (answer' o t).1).eval answer' (answer' o t).2).1
            ∧ sim _ ((k (answer' o t).1).eval answer' (answer' o t).2).2
        rw [← hanswer]
        exact hrest

/-! ## Programs that may fail -/

section

variable {ε : Type} {s s' s'' : σ} {C D : Prop} {a : α} {b : β} {p : Prog O R (Except ε α)}
  {k : Except ε α → Prog O R (Except ε β)}

/-- A program that ends well if and only if `C` holds, and then with `a` and in `s'`. -/
structure Yields (answer : (o : O) → σ → R o × σ) (p : Prog O R (Except ε α)) (s : σ) (C : Prop) (a : α)
    (s' : σ) : Prop where
  ok : C → p.eval answer s = (.ok a, s')
  error : ¬ C → ∃ e t, p.eval answer s = (.error e, t)

theorem Yields.congr (h : p.Yields answer s C a s') (hC : C ↔ D) : p.Yields answer s D a s' :=
  ⟨fun hD => h.ok (hC.mpr hD), fun hD => h.error fun hc => hD (hC.mp hc)⟩

/-- **The rule of composition.** What comes after is reached if what comes before ends well. -/
theorem Yields.bind (hp : p.Yields answer s C a s') (hk : (k (.ok a)).Yields answer s' D b s'')
    (hfail : ∀ e, k (.error e) = Pure.pure (.error e)) : (p >>= k).Yields answer s (C ∧ D) b s'' := by
  refine ⟨fun h => ?_, fun h => ?_⟩
  · rw [eval_bind, hp.ok h.1]
    exact hk.ok h.2
  · by_cases hC : C
    · obtain ⟨e, t, hrun⟩ := hk.error fun hD => h ⟨hC, hD⟩
      refine ⟨e, t, ?_⟩
      rw [eval_bind, hp.ok hC]
      exact hrun
    · obtain ⟨e, t, hrun⟩ := hp.error hC
      refine ⟨e, t, ?_⟩
      rw [eval_bind, hrun]
      dsimp only
      rw [hfail]
      rfl

theorem yields_pure (a : α) : (Pure.pure (.ok a) : Prog O R (Except ε α)).Yields answer s True a s :=
  ⟨fun _ => rfl, fun h => absurd trivial h⟩

theorem yields_error (e : ε) (a : α) (s' : σ) :
    (Pure.pure (.error e) : Prog O R (Except ε α)).Yields answer s False a s' :=
  ⟨False.elim, fun _ => ⟨e, s, rfl⟩⟩

/-- An operation and what comes after it. -/
theorem Yields.perform {o : O} {f : R o → Prog O R (Except ε α)}
    (h : (f (answer o s).1).Yields answer (answer o s).2 C a s') :
    (Prog.perform o >>= f).Yields answer s C a s' := ⟨h.ok, h.error⟩

end

/-! ## Programs seen through a ghost state -/

variable {γ : Type} {next : γ → (o : O) → R o → γ} {ok : γ → O → Prop} {g : γ} {P : α → γ → Prop}
  {P' : β → γ → Prop}

/-- `next` is what an operation and its answer do to a ghost state. Every operation is `ok` in the
ghost state it is performed in, and every result satisfies `P` with the last one, whatever the
answers. -/
def Tracks (next : γ → (o : O) → R o → γ) (ok : γ → O → Prop) (P : α → γ → Prop) :
    γ → Prog O R α → Prop
  | g, .pure a => P a g
  | g, .op o k => ok g o ∧ ∀ r, Tracks next ok P (next g o r) (k r)

theorem Tracks.bind {p : Prog O R α} {f : α → Prog O R β} (hp : p.Tracks next ok P g)
    (hf : ∀ a g', P a g' → (f a).Tracks next ok P' g') : (p >>= f).Tracks next ok P' g := by
  induction p generalizing g with
  | pure a => exact hf a g hp
  | op o k ih => exact ⟨hp.1, fun r => ih r (hp.2 r)⟩

/-- A weaker result. -/
theorem Tracks.mono {Q : α → γ → Prop} {p : Prog O R α} (hp : p.Tracks next ok P g)
    (h : ∀ a g', P a g' → Q a g') : p.Tracks next ok Q g := by
  induction p generalizing g with
  | pure a => exact h a g hp
  | op o k ih => exact ⟨hp.1, fun r => ih r (hp.2 r)⟩

/-- A program none of whose operations matters to the ghost state. -/
theorem Always.tracks {p : Prog O R α} (hp : p.Always φ)
    (hnext : ∀ o r, φ o → next g o r = g) (hok : ∀ o, φ o → ok g o) :
    p.Tracks next ok (fun _ g' => g' = g) g := by
  induction p with
  | pure a => rfl
  | op o k ih =>
      refine ⟨hok o hp.1, fun r => ?_⟩
      rw [hnext o r hp.1]
      exact ih r (hp.2 r)

/-- The same, with what the results satisfy. -/
theorem Ensures.tracks {p : Prog O R α} (hp : p.Ensures φ Q)
    (hnext : ∀ o r, φ o → next g o r = g) (hok : ∀ o, φ o → ok g o) :
    p.Tracks next ok (fun a g' => Q a ∧ g' = g) g := by
  induction p with
  | pure a => exact ⟨hp, rfl⟩
  | op o k ih =>
      refine ⟨hok o hp.1, fun r => ?_⟩
      rw [hnext o r hp.1]
      exact ih r (hp.2 r)

/-! ## What a run performs -/

variable {oracle : Nat → (o : O) → R o}

/-- The operations of a run and their answers, where `oracle` answers the operation of each
number. -/
def steps (oracle : Nat → (o : O) → R o) : Nat → Prog O R α → List (Σ o, R o)
  | _, .pure _ => []
  | n, .op o k => ⟨o, oracle n o⟩ :: steps oracle (n + 1) (k (oracle n o))

/-- The result of that run. -/
def outcome (oracle : Nat → (o : O) → R o) : Nat → Prog O R α → α
  | _, .pure a => a
  | n, .op o k => outcome oracle (n + 1) (k (oracle n o))

/-- Where an operation is always answered alike, its number does not matter. -/
theorem outcome_const (reply : (o : O) → R o) (n : Nat) (p : Prog O R α) :
    p.outcome (fun _ => reply) n = (p.eval (fun o (_ : Unit) => (reply o, ())) ()).1 := by
  induction p generalizing n with
  | pure a => rfl
  | op o k ih => exact ih _ (n + 1)

theorem mem_steps {p : Prog O R α} {n : Nat} {step : Σ o, R o} (h : step ∈ p.steps oracle n) :
    ∃ m, step.2 = oracle m step.1 := by
  induction p generalizing n with
  | pure a => cases h
  | op o k ih =>
      rcases List.mem_cons.mp h with rfl | h
      · exact ⟨n, rfl⟩
      · exact ih _ h

/-- What a program tracks holds of each of its runs. -/
theorem Tracks.outcome {p : Prog O R α} (hp : p.Tracks next ok P g) (n : Nat) :
    P (p.outcome oracle n) ((p.steps oracle n).foldl (fun g step => next g step.1 step.2) g) := by
  induction p generalizing g n with
  | pure a => exact hp
  | op o k ih => exact ih _ (hp.2 _) (n + 1)

end Prog
