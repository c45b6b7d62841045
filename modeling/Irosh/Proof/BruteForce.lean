import Irosh.Auth.RateLimit

/-!
# How many passwords can be tried in a minute

The limiter tests `failed_attempts < 3` at the start of a check and counts the
failure at its end. A check that has passed the test and has not been counted yet
is *pending*: nobody else's test sees it. So the counter bounds the failures of a
window only together with the pending checks.

`Room` asks that of each lockout test. While it is met, counter and pending checks
together never exceed three (`Tally.room`), and every failure of the running window
is found again in one of the two (`Tally.counted`). The counter forgets only by a
success, which the window excludes, or by expiry, and expiry needs a last failure
older than the window: by then no pending check is left to hide a younger one
(`Tally.stamped`).

Without `Room` the bound fails: four checks that all take the lockout test before
the first of them is counted all get to verify their password.
-/

namespace Irosh

open UnifiedAuthenticator

variable {K H P : Type}

/-! ## Counting checks -/

/-- Past the lockout test, and its failure may still be counted. -/
def AttemptPc.pending : AttemptPc K → Bool
  | .verify | .dropKey | .stamp | .count => true
  | _ => false

/-- The verification failed, and the failure has not been counted yet. -/
def AttemptPc.recording : AttemptPc K → Bool
  | .dropKey | .stamp | .count => true
  | _ => false

/-- The verification failed, and `last_failure` does not know yet. -/
def AttemptPc.unstamped : AttemptPc K → Bool
  | .dropKey | .stamp => true
  | _ => false

namespace Limiter

/-- How many checks stand where `f` says. -/
def tally (f : AttemptPc K → Bool) (l : Limiter K H P) : Nat := l.calls.countP fun r => f r.pc

theorem tally_le {f g : AttemptPc K → Bool} (hfg : ∀ pc, f pc = true → g pc = true)
    (l : Limiter K H P) : l.tally f ≤ l.tally g :=
  List.countP_mono_left fun r _ => hfg r.pc

theorem tally_pos {f : AttemptPc K → Bool} {l : Limiter K H P} {i : Nat} {r : Attempt K P}
    (hi : l.calls[i]? = some r) (hf : f r.pc = true) : 0 < l.tally f :=
  List.countP_pos_iff.mpr ⟨r, List.mem_of_getElem? hi, hf⟩

/-- A check that moves takes its place in the count along. -/
theorem tally_put (f : AttemptPc K → Bool) {l : Limiter K H P} {i : Nat} {r : Attempt K P}
    (hi : l.calls[i]? = some r) (now : Nat) (pc : AttemptPc K) (a : UnifiedAuthenticator K H) :
    (l.put i now r pc a).tally f + (if f r.pc then 1 else 0)
      = l.tally f + (if f pc then 1 else 0) := by
  obtain ⟨hlt, hr⟩ := List.getElem?_eq_some_iff.mp hi
  have hmem : f r.pc = true → 0 < l.tally f := tally_pos hi
  unfold tally at hmem ⊢
  rw [put, List.countP_set hlt, hr]
  by_cases hf : f r.pc = true
  · have := hmem hf
    simp only [hf, if_true]
    omega
  · simp only [hf, Bool.false_eq_true, if_false]
    omega

/-- A check that starts stands before its lockout test. -/
theorem tally_start {f : AttemptPc K → Bool} (hf : f .lockout = false) (l : Limiter K H P)
    (s : Nat) (w : P) :
    tally f { l with calls := l.calls ++ [⟨s, w, .lockout⟩] } = l.tally f := by
  simp [tally, hf]

/-! ## The property -/

/-- How many verifications failed from `t` on. -/
def failedSince (t : Nat) (h : List (Nat × Outcome)) : Nat :=
  h.countP fun x => x.2 = .failed ∧ t ≤ x.1

/-- How many verifications failed between `t` and `t'`. -/
def failedBetween (t t' : Nat) (h : List (Nat × Outcome)) : Nat :=
  h.countP fun x => x.2 = .failed ∧ t ≤ x.1 ∧ x.1 ≤ t'

/-- In every window of at most `lockoutWindow` without a success, at most three verifications
fail. -/
def Bounded (l : Limiter K H P) : Prop :=
  ∀ t t', t' ≤ t + lockoutWindow →
    (∀ x ∈ l.history, x.2 = .succeeded → ¬ (t ≤ x.1 ∧ x.1 ≤ t')) →
    failedBetween t t' l.history ≤ 3

/-- A lockout test that finds fewer than three failures would still do so if every pending check had
failed already. -/
def Room (l : Limiter K H P) : LimiterEvent K H P → Prop
  | .advance i _ _ =>
      ∀ r ∈ l.calls[i]?, r.pc = .lockout → l.auth.failedAttempts < 3 →
        l.auth.failedAttempts + l.tally AttemptPc.pending < 3
  | _ => True

instance [DecidableEq K] (l : Limiter K H P) : ∀ e, Decidable (l.Room e)
  | .start _ _ => inferInstanceAs (Decidable True)
  | .advance i _ _ => inferInstanceAs (Decidable (∀ r ∈ l.calls[i]?, r.pc = .lockout →
      l.auth.failedAttempts < 3 → l.auth.failedAttempts + l.tally AttemptPc.pending < 3))
  | .disk _ _ => inferInstanceAs (Decidable True)

theorem failedBetween_le (t t' : Nat) (h : List (Nat × Outcome)) :
    failedBetween t t' h ≤ failedSince t h := by
  unfold failedBetween failedSince
  apply List.countP_mono_left
  intro x _ hx
  simp only [decide_eq_true_eq] at hx ⊢
  exact ⟨hx.1, hx.2.1⟩

/-! ## The invariant -/

/-- How counter, pending checks and history hang together while every test finds `Room`. -/
structure Tally (l : Limiter K H P) : Prop where
  /-- The counter and the pending checks fit in three. A counter that is past three from the start
  lets nobody become pending. -/
  room : l.tally AttemptPc.pending = 0 ∨ l.auth.failedAttempts + l.tally AttemptPc.pending ≤ 3
  past : ∀ x ∈ l.history, x.1 ≤ l.clock
  /-- Once nobody is about to stamp, the stamp is at least as young as every failure. -/
  stamped : l.tally AttemptPc.unstamped = 0 → ∀ x ∈ l.history, x.2 = .failed →
    ∃ last, l.auth.lastFailure = some last ∧ x.1 ≤ last
  /-- The failures of a window that still runs are counted, or about to be. -/
  counted : ∀ t, l.clock ≤ t + lockoutWindow →
    (∀ x ∈ l.history, x.2 = .succeeded → x.1 < t) →
    failedSince t l.history ≤ l.auth.failedAttempts + l.tally AttemptPc.recording
  bounded : l.Bounded

theorem tally_idle (auth : UnifiedAuthenticator K H) (cache : Nat → Option K) (clock : Nat) :
    Tally (idle auth cache clock : Limiter K H P) where
  room := .inl rfl
  past := nofun
  stamped := fun _ => nofun
  counted := fun _ _ _ => Nat.zero_le _
  bounded := fun _ _ _ _ => Nat.zero_le _

/-- A step that adds nothing to the history keeps the invariant if it keeps the room, if the stamp
stays or is brought up to date, and if the counter loses no failure of a running window. -/
theorem Tally.quiet {l l' : Limiter K H P} (ht : Tally l) (hhist : l'.history = l.history)
    (hclock : l.clock ≤ l'.clock)
    (hroom : l'.tally AttemptPc.pending = 0
      ∨ l'.auth.failedAttempts + l'.tally AttemptPc.pending ≤ 3)
    (hstamp : l'.tally AttemptPc.unstamped = 0 → l'.auth.lastFailure = some l'.clock
      ∨ (l.tally AttemptPc.unstamped = 0 ∧ l'.auth.lastFailure = l.auth.lastFailure))
    (hcount : l.auth.failedAttempts + l.tally AttemptPc.recording
        ≤ l'.auth.failedAttempts + l'.tally AttemptPc.recording
      ∨ ∀ x ∈ l.history, x.2 = .failed → x.1 + lockoutWindow < l'.clock) : Tally l' := by
  refine ⟨hroom, ?_, ?_, ?_, ?_⟩
  · intro x hx
    rw [hhist] at hx
    exact Nat.le_trans (ht.past x hx) hclock
  · intro hu x hx hf
    rw [hhist] at hx
    rcases hstamp hu with h | ⟨hu', h⟩
    · exact ⟨l'.clock, h, Nat.le_trans (ht.past x hx) hclock⟩
    · rw [h]
      exact ht.stamped hu' x hx hf
  · intro t htime hsucc
    rw [hhist] at hsucc ⊢
    rcases hcount with h | h
    · exact Nat.le_trans (ht.counted t (by omega) hsucc) h
    · -- every failure is too old for a window that still runs
      have hzero : failedSince t l.history = 0 := by
        apply List.countP_eq_zero.mpr
        intro x hx hf
        simp only [decide_eq_true_eq] at hf
        have := h x hx hf.1
        omega
      omega
  · intro t t' hw hsucc
    rw [hhist] at hsucc ⊢
    exact ht.bounded t t' hw hsucc

/-- What is added to the history is added at the present moment. -/
theorem Tally.past_snoc {l l' : Limiter K H P} {now : Nat} {o : Outcome} (ht : Tally l)
    (hhist : l'.history = l.history ++ [(now, o)]) (hclock : l.clock ≤ now) :
    ∀ x ∈ l'.history, x.1 ≤ now := by
  intro x hx
  rw [hhist, List.mem_append, List.mem_singleton] at hx
  rcases hx with hx | hx
  · exact Nat.le_trans (ht.past x hx) hclock
  · simp [hx]

/-- A verification that fails is in the history from now on, and its check is recording. -/
theorem Tally.failure {l l' : Limiter K H P} {now : Nat} (ht : Tally l)
    (hhist : l'.history = l.history ++ [(now, .failed)]) (hclock : l.clock ≤ now)
    (hnow : l'.clock = now)
    (hroom : l'.auth.failedAttempts + l'.tally AttemptPc.pending ≤ 3)
    (hstamp : l'.tally AttemptPc.unstamped ≠ 0)
    (hcount : l.auth.failedAttempts + l.tally AttemptPc.recording + 1
      = l'.auth.failedAttempts + l'.tally AttemptPc.recording) : Tally l' := by
  have hle : l'.tally AttemptPc.recording ≤ l'.tally AttemptPc.pending :=
    tally_le (by intro pc; cases pc <;> simp [AttemptPc.recording, AttemptPc.pending]) l'
  have hcounted : ∀ t, l'.clock ≤ t + lockoutWindow →
      (∀ x ∈ l'.history, x.2 = .succeeded → x.1 < t) →
      failedSince t l'.history ≤ l'.auth.failedAttempts + l'.tally AttemptPc.recording := by
    intro t htime hsucc
    rw [hhist] at hsucc ⊢
    have hold := ht.counted t (by omega) fun x hx => hsucc x (List.mem_append_left _ hx)
    have hnew : failedSince t [(now, Outcome.failed)] ≤ 1 := List.countP_le_length
    unfold failedSince at hold hnew ⊢
    rw [List.countP_append]
    omega
  have hpast := ht.past_snoc hhist hclock
  refine ⟨.inr hroom, hnow ▸ hpast, fun hu => absurd hu hstamp, hcounted, ?_⟩
  · intro t t' hw hsucc
    by_cases hin : t ≤ now ∧ now ≤ t'
    · -- a window that holds `now` still runs, so all its failures are accounted for
      have hrun := hcounted t (by omega) (by
        intro x hx hs
        have h1 := hsucc x hx hs
        have h2 := hpast x hx
        omega)
      have := failedBetween_le t t' l'.history
      omega
    · have hnew : failedBetween t t' [(now, Outcome.failed)] = 0 := by
        simp only [failedBetween, List.countP_singleton, true_and, decide_eq_true_eq]
        rw [if_neg hin]
      have hold := ht.bounded t t' hw fun x hx =>
        hsucc x (hhist ▸ List.mem_append_left _ hx)
      rw [hhist]
      unfold failedBetween at hold hnew ⊢
      rw [List.countP_append]
      omega

/-- A success closes every window it falls into. -/
theorem Tally.success {l l' : Limiter K H P} {now : Nat} (ht : Tally l)
    (hhist : l'.history = l.history ++ [(now, .succeeded)]) (hclock : l.clock ≤ now)
    (hnow : l'.clock = now)
    (hroom : l'.tally AttemptPc.pending = 0
      ∨ l'.auth.failedAttempts + l'.tally AttemptPc.pending ≤ 3)
    (hunst : l'.tally AttemptPc.unstamped = l.tally AttemptPc.unstamped)
    (hlast : l'.auth.lastFailure = l.auth.lastFailure) : Tally l' := by
  refine ⟨hroom, hnow ▸ ht.past_snoc hhist hclock, ?_, ?_, ?_⟩
  · intro hu x hx hf
    rw [hhist, List.mem_append, List.mem_singleton] at hx
    rw [hlast]
    rcases hx with hx | hx
    · exact ht.stamped (hunst ▸ hu) x hx hf
    · rw [hx] at hf
      cases hf
  · intro t _ hsucc
    -- the window starts after the success, and nothing has failed since
    have hlt : now < t := hsucc (now, .succeeded) (by simp [hhist]) rfl
    have hzero : failedSince t l'.history = 0 := by
      apply List.countP_eq_zero.mpr
      intro x hx hf
      simp only [decide_eq_true_eq] at hf
      rw [hhist, List.mem_append, List.mem_singleton] at hx
      rcases hx with hx | hx
      · have := ht.past x hx
        omega
      · rw [hx] at hf
        cases hf.1
    omega
  · intro t t' hw hsucc
    have hold := ht.bounded t t' hw fun x hx => hsucc x (hhist ▸ List.mem_append_left _ hx)
    have hnew : failedBetween t t' [(now, Outcome.succeeded)] = 0 := by
      simp [failedBetween]
    rw [hhist]
    unfold failedBetween at hold hnew ⊢
    rw [List.countP_append]
    omega

/-! ## Every step -/

variable [DecidableEq K]

/-- A check that moves, with room for its test, keeps the invariant. -/
theorem tally_advance {c : Crypto K H P} {l : Limiter K H P} {i now : Nat}
    {wr : Option StorageError} {r : Attempt K P} {pc : AttemptPc K} {a : UnifiedAuthenticator K H}
    (ht : Tally l) (hclock : l.clock ≤ now) (hi : l.calls[i]? = some r)
    (hroom : r.pc = .lockout → l.auth.failedAttempts < 3 →
      l.auth.failedAttempts + l.tally AttemptPc.pending < 3)
    (hstep : stepAttempt c now wr r.password (l.view r.session) r.pc = some (pc, a)) :
    Tally (l.put i now r pc a) := by
  have hp := tally_put AttemptPc.pending hi now pc a
  have hu := tally_put AttemptPc.unstamped hi now pc a
  have hr := tally_put AttemptPc.recording hi now pc a
  have hhist : (l.put i now r pc a).history
      = l.history ++ ((r.pc.outcome pc).map fun o => (now, o)).toList := rfl
  have hfa : (l.put i now r pc a).auth.failedAttempts = a.failedAttempts := rfl
  have hlf : (l.put i now r pc a).auth.lastFailure = a.lastFailure := rfl
  have hnow : (l.put i now r pc a).clock = now := rfl
  have hvf : (l.view r.session).failedAttempts = l.auth.failedAttempts := rfl
  have hvl : (l.view r.session).lastFailure = l.auth.lastFailure := rfl
  have hold := ht.room
  generalize l.put i now r pc a = l' at hp hu hr hhist hfa hlf hnow ⊢
  rw [← hnow] at hclock
  rcases stepAttempt_cases hstep with ⟨h1, h2, hf, hl⟩ | ⟨h1, h2, hlt, hf, hl⟩ |
    ⟨last, h1, h2, h3, hlast, hexp, hf, hl⟩ | ⟨h1, h2, hf, hl⟩ | ⟨w, h1, h2, hf, hl⟩ |
    ⟨w, v, h1, h2 | h2, hf, hl⟩ | ⟨v, h1, h2, hf, hl⟩ | ⟨h1, h2, hf, hl⟩ | ⟨h1, h2, hf, hl⟩ |
    ⟨h1, h2, hf, hl⟩
  · -- turned away
    simp [h1, h2, AttemptPc.pending, AttemptPc.unstamped, AttemptPc.recording,
      AttemptPc.outcome] at hp hu hr hhist
    exact ht.quiet hhist hclock (by omega)
      (fun h => .inr ⟨by omega, by rw [hlf, hl, hvl]⟩) (.inl (by omega))
  · -- let in: there is room
    simp [h1, h2, AttemptPc.pending, AttemptPc.unstamped, AttemptPc.recording,
      AttemptPc.outcome] at hp hu hr hhist
    have := hroom h1 (by omega)
    exact ht.quiet hhist hclock (.inr (by omega))
      (fun h => .inr ⟨by omega, by rw [hlf, hl, hvl]⟩) (.inl (by omega))
  · -- let in by expiry: nobody is pending, so the stamp covers every failure and is itself too old
    simp [h1, h2, AttemptPc.pending, AttemptPc.unstamped, AttemptPc.recording,
      AttemptPc.outcome] at hp hu hr hhist
    have hnone : l.tally AttemptPc.pending = 0 := by omega
    have hle := tally_le (f := AttemptPc.unstamped) (g := AttemptPc.pending)
      (by intro pc; cases pc <;> simp [AttemptPc.unstamped, AttemptPc.pending]) l
    refine ht.quiet hhist hclock (.inr (by omega))
      (fun h => .inr ⟨by omega, by rw [hlf, hl, hvl]⟩) (.inr ?_)
    intro x hx hxf
    obtain ⟨last', hl', hxl⟩ := ht.stamped (by omega) x hx hxf
    rw [← hvl, hlast] at hl'
    cases hl'
    omega
  · -- the verification fails
    simp [h1, h2, AttemptPc.pending, AttemptPc.unstamped, AttemptPc.recording,
      AttemptPc.outcome] at hp hu hr hhist
    have hpos := tally_pos (f := AttemptPc.pending) hi (by rw [h1]; rfl)
    exact ht.failure hhist (hnow ▸ hclock) hnow (by omega) (by omega) (by omega)
  · -- the password matches: one pending check less
    simp [h1, h2, AttemptPc.pending, AttemptPc.unstamped, AttemptPc.recording,
      AttemptPc.outcome] at hp hu hr hhist
    exact ht.quiet hhist hclock (by omega)
      (fun h => .inr ⟨by omega, by rw [hlf, hl, hvl]⟩) (.inl (by omega))
  · -- the vault is written
    simp [h1, h2, AttemptPc.pending, AttemptPc.unstamped, AttemptPc.recording,
      AttemptPc.outcome] at hp hu hr hhist
    exact ht.quiet hhist hclock (by omega)
      (fun h => .inr ⟨by omega, by rw [hlf, hl, hvl]⟩) (.inl (by omega))
  · -- the write fails
    simp [h1, h2, AttemptPc.pending, AttemptPc.unstamped, AttemptPc.recording,
      AttemptPc.outcome] at hp hu hr hhist
    exact ht.quiet hhist hclock (by omega)
      (fun h => .inr ⟨by omega, by rw [hlf, hl, hvl]⟩) (.inl (by omega))
  · -- the reset
    simp [h1, h2, AttemptPc.pending, AttemptPc.unstamped, AttemptPc.recording,
      AttemptPc.outcome] at hp hu hr hhist
    exact ht.success hhist (hnow ▸ hclock) hnow (by omega) (by omega) (by rw [hlf, hl, hvl])
  · -- the cached key is dropped
    simp [h1, h2, AttemptPc.pending, AttemptPc.unstamped, AttemptPc.recording,
      AttemptPc.outcome] at hp hu hr hhist
    exact ht.quiet hhist hclock (by omega)
      (fun h => .inr ⟨by omega, by rw [hlf, hl, hvl]⟩) (.inl (by omega))
  · -- the stamp is brought up to date
    simp [h1, h2, AttemptPc.pending, AttemptPc.unstamped, AttemptPc.recording,
      AttemptPc.outcome] at hp hu hr hhist
    exact ht.quiet hhist hclock (by omega) (fun _ => .inl (by rw [hlf, hl, hnow])) (.inl (by omega))
  · -- counted: from the pending checks to the counter
    simp [h1, h2, AttemptPc.pending, AttemptPc.unstamped, AttemptPc.recording,
      AttemptPc.outcome] at hp hu hr hhist
    exact ht.quiet hhist hclock (by omega)
      (fun h => .inr ⟨by omega, by rw [hlf, hl, hvl]⟩) (.inl (by omega))

/-- A step that meets `Room` keeps the invariant. -/
theorem tally_step {c : Crypto K H P} (l : Limiter K H P) (e : LimiterEvent K H P)
    (l' : Limiter K H P) (ht : Tally l) (hroom : l.Room e) (hs : l.step c e = some l') :
    Tally l' := by
  rcases step_cases hs with ⟨s, w, rfl, rfl⟩ | ⟨i, now, wr, r, pc, a, rfl, hclock, hi, hstep, rfl⟩ |
    ⟨dir, shadow, rfl, rfl⟩
  · -- a new check stands before its test and counts nowhere
    have hp := tally_start (f := AttemptPc.pending) rfl l s w
    have hu := tally_start (f := AttemptPc.unstamped) rfl l s w
    have hr := tally_start (f := AttemptPc.recording) rfl l s w
    refine ht.quiet rfl (Nat.le_refl _) ?_ ?_ (.inl (Nat.le_of_eq ?_))
    · rw [hp]
      exact ht.room
    · intro h
      rw [hu] at h
      exact .inr ⟨h, rfl⟩
    · rw [hr]
  · exact tally_advance ht hclock hi (hroom r hi) hstep
  · exact ht.quiet rfl (Nat.le_refl _) ht.room (fun h => .inr ⟨h, rfl⟩) (.inl (Nat.le_refl _))

end Limiter

/-! ## Every run -/

namespace Proof

open Limiter

variable [DecidableEq K]

/-- **At most three passwords fail in any minute.** Whatever the authenticator's counter and stamp
are at the start and however the checks interleave, as long as every lockout test finds `Room`. -/
theorem brute_force_bound {c : Crypto K H P} {auth : UnifiedAuthenticator K H}
    {cache : Nat → Option K} {clock : Nat} {es : List (LimiterEvent K H P)} {l : Limiter K H P}
    (hroom : Exec.Meets (step c) Room (idle auth cache clock) es)
    (hx : Exec.exec (step c) (idle auth cache clock) es = some l) : l.Bounded :=
  (Exec.exec_invariant tally_step (tally_idle auth cache clock) hroom hx).bounded

/-- A node with password 7, and nobody logging in. -/
def aNode : Limiter Nat Nat Nat :=
  idle (UnifiedAuthenticator.new .empty (.hash 7) .tofu [] none) (fun _ => none) 0

/-- The steps of check `i` at time `now`, from its lockout test to the end of `record_failure`. -/
def wholeFailure (i now : Nat) : List (LimiterEvent Nat Nat Nat) :=
  List.replicate 5 (.advance i now none)

/-- Two guesses that overlap all the way, a third one after them, and a fourth one. -/
def overlappingGuesses : List (LimiterEvent Nat Nat Nat) :=
  [.start 0 1, .start 1 2, .advance 0 5 none, .advance 1 5 none, .advance 0 6 none,
    .advance 1 6 none, .advance 0 7 none, .advance 1 7 none, .advance 0 8 none, .advance 1 8 none,
    .advance 0 9 none, .advance 1 9 none, .start 2 3]
    ++ wholeFailure 2 10 ++ [.start 3 4, .advance 3 11 none]

theorem brute_force_bound_overlapping :
    ∃ l, Exec.exec (step Crypto.clear) aNode overlappingGuesses = some l
      ∧ l.Bounded ∧ failedBetween 0 lockoutWindow l.history = 3 := by
  have hroom : Exec.Meets (step Crypto.clear) Room aNode overlappingGuesses := by decide
  exact ⟨_, rfl, brute_force_bound hroom rfl, by decide⟩

/-- Four guesses that all take the lockout test before the first of them is counted. -/
def fourAtOnce : List (LimiterEvent Nat Nat Nat) :=
  [.start 0 1, .start 1 2, .start 2 3, .start 3 4, .advance 0 5 none, .advance 1 5 none,
    .advance 2 5 none, .advance 3 5 none, .advance 0 6 none, .advance 1 6 none, .advance 2 6 none,
    .advance 3 6 none]

/-- Four wrong passwords are verified at the same moment. -/
theorem brute_force_four_at_once :
    ∃ l, Exec.exec (step Crypto.clear) aNode fourAtOnce = some l ∧ ¬ l.Bounded := by
  refine ⟨_, rfl, ?_⟩
  intro h
  have hfour := h 0 lockoutWindow (by decide) (by decide)
  exact absurd hfour (by decide)

end Proof

end Irosh
