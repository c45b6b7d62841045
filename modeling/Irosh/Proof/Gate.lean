import Irosh.Server.Gate

/-!
# The authentication gate

A side stream is meant to reach the metadata service or the transfer service
only after the connection has been authenticated. The gate itself is sound: it is
opened by nothing but an accepted check. What lets streams past a closed gate is
its *end*. When the last sender is dropped the wait fails, the failure is
discarded, and the stream is dispatched.

`gate_holds_iff` says that this is the only way: a run keeps the promise exactly
when no stream with a known magic is released so.
-/

namespace Irosh.Proof

open Irosh Connection

/-- **Only streams of an authenticated connection are let through.** -/
def Gated (c : Connection) : Prop :=
  ∀ st ∈ c.streams, st.dispatched = true → c.authed = true

/-- No stream with a known magic is released by the disappearance of the senders: when a wait ends,
the gate is open or the stream leads nowhere. -/
def ReleasesNothing (c : Connection) : ConnEvent → Bool
  | .waitFor i =>
      match c.streams[i]? with
      | some (.waiting m) => c.gate || !(dispatch m).dispatched
      | _ => true
  | _ => true

/-! ## The gate itself -/

/-- What ties the gate to the checks. -/
structure Sound (c : Connection) : Prop where
  /-- The gate is opened, or about to be, only after an accepted check. -/
  earned : c.gate = true ∨ c.opening = true → c.authed = true
  /-- And an accepted check does open it. -/
  opened : c.authed = true → c.gate = true ∨ c.opening = true
  /-- A handler about to open it is alive. -/
  alive : c.opening = true → c.session = true
  /-- Before the SSH stream is accepted there is nothing. -/
  quiet : c.accept = .acceptBi → c.streams = [] ∧ c.listening = false ∧ c.session = false

theorem sound_fresh (isPairing : Bool) : Sound (fresh isPairing) := by
  refine ⟨?_, ?_, ?_, ?_⟩ <;> simp [fresh]

/-- Moving a stream changes nothing the gate depends on. -/
theorem sound_setStream {c : Connection} (h : Sound c) (i : Nat) (st : SideStream) :
    Sound (c.setStream i st) := by
  refine ⟨h.earned, h.opened, h.alive, ?_⟩
  intro ha
  obtain ⟨hs, hl⟩ := h.quiet ha
  refine ⟨?_, hl⟩
  show c.streams.set i st = []
  rw [hs]
  rfl

/-- **Preserved by every event.** -/
theorem sound_step {c c' : Connection} {e : ConnEvent} (h : Sound c) (hs : c.step e = some c') :
    Sound c' := by
  cases step_effect hs with
  | listen ha => exact ⟨h.earned, h.opened, h.alive, by intro hc; cases hc⟩
  | returns => exact ⟨h.earned, h.opened, h.alive, by intro hc; cases hc⟩
  | serves ha => exact ⟨h.earned, h.opened, fun _ => rfl, by intro hc; cases hc⟩
  | accepts hsn =>
      refine ⟨fun _ => rfl, fun _ => .inr rfl, fun _ => hsn, ?_⟩
      intro hc
      exact h.quiet hc
  | rejects => exact h
  | opens ho =>
      have hauth : c.authed = true := h.earned (.inr ho)
      refine ⟨fun _ => hauth, fun _ => .inl rfl, ?_, h.quiet⟩
      intro hc
      cases hc
  | ends ho =>
      refine ⟨h.earned, h.opened, ?_, ?_⟩
      · intro hc
        rw [ho] at hc
        cases hc
      · intro hc
        exact ⟨(h.quiet hc).1, (h.quiet hc).2.1, rfl⟩
  | stream hl =>
      refine ⟨h.earned, h.opened, h.alive, ?_⟩
      intro hc
      have := (h.quiet hc).2.1
      rw [hl] at this
      cases this
  | deaf =>
      refine ⟨h.earned, h.opened, h.alive, ?_⟩
      intro hc
      exact ⟨(h.quiet hc).1, rfl, (h.quiet hc).2.2⟩
  | closes => exact ⟨h.earned, h.opened, h.alive, h.quiet⟩
  | moves i old st => exact sound_setStream h i st
  | passes i old m => exact sound_setStream h i (dispatch m)
  | released i m => exact sound_setStream h i (dispatch m)

/-! ## As long as nothing is released -/

/-- **A step that releases nothing keeps the promise.** -/
theorem gated_step {c c' : Connection} {e : ConnEvent} (hi : Sound c) (h : Gated c)
    (hg : ReleasesNothing c e = true) (hs : c.step e = some c') : Gated c' := by
  intro st hm hd
  cases step_effect hs with
  | accepts => rfl
  -- a new stream has read nothing yet
  | stream =>
      rcases List.mem_append.mp hm with hm | hm
      · exact h st hm hd
      · rw [List.mem_singleton.mp hm] at hd
        cases hd
  | moves i old st' _ _ hst =>
      rcases mem_setStream hm with hm | hm
      · rw [hm, hst] at hd
        cases hd
      · exact h st hm hd
  | passes i old m _ _ hgate =>
      -- an open gate means an accepted check
      exact hi.earned (.inl hgate)
  | released i m he hw hgate _ =>
      rcases mem_setStream hm with hm | hm
      · subst he
        have hn : (dispatch m).dispatched = false := by
          simpa [ReleasesNothing, hw, hgate] using hg
        rw [hm, hn] at hd
        cases hd
      · exact h st hm hd
  | _ => exact h st hm hd

/-! ## Once something is released -/

/-- A stream has been let through, and nobody is left who could authenticate. -/
def Breached (c : Connection) : Prop :=
  c.authed = false ∧ c.session = false ∧ c.accept = .returned
    ∧ ∃ st ∈ c.streams, st.dispatched = true

/-- A release of a known magic is a breach: with no sender left and the gate closed, no check has
ever been accepted. -/
theorem breached_of_release {c c' : Connection} {e : ConnEvent} (hi : Sound c)
    (hg : ¬ ReleasesNothing c e = true) (hs : c.step e = some c') : Breached c' := by
  cases e with
  | waitFor i =>
      cases hw : c.streams[i]? with
      | none => simp [ReleasesNothing, hw] at hg
      | some st =>
          cases st with
          | waiting m =>
              have hbad : c.gate = false ∧ (dispatch m).dispatched = true := by
                simpa [ReleasesNothing, hw] using hg
              simp only [step, hw, hbad.1] at hs
              split at hs
              · rename_i hsend
                cases hs
                have hno : c.senders = false := by simpa using hsend
                have hsess : c.session = false := by
                  cases hc : c.session with
                  | false => rfl
                  | true => simp [senders, hc] at hno
                -- an accepted check would have opened the gate, or its handler would be alive
                have hauth : c.authed = false := by
                  cases hc : c.authed with
                  | false => rfl
                  | true =>
                      rcases hi.opened hc with ho | ho
                      · rw [hbad.1] at ho; cases ho
                      · rw [hi.alive ho] at hsess; cases hsess
                have hret : c.accept = .returned := by
                  cases hc : c.accept with
                  | acceptBi =>
                      rw [(hi.quiet hc).1] at hw
                      cases hw
                  | preparing => simp [senders, hc] at hno
                  | serving => simp [senders, hc] at hno
                  | returned => rfl
                refine ⟨hauth, hsess, hret, dispatch m, ?_, hbad.2⟩
                exact List.mem_iff_getElem?.mpr
                  ⟨i, List.getElem?_set_self (List.getElem?_eq_some_iff.mp hw).1⟩
              · cases hs
          | _ => simp [ReleasesNothing, hw] at hg
  | _ => simp [ReleasesNothing] at hg

/-- **A breach is for good.** -/
theorem breached_step {c c' : Connection} {e : ConnEvent} (h : Breached c)
    (hs : c.step e = some c') : Breached c' := by
  obtain ⟨hauth, hsess, hret, st, hm, hd⟩ := h
  cases step_effect hs with
  | listen ha => rw [hret] at ha; cases ha
  | returns => exact ⟨hauth, hsess, rfl, st, hm, hd⟩
  | serves ha => rw [hret] at ha; cases ha
  | accepts hsn => rw [hsess] at hsn; cases hsn
  | rejects => exact ⟨hauth, hsess, hret, st, hm, hd⟩
  | opens => exact ⟨hauth, hsess, hret, st, hm, hd⟩
  | ends => exact ⟨hauth, rfl, hret, st, hm, hd⟩
  | stream => exact ⟨hauth, hsess, hret, st, List.mem_append_left _ hm, hd⟩
  | deaf => exact ⟨hauth, hsess, hret, st, hm, hd⟩
  | closes => exact ⟨hauth, hsess, hret, st, hm, hd⟩
  | moves i old st' hi ho =>
      exact ⟨hauth, hsess, hret, st, mem_setStream_of_dispatched hi ho hm hd, hd⟩
  | passes i old m hi ho =>
      exact ⟨hauth, hsess, hret, st, mem_setStream_of_dispatched hi ho hm hd, hd⟩
  | released i m _ hi =>
      exact ⟨hauth, hsess, hret, st, mem_setStream_of_dispatched hi rfl hm hd, hd⟩

/-! ## The result -/

/--
**The gate holds in exactly the runs that release nothing.**

Any run of a connection, pairing or not: every stream that has reached a service
belongs to an authenticated connection if and only if no wait of a stream with a
known magic ended with the gate still closed.
-/
theorem gate_holds_iff (isPairing : Bool) {es : List ConnEvent} {c' : Connection}
    (hx : Exec.exec step (fresh isPairing) es = some c') :
    Gated c' ↔ Exec.Meets step (fun c e => ReleasesNothing c e = true) (fresh isPairing) es := by
  have hgated : Gated (fresh isPairing) := by
    intro st hm
    cases hm
  constructor
  · intro h
    refine Exec.meets_of_exec (I := Sound) (B := Breached) ?_ ?_ ?_ (sound_fresh isPairing) hx ?_
    · intro c e c₁ hi _ hs
      exact sound_step hi hs
    · intro c e c₁ hi hg hs
      exact breached_of_release hi hg hs
    · intro c e c₁ hb hs
      exact breached_step hb hs
    · rintro ⟨hauth, _, _, st, hm, hd⟩
      rw [h st hm hd] at hauth
      cases hauth
  · intro hmeets
    have hinv : Sound c' ∧ Gated c' := by
      refine Exec.exec_invariant (I := fun c => Sound c ∧ Gated c) ?_
        ⟨sound_fresh isPairing, hgated⟩ hmeets hx
      intro c e c₁ hi hg hs
      exact ⟨sound_step hi.1 hs, gated_step hi.1 hi.2 hg hs⟩
    exact hinv.2

/-- A peer that opens a transfer stream early and logs in later. -/
def earlyStream : List ConnEvent :=
  [.acceptBi true, .openStream, .readMagic 0 (some transferMagic), .borrow 0, .serve,
    .check (.ok false), .check (.ok true), .openGate, .waitFor 0, .sessionEnds, .acceptReturns]

/-- Its stream waits for the login and is then let through. -/
theorem gate_holds_early_stream :
    ∃ c', Exec.exec step (fresh false) earlyStream = some c'
      ∧ c'.streams = [.transfer] ∧ Gated c' := by
  have hsome : (Exec.exec step (fresh false) earlyStream).map (·.streams) = some [.transfer] := by
    decide
  obtain ⟨c', hx, hst⟩ := Option.map_eq_some_iff.mp hsome
  exact ⟨c', hx, hst, (gate_holds_iff false hx).mpr (by decide)⟩

/-- No wormhole is active. A peer connects for pairing, opens a transfer stream and waits to be
turned away: its stream is dispatched without a single check having been made. -/
theorem gate_released_by_refusal :
    ∃ c', Exec.exec step (fresh true)
        [.acceptBi true, .openStream, .readMagic 0 (some transferMagic), .borrow 0, .refuse,
          .waitFor 0] = some c'
      ∧ c'.streams = [.transfer] ∧ c'.authed = false ∧ ¬ Gated c' := by
  refine ⟨{ fresh true with accept := .returned, listening := true, streams := [.transfer] },
    by decide, rfl, rfl, ?_⟩
  intro h
  have := h .transfer (by decide) rfl
  cases this

end Irosh.Proof
