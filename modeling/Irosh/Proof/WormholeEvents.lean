import Irosh.Server.Loop

/-!
# Messages about wormholes

Success notices, rate-limit notices and expiry messages do not say which wormhole
they are about. The loop applies them to whichever wormhole is active when it
receives them. That is right as long as the wormhole has not been exchanged in the
meantime.

`OwnMessages` is the invariant: a message under way was raised for the active
wormhole, or there is no active wormhole. It breaks in two ways only. The loop
handles an `EnableWormhole` while a message is still under way, or a session of an
earlier wormhole raises a message under a later one.
-/

namespace Irosh.Proof

open Irosh Server UnifiedAuthenticator

variable {K H P : Type}

/-- A wormhole is enabled only when no message is under way. -/
def EnablesQuietly (s : Server K H P) : ServerEvent K H P → Bool
  | .recvControl =>
      match s.controlQ with
      | .request (.enableWormhole _ _) :: _ => s.inFlight.isEmpty
      | _ => true
  | _ => true

/-- The wormhole is the active one, or there is none. -/
def mayRaise (s : Server K H P) (wid : Nat) : Bool := s.active == none || s.active == some wid

/-- A check is about to raise a message only where its session's wormhole is the active one, or there
is none. -/
def RaisesForActive (s : Server K H P) : ServerEvent K H P → Bool
  | .advance i _ _ =>
      match s.sessionAt i with
      | some (p, _) => !p.check.any Check.notifying || mayRaise s p.wid
      | none => true
  | _ => true

/-! ## The invariant -/

/-- **Messages under way are about the active wormhole.** -/
structure OwnMessages (s : Server K H P) : Prop where
  own : ∀ w ∈ s.inFlight, s.active = none ∨ s.active = some w
  /-- Only the active wormhole has an expiry task. -/
  armed : ∀ w wh, s.heap[w]? = some wh → wh.armed = true → s.active = some w
  /-- What has been cleared was cleared rightly. -/
  cleared : ∀ x ∈ s.cleared, x.1 = x.2

theorem ownMessages_start (ipc shutdown : Bool) (policy : HostKeyPolicy) (dir : ClientsDir K)
    (shadow : Shadow H) : OwnMessages (start ipc shutdown policy dir shadow : Server K H P) := by
  refine ⟨?_, ?_, ?_⟩
  · intro w hw
    exact .inl rfl
  · intro w wh hw
    simp [start] at hw
  · intro x hx
    simp [start] at hx

theorem ownMessages_idle {s s' : Server K H P} (h : OwnMessages s) (hi : Idle s s') :
    OwnMessages s' := by
  refine ⟨?_, ?_, ?_⟩
  · intro w hw
    rw [hi.active]
    exact h.own w (hi.inFlight w hw)
  · intro w wh hw ha
    rw [hi.active]
    rw [hi.heap] at hw
    exact h.armed w wh hw ha
  · rw [hi.cleared]
    exact h.cleared

/-- Once the active wormhole is taken, no expiry task is left. -/
theorem unarmed_takeWormhole {s : Server K H P} (h : OwnMessages s) {w : Nat} {wh : Wormhole H}
    (hw : s.takeWormhole.heap[w]? = some wh) : wh.armed = false := by
  cases hact : s.active with
  | none =>
      have heq : s.takeWormhole = s := by simp [takeWormhole, hact]
      rw [heq] at hw
      cases ha : wh.armed with
      | false => rfl
      | true =>
          have := h.armed w wh hw ha
          rw [hact] at this
          cases this
  | some v =>
      have heq : s.takeWormhole.heap = s.heap.modify v Wormhole.disarm := by
        simp [takeWormhole, hact]
      rw [heq, List.getElem?_modify] at hw
      obtain ⟨old, ho, rfl⟩ := Option.map_eq_some_iff.mp hw
      by_cases hv : v = w
      · rw [if_pos hv]
        rfl
      · rw [if_neg hv]
        cases ha : old.armed with
        | false => rfl
        | true =>
            -- only the active wormhole is armed, and `w` is another one
            have := h.armed w old ho ha
            rw [hact] at this
            exact absurd (Option.some.inj this) hv

theorem takeWormhole_active (s : Server K H P) : s.takeWormhole.active = none := by
  unfold takeWormhole
  split
  · assumption
  · rfl

theorem takeWormhole_cleared (s : Server K H P) : s.takeWormhole.cleared = s.cleared := by
  unfold takeWormhole
  split <;> rfl

theorem ownMessages_takeWormhole {s : Server K H P} (h : OwnMessages s) :
    OwnMessages s.takeWormhole := by
  refine ⟨?_, ?_, ?_⟩
  · intro w _
    exact .inl (takeWormhole_active s)
  · intro w wh hw ha
    rw [unarmed_takeWormhole h hw] at ha
    cases ha
  · rw [takeWormhole_cleared]
    exact h.cleared

/-- The loop clears the active wormhole for a message that was raised for it. -/
theorem ownMessages_clearFor {s : Server K H P} {w : Nat} (h : OwnMessages s)
    (hw : s.active = none ∨ s.active = some w) : OwnMessages (s.clearFor w) := by
  have ht := ownMessages_takeWormhole h
  unfold clearFor
  split
  · exact h
  · rename_i v hv
    refine ⟨ht.own, ht.armed, ?_⟩
    intro x hx
    rcases List.mem_append.mp hx with hx | hx
    · exact h.cleared x hx
    · rw [List.mem_singleton.mp hx]
      rcases hw with hw | hw
      · rw [hw] at hv; cases hv
      · rw [hw] at hv; exact Option.some.inj hv

/-- **A check** that raises no message, or is free to. -/
theorem ownMessages_writeBack {s : Server K H P} {i : Nat} {p : PairingSession K P} {w : Wormhole H}
    {pc : Check K P} {a : UnifiedAuthenticator K H} (h : OwnMessages s)
    (hi : s.sessionAt i = some (p, w)) (hr : a.notices = [] ∨ mayRaise s p.wid = true) :
    OwnMessages (s.writeBack i p w pc a) := by
  obtain ⟨_, hheap⟩ := sessionAt_eq_some hi
  refine ⟨?_, ?_, h.cleared⟩
  · intro v hv
    rcases mem_inFlight_writeBack hv with hv | ⟨rfl, hne⟩
    · exact h.own v hv
    · have hmay : mayRaise s p.wid = true := by
        rcases hr with h1 | h1
        · exact absurd h1 hne
        · exact h1
      show s.active = none ∨ s.active = some p.wid
      simpa [mayRaise] using hmay
  · intro v wh hv ha
    show s.active = some v
    have hv' : (s.heap.set p.wid
        { w with success := a.successFlag, failedAttempts := a.failedAttempts })[v]? = some wh := hv
    by_cases hpv : p.wid = v
    · -- the session's own wormhole: its expiry task is as before
      subst hpv
      rw [List.getElem?_set_self (List.getElem?_eq_some_iff.mp hheap).1] at hv'
      cases hv'
      exact h.armed _ w hheap ha
    · rw [List.getElem?_set_ne hpv] at hv'
      exact h.armed v wh hv' ha

/-- The day of an armed wormhole has passed: it is the active one, so the message is about it. -/
theorem ownMessages_expire {s : Server K H P} {w : Nat} {wh : Wormhole H} (h : OwnMessages s)
    (hw : s.heap[w]? = some wh) (ha : wh.armed = true) :
    OwnMessages { s with
      heap := s.heap.modify w Wormhole.disarm, controlQ := s.controlQ ++ [.expired w] } := by
  refine ⟨?_, ?_, h.cleared⟩
  · intro v hv
    rcases mem_inFlight.mp hv with hv | hv | hv | hv
    · exact h.own v (inFlight_notify hv)
    · exact h.own v (inFlight_successQ hv)
    · exact h.own v (inFlight_failureQ hv)
    · rcases List.mem_append.mp hv with hv | hv
      · exact h.own v (inFlight_controlQ hv)
      · cases List.mem_singleton.mp hv
        exact .inr (h.armed w wh hw ha)
  · intro v wv hv hav
    have hv' : (s.heap.modify w Wormhole.disarm)[v]? = some wv := hv
    rw [List.getElem?_modify] at hv'
    obtain ⟨old, ho, rfl⟩ := Option.map_eq_some_iff.mp hv'
    by_cases hwv : w = v
    · rw [if_pos hwv] at hav
      cases hav
    · rw [if_neg hwv] at hav
      exact h.armed v old ho hav

/-- A new wormhole, enabled while nothing is under way. -/
theorem ownMessages_enable {s : Server K H P} (password : Option H) (persistent : Bool)
    (h : OwnMessages s) (hq : s.inFlight = []) :
    OwnMessages (s.enableWormhole password persistent) := by
  have hflight : (s.enableWormhole password persistent).inFlight = s.inFlight := by
    unfold enableWormhole takeWormhole
    cases s.active with
    | none => rfl
    | some v => rfl
  refine ⟨?_, ?_, ?_⟩
  · intro w hw
    rw [hflight, hq] at hw
    cases hw
  · intro w wh hw ha
    have hw' : (s.takeWormhole.heap ++ [⟨password, persistent, 0, false, true⟩])[w]? = some wh := hw
    show some s.takeWormhole.heap.length = some w
    -- the old wormholes are unarmed by now, so an armed one is the new one
    by_cases hlt : w < s.takeWormhole.heap.length
    · rw [List.getElem?_append_left hlt] at hw'
      rw [unarmed_takeWormhole h hw'] at ha
      cases ha
    · have hlen := (List.getElem?_eq_some_iff.mp hw').1
      simp only [List.length_append, List.length_singleton] at hlen
      have : w = s.takeWormhole.heap.length := by omega
      rw [this]
  · show ∀ x ∈ s.takeWormhole.cleared, x.1 = x.2
    rw [takeWormhole_cleared]
    exact h.cleared

variable [DecidableEq K]

/-- **Preserved by every event.** -/
theorem ownMessages_step {c : Crypto K H P} {s s' : Server K H P} {e : ServerEvent K H P}
    (h : OwnMessages s) (hq : EnablesQuietly s e = true) (hr : RaisesForActive s e = true)
    (hs : s.step c e = some s') : OwnMessages s' := by
  cases step_effect hs with
  | idle _ hi => exact ownMessages_idle h hi
  | pairs w hw => exact ⟨h.own, h.armed, h.cleared⟩
  | expires w wh hw ha => exact ownMessages_expire h hw ha
  | checks i now wr p w pc pc' a he hi hc hst =>
      subst he
      have hquiet : a.notices = [] ∨ mayRaise s p.wid = true := by
        cases hn : pc.notifying with
        | false => exact .inl (stepCheck_notices hst hn)
        | true =>
            right
            simpa [RaisesForActive, hi, hc, hn] using hr
      have hw : OwnMessages (s.writeBack i p w pc' a) := ownMessages_writeBack h hi hquiet
      exact ⟨hw.own, hw.armed, hw.cleared⟩
  | enables password persistent rest he hc =>
      subst he
      have hnil : s.inFlight = [] := by
        simpa [EnablesQuietly, hc] using hq
      have hi := idle_controlQ hc
      have hnil' : { s with controlQ := rest }.inFlight = [] := by
        apply List.eq_nil_iff_forall_not_mem.mpr
        intro w hw
        have := hi.inFlight w hw
        rw [hnil] at this
        cases this
      have he := ownMessages_enable password persistent (ownMessages_idle h hi) hnil'
      exact ⟨he.own, he.armed, he.cleared⟩
  | takes s₁ hi pc =>
      have ht := ownMessages_takeWormhole (ownMessages_idle h hi)
      exact ⟨ht.own, ht.armed, ht.cleared⟩
  | clears w s₁ hw hi pc requested =>
      have hown : s₁.active = none ∨ s₁.active = some w := by
        rw [hi.active]
        exact h.own w hw
      have hc := ownMessages_clearFor (ownMessages_idle h hi) hown
      exact ⟨hc.own, hc.armed, hc.cleared⟩

/-! ## The result -/

/--
**Messages act on their own wormhole only**, in every run in which wormholes are
enabled quietly and messages are raised for the active wormhole: whatever the loop
has cleared in answer to a message is the wormhole that message was raised for.
-/
theorem messages_act_on_own_wormhole (c : Crypto K H P) {ipc shutdown : Bool}
    {policy : HostKeyPolicy} {dir : ClientsDir K} {shadow : Shadow H}
    {es : List (ServerEvent K H P)} {s : Server K H P}
    (hm : Exec.Meets (Server.step c)
      (fun q e => EnablesQuietly q e = true ∧ RaisesForActive q e = true)
      (start ipc shutdown policy dir shadow) es)
    (hx : Exec.exec (Server.step c) (start ipc shutdown policy dir shadow) es = some s) :
    ∀ x ∈ s.cleared, x.1 = x.2 := by
  have hinv : OwnMessages s :=
    Exec.exec_invariant (I := OwnMessages)
      (fun q e q' hi hg hs => ownMessages_step hi hg.1 hg.2 hs)
      (ownMessages_start ipc shutdown policy dir shadow) hm hx
  exact hinv.cleared

/-- The loop handles what comes next on the control channel and goes back to its `select`. -/
def handled (r : Request Nat) : List (ServerEvent Nat Nat Nat) :=
  [.command r, .recvControl, .loopTest, .loopTest]

/-- The check of a wrong password, as far as it goes for the first two. -/
def guessed : List (ServerEvent Nat Nat Nat) :=
  .begin 0 (.password 0) :: List.replicate 4 (.advance 0 0 none)

/-- A guest connects, and gives a wrong password three times. The third time a notice is raised. -/
def guessedThrice : List (ServerEvent Nat Nat Nat) :=
  [.connect, .pair, .loadVault 0] ++ guessed ++ guessed ++ guessed ++ [.advance 0 0 none]

/-- A daemon with the Tofu policy and an empty vault. -/
def tofuServer : Server Nat Nat Nat := start true false .tofu .empty .missing

/-- Three wrong guesses burn the wormhole that was guessed. -/
theorem messages_burn_guessed_wormhole :
    ∃ s, Exec.exec (Server.step Crypto.clear) tofuServer
        (.loopTest :: handled (.enableWormhole (some 7) false) ++ guessedThrice ++ [.recvFailure])
        = some s
      ∧ s.cleared = [(0, 0)] ∧ ∀ x ∈ s.cleared, x.1 = x.2 := by
  have hsome : (Exec.exec (Server.step Crypto.clear) tofuServer
      (.loopTest :: handled (.enableWormhole (some 7) false) ++ guessedThrice ++ [.recvFailure])).map
      (·.cleared) = some [(0, 0)] := by decide
  obtain ⟨s, hx, hc⟩ := Option.map_eq_some_iff.mp hsome
  exact ⟨s, hx, hc, messages_act_on_own_wormhole Crypto.clear (by decide) hx⟩

/-- Three wrong guesses at one wormhole, and a new one is enabled before the loop gets to the notice:
the new one is burned. -/
theorem message_burns_later_wormhole :
    (Exec.exec (Server.step Crypto.clear) tofuServer
      (.loopTest :: handled (.enableWormhole (some 7) false) ++ guessedThrice
        ++ handled (.enableWormhole (some 8) false) ++ [.recvFailure])).map
      (fun s => (s.cleared, s.active)) = some ([(0, 1)], none) := by
  decide

end Irosh.Proof
