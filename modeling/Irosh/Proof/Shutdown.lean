import Irosh.Server.Loop

/-!
# Graceful shutdown

After a shutdown has been requested the loop leaves when no session is active. It
looks at the session counter before and after its `select` only, and the counter
changes without a message. So the loop can sleep through the end of the last
session. With IPC disabled there is a second way to stay: the `ipc_shutdown`
channel has one place and no reader, so a second request blocks the loop for ever.

`Stuck` is stated over runs: whatever the loop, the IPC task, the notice tasks and
the expiry tasks do from here on, the loop stays parked. `WillWake` is the
invariant that rules it out.
-/

namespace Irosh.Proof

open Irosh Server UnifiedAuthenticator

variable {K H P : Type}

/-- A message waits in one of the four channels of the `select`. -/
def queued (s : Server K H P) : Bool :=
  s.shutdownQ || !s.controlQ.isEmpty || s.successQ.isSome || s.failureQ.isSome

/-- The loop is parked: in its `select` with all channels empty, or in `ipc_shutdown_tx.send` on a
full channel that nobody receives from. -/
def Parked (s : Server K H P) : Prop :=
  (s.pc = .select ∧ queued s = false) ∨ (s.pc = .ipcSend ∧ s.ipcRx = .unclaimed ∧ s.ipcQ = true)

/-- The steps of the loop, of the IPC task, and of the tasks the server has spawned. -/
def internal : ServerEvent K H P → Bool
  | .deliver _ | .expire _ | .ipcRecv | .ipcFail | .loopTest | .recvShutdown | .recvControl
  | .recvSuccess | .recvFailure | .ipcSent | .drained => true
  | _ => false

/-- **A shutdown has been requested, no session is left, and the loop stays parked whatever the
server still does.** -/
def Stuck [DecidableEq K] (c : Crypto K H P) (s : Server K H P) : Prop :=
  s.shutdownRequested = true ∧ s.activeSessions = 0 ∧
    ∀ es s', (∀ e ∈ es, internal e = true) → Exec.exec (Server.step c) s es = some s' → Parked s'

/-- A message waits or will come: a notice is being sent, or an expiry task is running. -/
def wakeable (s : Server K H P) : Bool :=
  queued s || !s.notify.isEmpty || s.heap.any (·.armed)

/-- The last session does not end while the loop, told to shut down, sits in its `select` with
nothing to wake it. -/
def EndsAudibly (s : Server K H P) : ServerEvent K H P → Bool
  | .disconnect =>
      !(s.shutdownRequested && s.pc == .select && s.activeSessions == 1) || wakeable s
  | _ => true

/-- The loop is about to request a shutdown. -/
def requests (s : Server K H P) : ServerEvent K H P → Bool
  | .recvShutdown => true
  | .recvControl =>
      match s.controlQ with
      | .request .shutdown :: _ => true
      | _ => false
  | .recvSuccess =>
      match s.active.bind (s.heap[·]?) with
      | some wh => !wh.persistent && s.shutdownOnWormholeSuccess
      | none => false
  | _ => false

/-- With IPC disabled, no shutdown is requested while an earlier request still fills the channel. -/
def RequestsOnce (s : Server K H P) (e : ServerEvent K H P) : Bool :=
  !(requests s e && s.ipcRx == .unclaimed && s.ipcQ)

/-! ## The invariant -/

/-- **A loop that should leave will get the chance to.** -/
structure WillWake (s : Server K H P) : Prop where
  wakes : s.pc = .select → s.shutdownRequested = true → s.activeSessions = 0 → wakeable s = true
  sends : s.pc = .ipcSend → s.ipcRx = .unclaimed → s.ipcQ = false

theorem willWake_start (ipc shutdown : Bool) (policy : HostKeyPolicy) (dir : ClientsDir K)
    (shadow : Shadow H) : WillWake (start ipc shutdown policy dir shadow : Server K H P) := by
  refine ⟨?_, ?_⟩ <;> intro h <;> cases h

/-- Away from the `select` and from the send there is nothing to show. -/
theorem willWake_of_pc {s : Server K H P} (h1 : s.pc ≠ .select) (h2 : s.pc ≠ .ipcSend) :
    WillWake s :=
  ⟨fun h => absurd h h1, fun h => absurd h h2⟩

/-- A step that leaves the loop where it is. -/
theorem willWake_of_same {s s' : Server K H P} (h : WillWake s) (hpc : s'.pc = s.pc)
    (hreq : s'.shutdownRequested = s.shutdownRequested)
    (hact : s'.activeSessions = 0 → s.activeSessions = 0)
    (hrx : s'.ipcRx = .unclaimed → s.ipcRx = .unclaimed ∧ s'.ipcQ = s.ipcQ)
    (hw : wakeable s = true → wakeable s' = true) : WillWake s' := by
  refine ⟨?_, ?_⟩
  · intro h1 h2 h3
    exact hw (h.wakes (hpc ▸ h1) (hreq ▸ h2) (hact h3))
  · intro h1 h2
    obtain ⟨hu, hq⟩ := hrx h2
    rw [hq]
    exact h.sends (hpc ▸ h1) hu

theorem wakeable_iff {s : Server K H P} : wakeable s = true ↔
    s.shutdownQ = true ∨ s.controlQ ≠ [] ∨ s.successQ ≠ none ∨ s.failureQ ≠ none
      ∨ s.notify ≠ [] ∨ ∃ w ∈ s.heap, w.armed = true := by
  simp [wakeable, queued, or_assoc, Option.isSome_iff_ne_none]

/-- A check takes no message back and stops no expiry task. -/
theorem wakeable_writeBack {s : Server K H P} {i : Nat} {p : PairingSession K P} {w : Wormhole H}
    {pc : Check K P} {a : UnifiedAuthenticator K H} (hi : s.sessionAt i = some (p, w))
    (h : wakeable s = true) : wakeable (s.writeBack i p w pc a) = true := by
  rw [wakeable_iff] at h ⊢
  rcases h with h | h | h | h | h | ⟨wh, hm, ha⟩
  · exact .inl h
  · exact .inr (.inl h)
  · exact .inr (.inr (.inl h))
  · refine .inr (.inr (.inr (.inl ?_)))
    show (if Notice.failure ∈ a.notices ∧ s.failureQ = none then some p.wid else s.failureQ) ≠ none
    split
    · simp
    · exact h
  · refine .inr (.inr (.inr (.inr (.inl ?_))))
    show s.notify ++ _ ≠ []
    exact fun he => h (List.append_eq_nil_iff.mp he).1
  · refine .inr (.inr (.inr (.inr (.inr ?_))))
    obtain ⟨_, hheap⟩ := sessionAt_eq_some hi
    obtain ⟨j, hj⟩ := List.mem_iff_getElem?.mp hm
    by_cases hpj : p.wid = j
    · -- the session's own wormhole keeps its expiry task
      subst hpj
      rw [hheap] at hj
      cases hj
      exact ⟨_, List.mem_iff_getElem?.mpr
        ⟨p.wid, List.getElem?_set_self (List.getElem?_eq_some_iff.mp hheap).1⟩, ha⟩
    · refine ⟨wh, List.mem_iff_getElem?.mpr ⟨j, ?_⟩, ha⟩
      show (s.heap.set p.wid _)[j]? = some wh
      rw [List.getElem?_set_ne hpj]
      exact hj

theorem takeWormhole_ipc (s : Server K H P) :
    s.takeWormhole.ipcRx = s.ipcRx ∧ s.takeWormhole.ipcQ = s.ipcQ := by
  unfold takeWormhole
  split <;> exact ⟨rfl, rfl⟩

theorem clearFor_ipc (w : Nat) (s : Server K H P) :
    (s.clearFor w).ipcRx = s.ipcRx ∧ (s.clearFor w).ipcQ = s.ipcQ := by
  unfold clearFor
  split
  · exact ⟨rfl, rfl⟩
  · exact takeWormhole_ipc s

/-- Entering the send on a channel that has room, or that somebody reads. -/
theorem willWake_requestShutdown {s : Server K H P} (h : s.ipcRx = .unclaimed → s.ipcQ = false) :
    WillWake s.requestShutdown := by
  refine ⟨?_, fun _ hu => h hu⟩
  intro hpc
  cases hpc

/-- What `RequestsOnce` says where a shutdown is requested. -/
theorem room_of_requestsOnce {s : Server K H P} {e : ServerEvent K H P}
    (hr : RequestsOnce s e = true) (he : requests s e = true) :
    s.ipcRx = .unclaimed → s.ipcQ = false := by
  intro hu
  simpa [RequestsOnce, he, hu] using hr

theorem willWake_handleControl {s : Server K H P} {m : Control H} {rest : List (Control H)}
    (hq : s.controlQ = m :: rest)
    (hr : RequestsOnce s (.recvControl : ServerEvent K H P) = true) :
    WillWake ({ s with controlQ := rest }.handleControl m) := by
  cases m with
  | expired w => exact willWake_of_pc (by simp [handleControl]) (by simp [handleControl])
  | request r =>
      cases r with
      | enableWormhole password persistent =>
          exact willWake_of_pc (by simp [handleControl]) (by simp [handleControl])
      | disableWormhole => exact willWake_of_pc (by simp [handleControl]) (by simp [handleControl])
      | getStatus => exact willWake_of_pc (by simp [handleControl]) (by simp [handleControl])
      | shutdown =>
          refine willWake_requestShutdown ?_
          intro hu
          simpa [RequestsOnce, requests, hq, show s.ipcRx = .unclaimed from hu] using hr

theorem willWake_handleSuccess {s : Server K H P} {w : Nat}
    (hr : RequestsOnce s (.recvSuccess : ServerEvent K H P) = true) :
    WillWake ({ s with successQ := none }.handleSuccess w) := by
  unfold handleSuccess
  split
  · exact willWake_of_pc (by simp) (by simp)
  · rename_i wh hwh
    split
    · exact willWake_of_pc (by simp) (by simp)
    · rename_i hpers
      split
      · rename_i hsd
        refine willWake_requestShutdown ?_
        intro hu
        have hipc := clearFor_ipc w { s with successQ := none }
        rw [hipc.1] at hu
        rw [hipc.2]
        have hwh' : s.active.bind (s.heap[·]?) = some wh := hwh
        have hsd' : s.shutdownOnWormholeSuccess = true := hsd
        simpa [RequestsOnce, requests, hwh', hpers, hsd', show s.ipcRx = .unclaimed from hu] using hr
      · exact willWake_of_pc (by simp) (by simp)

theorem not_parked_of_queued {s : Server K H P} (hpc : s.pc = .select) (hq : queued s = true) :
    ¬ Parked s := by
  rintro (⟨_, hn⟩ | ⟨hp, _⟩)
  · rw [hq] at hn; cases hn
  · rw [hpc] at hp; cases hp

variable [DecidableEq K]

/-- **Preserved by every event.** -/
theorem willWake_step {c : Crypto K H P} {s s' : Server K H P} {e : ServerEvent K H P}
    (h : WillWake s) (he : EndsAudibly s e = true) (hr : RequestsOnce s e = true)
    (hs : s.step c e = some s') : WillWake s' := by
  cases e with
  | signal =>
      simp only [step] at hs
      split at hs
      · cases hs
      · cases hs
        exact willWake_of_same h rfl rfl (fun h => h) (fun h => ⟨h, rfl⟩)
          (fun _ => wakeable_iff.mpr (.inl rfl))
  | command r =>
      simp only [step] at hs
      split at hs
      · cases hs
        exact willWake_of_same h rfl rfl (fun h => h) (fun h => ⟨h, rfl⟩)
          (fun _ => wakeable_iff.mpr (.inr (.inl (by simp))))
      · cases hs
  | connect =>
      cases hs
      exact willWake_of_same h rfl rfl (fun h => by cases h) (fun h => ⟨h, rfl⟩) (fun h => h)
  | disconnect =>
      simp only [step] at hs
      split at hs
      · rename_i hpos
        cases hs
        refine ⟨?_, h.sends⟩
        intro hpc hreq hact
        -- the last session ends while the loop is in its `select`
        have hone : s.activeSessions = 1 := by
          have : s.activeSessions - 1 = 0 := hact
          omega
        have hpc' : s.pc = .select := hpc
        have hreq' : s.shutdownRequested = true := hreq
        have hw : wakeable s = true := by simpa [EndsAudibly, hpc', hreq', hone] using he
        exact hw
      · cases hs
  | pair =>
      simp only [step] at hs
      obtain ⟨w, _, rfl⟩ := Option.map_eq_some_iff.mp hs
      exact willWake_of_same h rfl rfl (fun h => h) (fun h => ⟨h, rfl⟩) (fun h => h)
  | loadVault i =>
      simp only [step] at hs
      split at hs
      · split at hs
        · cases hs
        · cases hs
          exact willWake_of_same h rfl rfl (fun h => h) (fun h => ⟨h, rfl⟩) (fun h => h)
      · cases hs
  | begin i asked =>
      simp only [step] at hs
      split at hs
      · split at hs
        · cases hs
          exact willWake_of_same h rfl rfl (fun h => h) (fun h => ⟨h, rfl⟩) (fun h => h)
        · cases hs
      · cases hs
  | advance i now wr =>
      simp only [step] at hs
      split at hs
      · rename_i p w hi
        split at hs
        · obtain ⟨⟨pc', a⟩, _, rfl⟩ := Option.map_eq_some_iff.mp hs
          refine willWake_of_same h rfl rfl (fun h => h) (fun h => ⟨h, rfl⟩) ?_
          intro hw
          have hback : wakeable (s.writeBack i p w pc' a) = true := wakeable_writeBack hi hw
          exact hback
        · cases hs
      · cases hs
  | disk dir shadow =>
      cases hs
      exact willWake_of_same h rfl rfl (fun h => h) (fun h => ⟨h, rfl⟩) (fun h => h)
  | deliver j =>
      simp only [step] at hs
      split at hs
      · cases hs
        exact willWake_of_same h rfl rfl (fun h => h) (fun h => ⟨h, rfl⟩)
          (fun _ => wakeable_iff.mpr (.inr (.inr (.inl (by simp)))))
      · cases hs
  | expire w =>
      simp only [step] at hs
      split at hs
      · split at hs
        · cases hs
          exact willWake_of_same h rfl rfl (fun h => h) (fun h => ⟨h, rfl⟩)
            (fun _ => wakeable_iff.mpr (.inr (.inl (by simp))))
        · cases hs
      · cases hs
  | ipcRecv =>
      simp only [step] at hs
      split at hs
      · cases hs
        exact willWake_of_same h rfl rfl (fun h => h) (fun h => by cases h) (fun h => h)
      · cases hs
  | ipcFail =>
      simp only [step] at hs
      split at hs
      · cases hs
        exact willWake_of_same h rfl rfl (fun h => h) (fun h => by cases h) (fun h => h)
      · cases hs
  | loopTest =>
      simp only [step] at hs
      split at hs
      · cases hs
        refine ⟨?_, ?_⟩
        · intro hpc hreq hact
          -- the test has just found that the loop must not leave yet
          have hreq' : s.shutdownRequested = true := hreq
          have hact' : s.activeSessions = 0 := hact
          have hexit : s.mayExit = true := by simp [mayExit, hreq', hact']
          rw [hexit] at hpc
          cases hpc
        · intro hpc
          dsimp only at hpc
          split at hpc <;> cases hpc
      · cases hs
        refine willWake_of_pc ?_ ?_ <;> dsimp only <;> split <;> simp
      · cases hs
  | recvShutdown =>
      simp only [step] at hs
      split at hs
      · cases hs
        have hroom := room_of_requestsOnce hr rfl
        exact willWake_requestShutdown (fun hu => hroom hu)
      · cases hs
  | recvControl =>
      simp only [step] at hs
      split at hs
      · rename_i m rest _ hq
        cases hs
        exact willWake_handleControl hq hr
      · cases hs
  | recvSuccess =>
      simp only [step] at hs
      split at hs
      · cases hs
        exact willWake_handleSuccess hr
      · cases hs
  | recvFailure =>
      simp only [step] at hs
      split at hs
      · cases hs
        exact willWake_of_pc (by simp [handleFailure]) (by simp [handleFailure])
      · cases hs
  | ipcSent =>
      simp only [step] at hs
      split at hs
      · split at hs
        · cases hs
          exact willWake_of_pc (by simp) (by simp)
        · split at hs
          · cases hs
          · cases hs
            exact willWake_of_pc (by simp) (by simp)
      · cases hs
  | drained =>
      simp only [step] at hs
      split at hs
      · cases hs
        exact willWake_of_pc (by simp) (by simp)
      · cases hs

/-! ## No stuck state -/

theorem Stuck.parked {c : Crypto K H P} {s : Server K H P} (h : Stuck c s) : Parked s :=
  h.2.2 [] s (by simp) rfl

theorem Stuck.parked_step {c : Crypto K H P} {s s' : Server K H P} {e : ServerEvent K H P}
    (h : Stuck c s) (he : internal e = true) (hs : s.step c e = some s') : Parked s' :=
  h.2.2 [e] s' (by simpa using he) (by rw [Exec.exec_cons, hs]; rfl)

/-- Whatever is under way can reach the loop. -/
theorem not_stuck_of_willWake {c : Crypto K H P} {s : Server K H P} (h : WillWake s) :
    ¬ Stuck c s := by
  intro hstuck
  rcases hstuck.parked with ⟨hpc, hq⟩ | ⟨hpc, hu, hfull⟩
  · have hempty : s.controlQ = [] ∧ s.successQ = none := by
      simp only [queued, Bool.or_eq_false_iff, Bool.not_eq_false', List.isEmpty_iff,
        Option.isSome_eq_false_iff, Option.isNone_iff_eq_none] at hq
      exact ⟨hq.1.1.2, hq.1.2⟩
    have hw : s.notify ≠ [] ∨ ∃ w ∈ s.heap, w.armed = true := by
      have := h.wakes hpc hstuck.1 hstuck.2.1
      simpa [wakeable, hq] using this
    rcases hw with hn | ⟨wh, hm, ha⟩
    · -- a notice is on its way, and there is room for it
      obtain ⟨w, hw⟩ : ∃ w, s.notify[0]? = some w :=
        ⟨s.notify.head hn, by rw [← List.head?_eq_getElem?, List.head?_eq_some_head]⟩
      have hs : s.step c (.deliver 0)
          = some { s with notify := s.notify.eraseIdx 0, successQ := some w } := by
        simp [step, hw, hempty.2]
      exact not_parked_of_queued (by exact hpc) (by simp [queued]) (hstuck.parked_step rfl hs)
    · -- an expiry task is running, and there is room for its message
      obtain ⟨j, hj⟩ := List.mem_iff_getElem?.mp hm
      have hs : s.step c (.expire j) = some { s with
          heap := s.heap.modify j Wormhole.disarm, controlQ := s.controlQ ++ [.expired j] } := by
        simp [step, hj, ha, hempty.1]
      exact not_parked_of_queued (by exact hpc) (by simp [queued]) (hstuck.parked_step rfl hs)
  · rw [h.sends hpc hu] at hfull
    cases hfull

/--
**Graceful shutdown does not get stuck**, with or without IPC, in every run in
which the last session does not end behind the back of a waiting loop, and in
which, without IPC, no second shutdown is requested while the first fills the
channel.
-/
theorem shutdown_never_stuck (c : Crypto K H P) {ipc shutdown : Bool} {policy : HostKeyPolicy}
    {dir : ClientsDir K} {shadow : Shadow H} {es : List (ServerEvent K H P)} {s : Server K H P}
    (hm : Exec.Meets (Server.step c)
      (fun q e => EndsAudibly q e = true ∧ RequestsOnce q e = true)
      (start ipc shutdown policy dir shadow) es)
    (hx : Exec.exec (Server.step c) (start ipc shutdown policy dir shadow) es = some s) :
    ¬ Stuck c s := by
  have hinv : WillWake s :=
    Exec.exec_invariant (I := WillWake) (fun q e q' hi hg hs => willWake_step hi hg.1 hg.2 hs)
      (willWake_start ipc shutdown policy dir shadow) hm hx
  exact not_stuck_of_willWake hinv

/-! ## Two ways to get stuck -/

/-- In the `select`, with nothing queued and nobody to queue anything. -/
structure Deaf (s : Server K H P) : Prop where
  pc : s.pc = .select
  empty : s.shutdownQ = false ∧ s.controlQ = [] ∧ s.successQ = none ∧ s.failureQ = none
  quiet : s.notify = []
  unarmed : ∀ w ∈ s.heap, w.armed = false

/-- A deaf loop stays deaf: only the IPC task can still move. -/
theorem deaf_step {c : Crypto K H P} {s s' : Server K H P} {e : ServerEvent K H P} (h : Deaf s)
    (he : internal e = true) (hs : s.step c e = some s') : Deaf s' := by
  obtain ⟨hpc, ⟨h1, h2, h3, h4⟩, hn, hw⟩ := h
  cases e with
  | ipcRecv =>
      simp only [step] at hs
      split at hs
      · cases hs; exact ⟨hpc, ⟨h1, h2, h3, h4⟩, hn, hw⟩
      · cases hs
  | ipcFail =>
      simp only [step] at hs
      split at hs
      · cases hs; exact ⟨hpc, ⟨h1, h2, h3, h4⟩, hn, hw⟩
      · cases hs
  | deliver j => simp [step, hn] at hs
  | expire w =>
      simp only [step] at hs
      split at hs
      · rename_i wh hj
        rw [if_neg (by simp [hw wh (List.mem_of_getElem? hj)])] at hs
        cases hs
      · cases hs
  | loopTest => simp [step, hpc] at hs
  | recvShutdown => simp [step, h1] at hs
  | recvControl => simp [step, h2] at hs
  | recvSuccess => simp [step, h3] at hs
  | recvFailure => simp [step, h4] at hs
  | ipcSent => simp [step, hpc] at hs
  | drained => simp [step, hpc] at hs
  | _ => cases he

theorem stuck_of_deaf {c : Crypto K H P} {s : Server K H P} (h : Deaf s)
    (hreq : s.shutdownRequested = true) (hact : s.activeSessions = 0) : Stuck c s := by
  refine ⟨hreq, hact, ?_⟩
  intro es s' hint hx
  have hdeaf : Deaf s' :=
    Exec.exec_invariant (I := Deaf) (G := fun _ e => internal e = true)
      (fun q e q' hi hg hs => deaf_step hi hg hs) h
      (Exec.meets_of_forall_mem fun e he _ => hint e he) hx
  obtain ⟨h1, h2, h3, h4⟩ := hdeaf.empty
  exact .inl ⟨hdeaf.pc, by simp [queued, h1, h2, h3, h4]⟩

/-- In the send on a full channel without a reader. -/
def Blocked (s : Server K H P) : Prop :=
  s.pc = .ipcSend ∧ s.ipcRx = .unclaimed ∧ s.ipcQ = true

/-- A blocked loop stays blocked, whatever happens elsewhere. -/
theorem blocked_step {c : Crypto K H P} {s s' : Server K H P} {e : ServerEvent K H P} (h : Blocked s)
    (he : internal e = true) (hs : s.step c e = some s') : Blocked s' := by
  obtain ⟨hpc, hrx, hq⟩ := h
  cases e with
  | ipcRecv => simp [step, hrx] at hs
  | ipcFail => simp [step, hrx] at hs
  | deliver j =>
      simp only [step] at hs
      split at hs
      · cases hs; exact ⟨hpc, hrx, hq⟩
      · cases hs
  | expire w =>
      simp only [step] at hs
      split at hs
      · split at hs
        · cases hs; exact ⟨hpc, hrx, hq⟩
        · cases hs
      · cases hs
  | loopTest => simp [step, hpc] at hs
  | recvShutdown => simp [step, hpc] at hs
  | recvControl => simp [step, hpc] at hs
  | recvSuccess => simp [step, hpc] at hs
  | recvFailure => simp [step, hpc] at hs
  | ipcSent => simp [step, hrx, hq] at hs
  | drained => simp [step, hpc] at hs
  | _ => cases he

theorem stuck_of_blocked {c : Crypto K H P} {s : Server K H P} (h : Blocked s)
    (hreq : s.shutdownRequested = true) (hact : s.activeSessions = 0) : Stuck c s := by
  refine ⟨hreq, hact, ?_⟩
  intro es s' hint hx
  exact .inr (Exec.exec_invariant (I := Blocked) (G := fun _ e => internal e = true)
    (fun q e q' hi hg hs => blocked_step hi hg hs) h
    (Exec.meets_of_forall_mem fun e he _ => hint e he) hx)

/-- One session, and the shutdown is requested when it has ended. -/
def orderly : List (ServerEvent Nat Nat Nat) :=
  [.loopTest, .connect, .disconnect, .signal, .recvShutdown, .ipcSent, .loopTest, .drained]

/-- The loop leaves. -/
theorem shutdown_orderly :
    ∃ s, Exec.exec (Server.step Crypto.clear) (start true false .tofu .empty .missing) orderly
        = some s ∧ s.pc = .exited ∧ ¬ Stuck Crypto.clear s := by
  have hsome : (Exec.exec (Server.step Crypto.clear) (start true false .tofu .empty .missing)
      orderly).map (·.pc) = some .exited := by decide
  obtain ⟨s, hx, hp⟩ := Option.map_eq_some_iff.mp hsome
  exact ⟨s, hx, hp, shutdown_never_stuck Crypto.clear (by decide) hx⟩

/-- The loop handles a shutdown signal and goes back to its `select`. -/
def signalled : List (ServerEvent Nat Nat Nat) :=
  [.signal, .recvShutdown, .ipcSent, .loopTest, .loopTest]

/-- With IPC, a signal while a session is active, and then the session ends. Without IPC, two signals
while a session is active, and then the session ends. No pairing session is left in either. -/
theorem shutdown_stuck :
    (∃ s, Exec.exec (Server.step Crypto.clear) (start true false .tofu .empty .missing)
        ([.loopTest, .connect] ++ signalled ++ [.ipcRecv, .disconnect]) = some s
      ∧ s.sessions = [] ∧ Stuck Crypto.clear s)
    ∧ ∃ s, Exec.exec (Server.step Crypto.clear) (start false false .tofu .empty .missing)
        ([.loopTest, .connect] ++ signalled ++ [.signal, .recvShutdown, .disconnect]) = some s
      ∧ s.sessions = [] ∧ Stuck Crypto.clear s := by
  refine ⟨⟨{ start true false .tofu .empty .missing with
      pc := .select, shutdownRequested := true, ipcRx := .gone }, by decide, rfl, ?_⟩,
    ⟨{ start false false .tofu .empty .missing with
      pc := .ipcSend, shutdownRequested := true, ipcQ := true }, by decide, rfl, ?_⟩⟩
  · exact stuck_of_deaf ⟨rfl, ⟨rfl, rfl, rfl, rfl⟩, rfl, by simp [start]⟩ rfl rfl
  · exact stuck_of_blocked ⟨rfl, rfl, rfl⟩ rfl rfl

end Irosh.Proof
