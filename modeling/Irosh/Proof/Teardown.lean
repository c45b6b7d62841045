import Irosh.Lib.Exec
import Irosh.Proof.ShellSlot

/-!
# No process outlives its connection

A process that a connection has started is in the slot of its channel for as long as it
runs, where closing the channel finds it. Two ways lead out: a start that fails behind the
spawn, with a process that survives its terminal, and a wait that is given up. Nothing
else does, if no command is started on a channel whose last task is still there: such a
task takes the new process out of the table when it ends.
-/

namespace Irosh.Proof

open Irosh Function ServerHandler Exec

/-- A connection, and the processes that were let go of while they ran. -/
structure ProcessLog where
  handler : ServerHandler
  escaped : List Child

/-- Nothing fails between the spawn and the filling of the slot. -/
def attaches (sys : Spawning) : Bool :=
  sys.cloneReader.isOk && sys.takeWriter.isOk && sys.spawnWriter.isOk

/-- The process that a start lets go of. -/
def letGo (sys : Spawning) (channel : ChannelId) (command : Option String) (h : ServerHandler) : List Child :=
  if attaches sys || sys.hangsUp then [] else (startedChild sys channel command h).toList

namespace ProcessLog

def new (fallback : PtySize) : ProcessLog := ⟨ServerHandler.new fallback, []⟩

/-- The processes that an event lets go of. -/
def escapes (w : ProcessLog) : ChannelEvent → List Child
  | .shell channel sys => letGo sys channel none w.handler
  | .exec channel command sys => letGo sys channel (some command) w.handler
  | .taskEnds t exited => if exited then [] else [t.child]
  | _ => []

def step (w : ProcessLog) (e : ChannelEvent) : Option ProcessLog :=
  (w.handler.step e).map fun handler => ⟨handler, w.escapes e ++ w.escaped⟩

/-- A start makes a process that is not running yet, on a channel whose last task has ended. -/
def Afresh (sys : Spawning) (channel : ChannelId) (command : Option String) (h : ServerHandler) : Prop :=
  ∀ child, startedChild sys channel command h = some child →
    child ∉ h.running ∧ ∀ t ∈ h.tasks, t.channel ≠ channel

def StartsAfresh (w : ProcessLog) : ChannelEvent → Prop
  | .shell channel sys => Afresh sys channel none w.handler
  | .exec channel command sys => Afresh sys channel (some command) w.handler
  | _ => True

end ProcessLog

/-! ## Slots -/

section Slots

variable {h : ServerHandler} {channel other : ChannelId} {child x : Child}

/-- Whose process is in a channel's slot. -/
def slotChild (h : ServerHandler) (channel : ChannelId) : Option Child := (h.processAt channel).map (·.child)

theorem slotChild_orDefault : slotChild (h.orDefault channel) other = slotChild h other := by
  rw [slotChild, processAt_orDefault]
  rfl

/-- A request that leaves the process alone. -/
theorem slotChild_modifyChannel {f : ChannelState → ChannelState}
    (hf : ∀ state, (f state).process.map (·.child) = state.process.map (·.child)) :
    slotChild (h.modifyChannel channel f) other = slotChild h other := by
  by_cases heq : other = channel
  · subst heq
    cases hentry : h.channels other with
    | none => simp [slotChild, processAt, modifyChannel, hentry]
    | some state =>
        have hstate := hf state
        simpa [slotChild, processAt, modifyChannel, hentry] using hstate
  · simp [slotChild, processAt, modifyChannel, update_of_ne heq]

theorem slotChild_removed (hchannels : h.channels channel = none) : slotChild h channel = none := by
  simp [slotChild, processAt, hchannels]

theorem slotChild_removeChannel_of_ne (hne : other ≠ channel) :
    slotChild (h.removeChannel channel) other = slotChild h other := by
  simp [slotChild, processAt, removeChannel, update_of_ne hne]

theorem slotChild_setProcess (hentry : (h.channels channel).isSome = true) :
    slotChild (h.setProcess channel child) channel = some child := by
  obtain ⟨state, hstate⟩ := Option.isSome_iff_exists.mp hentry
  simp [slotChild, processAt, setProcess, modifyChannel, hstate]

theorem slotChild_setProcess_of_ne (hne : other ≠ channel) :
    slotChild (h.setProcess channel child) other = slotChild h other := by
  simp [slotChild, processAt, setProcess, modifyChannel, update_of_ne hne]

end Slots

/-! ## What is kept -/

namespace ProcessLog

/-- Every running process is in a slot or was let go of, and a task's channel has its own process in
the slot, if any. -/
structure Held (w : ProcessLog) : Prop where
  running : ∀ x ∈ w.handler.running, (∃ channel, slotChild w.handler channel = some x) ∨ x ∈ w.escaped
  tasks : ∀ t ∈ w.handler.tasks, ∀ x, slotChild w.handler t.channel = some x → x = t.child
  nodup : w.handler.running.Nodup

theorem held_new (fallback : PtySize) : (new fallback).Held where
  running _ h := by cases h
  tasks _ h := by cases h
  nodup := List.nodup_nil

variable {w : ProcessLog} {h : ServerHandler} {channel : ChannelId}

/-- The same processes in the same slots. -/
theorem Held.same (hw : w.Held) (hslots : ∀ c, slotChild h c = slotChild w.handler c)
    (hrunning : h.running = w.handler.running) (htasks : h.tasks = w.handler.tasks) :
    Held ⟨h, w.escaped⟩ := by
  refine ⟨fun x hx => ?_, fun t ht x hx => hw.tasks t (htasks ▸ ht) x (hslots _ ▸ hx), ?_⟩
  · rcases hw.running x (hrunning ▸ hx) with ⟨c, hc⟩ | hesc
    · exact .inl ⟨c, (hslots c).trans hc⟩
    · exact .inr hesc
  · show h.running.Nodup
    rw [hrunning]
    exact hw.nodup

theorem Held.onChannel (hw : w.Held) {f : ChannelState → ChannelState} (sent : Except String Unit)
    (hf : ∀ state, (f state).process.map (·.child) = state.process.map (·.child)) :
    Held ⟨(ServerHandler.onChannel channel f sent w.handler).1, w.escaped⟩ := by
  unfold ServerHandler.onChannel
  split
  · exact hw
  · exact hw.same (fun c => slotChild_modifyChannel hf) rfl rfl

/-- A channel's entry goes, and with it its process. -/
theorem Held.closeChannel (hw : w.Held) (channel : ChannelId) :
    Held ⟨ServerHandler.closeChannel channel w.handler, w.escaped⟩ := by
  unfold ServerHandler.closeChannel
  cases hslot : w.handler.processAt channel with
  | none =>
      have hnone : slotChild w.handler channel = none := by rw [slotChild, hslot]; rfl
      refine hw.same (fun c => ?_) rfl rfl
      by_cases heq : c = channel
      · rw [heq, hnone]
        exact slotChild_removed (update_self ..)
      · exact slotChild_removeChannel_of_ne heq
  | some process =>
      have hchild : slotChild w.handler channel = some process.child := by rw [slotChild, hslot]; rfl
      have hslots :
          ∀ c, slotChild ((w.handler.removeChannel channel).clearShellPidIfMatches process.child.pid) c
          = slotChild (w.handler.removeChannel channel) c := by
        intro c
        simp only [slotChild, processAt, clearShellPidIfMatches_channels]
      have hgone : slotChild (w.handler.removeChannel channel) channel = none :=
        slotChild_removed (update_self ..)
      refine ⟨fun x hx => ?_, fun t ht x hx => ?_, ?_⟩
      · have hx' : x ∈ w.handler.running.erase process.child := by simpa using hx
        obtain ⟨hne, hmem⟩ := (List.Nodup.mem_erase_iff hw.nodup).mp hx'
        rcases hw.running x hmem with ⟨c, hc⟩ | hesc
        · refine .inl ⟨c, ?_⟩
          have hother : c ≠ channel := by
            rintro rfl
            rw [hchild] at hc
            exact hne (Option.some.inj hc).symm
          exact (hslots c).trans ((slotChild_removeChannel_of_ne hother).trans hc)
        · exact .inr hesc
      · have hx' : slotChild (w.handler.removeChannel channel) t.channel = some x := (hslots _).symm.trans hx
        by_cases heq : t.channel = channel
        · rw [heq, hgone] at hx'
          cases hx'
        · rw [slotChild_removeChannel_of_ne heq] at hx'
          exact hw.tasks t (by simpa using ht) x hx'
      · have hnodup := hw.nodup.erase process.child
        simpa using hnodup

/-- A task ends, and its channel's entry goes. -/
theorem Held.cleanup (hw : w.Held) {t : ReaderTask} (ht : t ∈ w.handler.tasks) (exited : Bool) :
    Held ⟨ServerHandler.cleanup t exited w.handler, w.escapes (.taskEnds t exited) ++ w.escaped⟩ := by
  have hslots : ∀ c, slotChild (ServerHandler.cleanup t exited w.handler) c
      = slotChild (w.handler.removeChannel t.channel) c := by
    intro c
    simp [slotChild, processAt, ServerHandler.cleanup, removeChannel]
  have hgone : slotChild (w.handler.removeChannel t.channel) t.channel = none :=
    slotChild_removed (update_self ..)
  have hkept : ∀ x, x ∈ w.handler.running → x ≠ t.child →
      (∃ c, slotChild (ServerHandler.cleanup t exited w.handler) c = some x) ∨ x ∈ w.escaped := by
    intro x hmem hne
    rcases hw.running x hmem with ⟨c, hc⟩ | hesc
    · refine .inl ⟨c, ?_⟩
      have hother : c ≠ t.channel := by
        rintro rfl
        exact hne (hw.tasks t ht x hc)
      exact (hslots c).trans ((slotChild_removeChannel_of_ne hother).trans hc)
    · exact .inr hesc
  refine ⟨fun x hx => ?_, fun t' ht' x hx => ?_, ?_⟩
  · cases exited with
    | true =>
        have hx' : x ∈ w.handler.running.erase t.child := by simpa [ServerHandler.cleanup] using hx
        obtain ⟨hne, hmem⟩ := (List.Nodup.mem_erase_iff hw.nodup).mp hx'
        exact hkept x hmem hne
    | false =>
        have hmem : x ∈ w.handler.running := by simpa [ServerHandler.cleanup] using hx
        by_cases heq : x = t.child
        · -- the wait was given up, and the process runs on
          rw [heq]
          exact .inr List.mem_cons_self
        · exact (hkept x hmem heq).imp id (List.mem_append_right _)
  · have ht'' : t' ∈ w.handler.tasks := by
      simp only [ServerHandler.cleanup, removeChannel_tasks, clearShellPidIfMatches_tasks] at ht'
      exact List.mem_of_mem_erase ht'
    have hx' := (hslots _).symm.trans hx
    by_cases heq : t'.channel = t.channel
    · rw [heq, hgone] at hx'
      cases hx'
    · rw [slotChild_removeChannel_of_ne heq] at hx'
      exact hw.tasks t' ht'' x hx'
  · have hnodup := hw.nodup.erase t.child
    have hall := hw.nodup
    cases exited with
    | true => simpa [ServerHandler.cleanup] using hnodup
    | false => simpa [ServerHandler.cleanup] using hall

/-- What becomes of a process that has been spawned: it is let go of, or in its slot, with or without a
task that waits for it. -/
theorem superviseChild_cases (sys : Spawning) (child : Child) (h : ServerHandler) :
    attaches sys = false ∧ (superviseChild sys channel child h).1 = h.dropTerminal sys child
      ∨ attaches sys = true ∧ ((superviseChild sys channel child h).1 = h.setProcess channel child
          ∨ (superviseChild sys channel child h).1 = (h.setProcess channel child).addTask channel child) := by
  unfold superviseChild attaches
  cases sys.cloneReader with
  | error e => exact .inl ⟨rfl, rfl⟩
  | ok u =>
    cases sys.takeWriter with
    | error e => exact .inl ⟨rfl, rfl⟩
    | ok u =>
      cases sys.spawnWriter with
      | error e => exact .inl ⟨rfl, rfl⟩
      | ok u =>
        cases sys.confirm with
        | error e => exact .inr ⟨rfl, .inl rfl⟩
        | ok u => exact .inr ⟨rfl, .inr rfl⟩

/-- A process is started only on a channel without one. -/
theorem slotChild_startedChild {sys : Spawning} {command : Option String} {child : Child}
    (hstarted : startedChild sys channel command h = some child) : slotChild h channel = none := by
  unfold startedChild at hstarted
  dsimp only at hstarted
  split at hstarted
  · cases hstarted
  · rename_i hfree
    rw [entry_process] at hfree
    rw [slotChild, Option.not_isSome_iff_eq_none.mp hfree]
    rfl

/-- A process has been spawned, and nothing else has happened yet. -/
structure Spawned (w : ProcessLog) (child : Child) (h : ServerHandler) : Prop where
  slots : ∀ c, slotChild h c = slotChild w.handler c
  running : h.running = child :: w.handler.running
  tasks : h.tasks = w.handler.tasks
  new : child ∉ w.handler.running

theorem spawned_registered {child : Child} (command : Option String) (hnew : child ∉ w.handler.running) :
    Spawned w child ((w.handler.orDefault channel).registered command child) where
  slots c := by
    have horder : slotChild (w.handler.orDefault channel) c = slotChild w.handler c := slotChild_orDefault
    rw [← horder]
    simp only [slotChild, processAt, registered_channels]
  running := by rw [registered_running, orDefault_running]
  tasks := by rw [registered_tasks, orDefault_tasks]
  new := hnew

/-- It is let go of, and ends with its terminal or escapes. -/
theorem Held.dropped {child : Child} (hw : w.Held) (hspawned : Spawned w child h) (sys : Spawning) :
    Held ⟨h.dropTerminal sys child, (if sys.hangsUp then [] else [child]) ++ w.escaped⟩ := by
  have hslots : ∀ c, slotChild (h.dropTerminal sys child) c = slotChild w.handler c := by
    intro c
    rw [← hspawned.slots]
    simp only [slotChild, processAt, dropTerminal_channels]
  have hrunning : (h.dropTerminal sys child).running
      = if sys.hangsUp then w.handler.running else child :: w.handler.running := by
    rw [dropTerminal_running, hspawned.running, List.erase_cons_head]
  have htasks : (h.dropTerminal sys child).tasks = w.handler.tasks := by
    rw [dropTerminal_tasks, hspawned.tasks]
  have hold : ∀ x, x ∈ w.handler.running →
      (∃ c, slotChild (h.dropTerminal sys child) c = some x) ∨ x ∈ w.escaped := by
    intro x hmem
    refine (hw.running x hmem).imp ?_ id
    rintro ⟨c, hc⟩
    exact ⟨c, (hslots c).trans hc⟩
  refine ⟨fun x hx => ?_, fun t ht x hx => ?_, ?_⟩
  · have hx' : x ∈ (h.dropTerminal sys child).running := hx
    rw [hrunning] at hx'
    cases hends : sys.hangsUp with
    | true =>
        rw [hends] at hx'
        exact hold x hx'
    | false =>
        rw [hends] at hx'
        rcases List.mem_cons.mp hx' with rfl | hmem
        · exact .inr List.mem_cons_self
        · exact (hold x hmem).imp id (List.mem_append_right _)
  · exact hw.tasks t (htasks ▸ ht) x ((hslots _).symm.trans hx)
  · show (h.dropTerminal sys child).running.Nodup
    rw [hrunning]
    split
    · exact hw.nodup
    · exact List.nodup_cons.mpr ⟨hspawned.new, hw.nodup⟩

/-- It is put into the free slot of a channel without a task. -/
theorem Held.filled {child : Child} (hw : w.Held) (hspawned : Spawned w child h)
    (hentry : (h.channels channel).isSome = true) (hfree : slotChild w.handler channel = none)
    (hlast : ∀ t ∈ w.handler.tasks, t.channel ≠ channel) :
    Held ⟨h.setProcess channel child, w.escaped⟩ := by
  refine ⟨fun x hx => ?_, fun t ht x hx => ?_, ?_⟩
  · have hx' : x ∈ h.running := hx
    rw [hspawned.running] at hx'
    rcases List.mem_cons.mp hx' with rfl | hmem
    · exact .inl ⟨channel, slotChild_setProcess hentry⟩
    · refine (hw.running x hmem).imp ?_ id
      rintro ⟨c, hc⟩
      have hother : c ≠ channel := by
        rintro rfl
        rw [hfree] at hc
        cases hc
      exact ⟨c, (slotChild_setProcess_of_ne hother).trans ((hspawned.slots c).trans hc)⟩
  · have ht' : t ∈ h.tasks := ht
    rw [hspawned.tasks] at ht'
    have hx' := (slotChild_setProcess_of_ne (hlast t ht')).symm.trans hx
    exact hw.tasks t ht' x ((hspawned.slots _).symm.trans hx')
  · show h.running.Nodup
    rw [hspawned.running]
    exact List.nodup_cons.mpr ⟨hspawned.new, hw.nodup⟩

theorem Held.start (hw : w.Held) (sys : Spawning) (channel : ChannelId) (command : Option String)
    (hfresh : Afresh sys channel command w.handler) :
    Held ⟨(startCommand sys channel command w.handler).1,
      letGo sys channel command w.handler ++ w.escaped⟩ := by
  obtain ⟨child, hstarted, heq⟩ | ⟨hnone, heq⟩ := startCommand_eq sys channel command w.handler
  · obtain ⟨hnew, hlast⟩ := hfresh child hstarted
    have hspawned : Spawned w child ((w.handler.orDefault channel).registered command child) :=
      spawned_registered command hnew
    rw [heq]
    rcases @superviseChild_cases channel sys child
        ((w.handler.orDefault channel).registered command child) with ⟨hattach, hdrop⟩ | ⟨hattach, hset⟩
    · have hgo : letGo sys channel command w.handler = if sys.hangsUp then [] else [child] := by
        rw [letGo, hattach, Bool.false_or, hstarted]
        rfl
      rw [hdrop, hgo]
      exact hw.dropped hspawned sys
    · have hgo : letGo sys channel command w.handler = [] := by
        rw [letGo, hattach, Bool.true_or]
        rfl
      have hentry :
          (((w.handler.orDefault channel).registered command child).channels channel).isSome = true := by
        rw [registered_channels]
        simp [orDefault]
      have hfilled := hw.filled hspawned hentry (slotChild_startedChild hstarted) hlast
      rw [hgo, List.nil_append]
      rcases hset with hset | hset
      · rw [hset]
        exact hfilled
      · rw [hset]
        refine ⟨hfilled.running, fun t ht x hx => ?_, hfilled.nodup⟩
        rcases List.mem_cons.mp ht with rfl | hmem
        · exact (Option.some.inj ((slotChild_setProcess hentry).symm.trans hx)).symm
        · exact hfilled.tasks t hmem x hx
  · have hgo : letGo sys channel command w.handler = [] := by
      rw [letGo, hnone]
      exact ite_self _
    rw [heq, hgo, List.nil_append]
    exact hw.same (fun c => slotChild_orDefault) rfl rfl

/-- **Every step keeps it.** -/
theorem Held.step {w' : ProcessLog} {e : ChannelEvent} (hw : w.Held) (hfresh : w.StartsAfresh e)
    (hs : w.step e = some w') : w'.Held := by
  obtain ⟨h, hstep, hw'⟩ := Option.map_eq_some_iff.mp hs
  subst hw'
  cases e with
  | openSession channel =>
      cases hstep
      exact hw.same (fun c => slotChild_orDefault) rfl rfl
  | openDirectTcpip channel =>
      cases hstep
      exact hw.same (fun c => rfl) rfl rfl
  | pty channel term c r p q modes sent =>
      cases hstep
      exact hw.onChannel sent fun _ => rfl
  | env channel name value sent =>
      cases hstep
      exact hw.onChannel sent fun _ => rfl
  | windowChange channel c r p q sent =>
      cases hstep
      exact hw.onChannel sent fun _ => rfl
  | shell channel sys =>
      cases hstep
      exact hw.start sys channel none hfresh
  | exec channel command sys =>
      cases hstep
      exact hw.start sys channel (some command) hfresh
  | data channel bytes | signal channel =>
      cases hstep
      exact hw
  | eof channel =>
      cases hstep
      refine hw.same (fun c => slotChild_modifyChannel fun state => ?_) rfl rfl
      cases state.process <;> rfl
  | close channel =>
      cases hstep
      exact Held.closeChannel
        (w := ⟨{ w.handler with streamed := w.handler.streamed.filter (· != channel) }, w.escaped⟩)
        (hw.same (fun c => rfl) rfl rfl) channel
  | taskEnds t exited =>
      dsimp only [ServerHandler.step] at hstep
      split at hstep
      · rename_i ht
        cases hstep
        exact hw.cleanup ht exited
      · cases hstep
  | sweep channel =>
      cases hstep
      exact hw.closeChannel channel

/-! ## The end of the session -/

/-- What still happens when the session is over: `terminate_all_channels` goes through the table, and
tasks end. -/
def Ending (e : ChannelEvent) : Prop := (∃ channel, e = .sweep channel) ∨ ∃ t exited, e = .taskEnds t exited

theorem closeChannel_channels (channel : ChannelId) (h : ServerHandler) :
    (ServerHandler.closeChannel channel h).channels = update h.channels channel none := by
  unfold ServerHandler.closeChannel
  cases h.processAt channel with
  | none => rfl
  | some process => exact clearShellPidIfMatches_channels _ _

theorem cleanup_channels (t : ReaderTask) (exited : Bool) (h : ServerHandler) :
    (ServerHandler.cleanup t exited h).channels = update h.channels t.channel none := by
  simp [ServerHandler.cleanup, removeChannel]

theorem ending_step {w' : ProcessLog} {e : ChannelEvent} (he : Ending e) (hs : w.step e = some w')
    (c : ChannelId) :
    (w.handler.channels c = none → w'.handler.channels c = none)
      ∧ (e = .sweep c → w'.handler.channels c = none) := by
  obtain ⟨h, hstep, rfl⟩ := Option.map_eq_some_iff.mp hs
  have hupdate (channel : ChannelId) (hnone : w.handler.channels c = none) :
      update w.handler.channels channel none c = none := by
    by_cases heq : c = channel
    · rw [heq]
      exact update_self ..
    · rw [update_of_ne heq]
      exact hnone
  rcases he with ⟨channel, rfl⟩ | ⟨t, exited, rfl⟩
  · cases hstep
    rw [closeChannel_channels]
    refine ⟨hupdate channel, fun heq => ?_⟩
    cases heq
    exact update_self ..
  · dsimp only [ServerHandler.step] at hstep
    split at hstep
    · cases hstep
      rw [cleanup_channels]
      exact ⟨hupdate t.channel, fun heq => by cases heq⟩
    · cases hstep

/-- What has been swept stays away. -/
theorem ending_exec {w' : ProcessLog} {after : List ChannelEvent} (hend : ∀ e ∈ after, Ending e)
    (hx : exec ProcessLog.step w after = some w') (c : ChannelId)
    (hc : w.handler.channels c = none ∨ .sweep c ∈ after) : w'.handler.channels c = none := by
  induction after generalizing w with
  | nil =>
      cases hx
      rcases hc with hnone | hmem
      · exact hnone
      · cases hmem
  | cons e after ih =>
      obtain ⟨w₁, hs, hrest⟩ := exec_cons_some hx
      obtain ⟨hkept, hswept⟩ := ending_step (hend e List.mem_cons_self) hs c
      refine ih (fun e' he' => hend e' (List.mem_cons_of_mem e he')) hrest ?_
      rcases hc with hnone | hmem
      · exact .inl (hkept hnone)
      · rcases List.mem_cons.mp hmem with heq | hmem
        · exact .inl (hswept heq.symm)
        · exact .inr hmem

theorem Ending.startsAfresh {e : ChannelEvent} (he : Ending e) (w : ProcessLog) : w.StartsAfresh e := by
  rcases he with ⟨channel, rfl⟩ | ⟨t, exited, rfl⟩
  · exact trivial
  · exact trivial

end ProcessLog

open ProcessLog

/--
**No process outlives its connection, but those that were let go of.**

Over any requests and whatever of them fails, with no command started on a channel whose last
task is still there: a process that runs is in the slot of a channel, where closing the
channel kills it, or has escaped when its start failed behind the spawn or its wait was given
up. The sweep comes right behind `run_stream`. If no request is handled once it has begun, and
every channel of the table has been swept, in any order with the ends of the tasks, the
processes that still run are among those that escaped.
-/
theorem no_process_outlives (fallback : PtySize) (events after : List ChannelEvent) (w w' : ProcessLog)
    (hfresh : Meets ProcessLog.step StartsAfresh (.new fallback) events)
    (hx : exec ProcessLog.step (.new fallback) events = some w)
    (hend : ∀ e ∈ after, Ending e) (hswept : ∀ c, w.handler.channels c ≠ none → .sweep c ∈ after)
    (hx' : exec ProcessLog.step w after = some w') :
    (∀ x ∈ w.handler.running, (∃ channel, slotChild w.handler channel = some x) ∨ x ∈ w.escaped)
      ∧ ∀ x ∈ w'.handler.running, x ∈ w'.escaped := by
  have hheld : w.Held := exec_invariant (fun _ _ _ h hg hs => Held.step h hg hs) (held_new fallback) hfresh hx
  have hheld' : w'.Held := by
    refine exec_invariant (fun _ _ _ h hg hs => Held.step h hg hs) hheld ?_ hx'
    exact meets_of_forall_mem fun e he w => (hend e he).startsAfresh w
  refine ⟨hheld.running, fun x hx => (hheld'.running x hx).resolve_left ?_⟩
  rintro ⟨channel, hslot⟩
  have hnone : w'.handler.channels channel = none := by
    refine ending_exec hend hx' channel ?_
    by_cases hc : w.handler.channels channel = none
    · exact .inl hc
    · exact .inr (hswept channel hc)
  rw [slotChild_removed hnone] at hslot
  cases hslot

/-- A shell that runs when the connection is lost. -/
theorem no_process_outlives_shell :
    ∃ w w', exec ProcessLog.step (.new ⟨24, 80, 0, 0⟩) [.openSession 0, .shell 0 (attaching ⟨1, some 41⟩)]
      = some w
      ∧ w.handler.running = [⟨1, some 41⟩]
      ∧ exec ProcessLog.step w [.sweep 0] = some w' ∧ ∀ x ∈ w'.handler.running, x ∈ w'.escaped := by
  refine ⟨_, _, rfl, rfl, rfl, ?_⟩
  refine (no_process_outlives ⟨24, 80, 0, 0⟩ [.openSession 0,
    .shell 0 (attaching ⟨1, some 41⟩)] [.sweep 0] _ _
    ?_ rfl ?_ ?_ rfl).2
  · refine ⟨trivial, ?_⟩
    rintro w₁ ⟨⟩
    refine ⟨?_, fun _ _ => trivial⟩
    rintro child -
    exact ⟨List.not_mem_nil, fun t ht => by cases ht⟩
  · intro e he
    rw [List.mem_singleton.mp he]
    exact .inl ⟨0, rfl⟩
  · intro c hc
    by_cases heq : c = 0
    · rw [heq]
      exact List.mem_cons_self
    · refine absurd ?_ hc
      show update (update (update (fun _ => none) 0 _) 0 _) 0 _ c = none
      rw [update_of_ne heq, update_of_ne heq, update_of_ne heq]

end Irosh.Proof
