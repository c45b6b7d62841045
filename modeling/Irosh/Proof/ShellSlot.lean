import Irosh.Lib.Exec
import Irosh.Proof.FailedStart

/-!
# The slot for the shell's PID

One slot for any number of shells. It never holds the PID of anything but a shell that is
still there; it may be empty while a shell is.
-/

namespace Irosh.Proof

open Irosh Function ServerHandler

/-- A connection and its live shells: started, and neither cleaned up nor killed since. -/
structure ShellLog where
  handler : ServerHandler
  live : List Child

namespace ShellLog

def new (fallback : PtySize) : ShellLog := ⟨ServerHandler.new fallback, []⟩

/-- The process an event starts. -/
def starts (w : ShellLog) : ChannelEvent → Option Child
  | .shell channel sys => startedChild sys channel none w.handler
  | .exec channel command sys => startedChild sys channel (some command) w.handler
  | _ => none

/-- The process an event ends. -/
def ends (w : ShellLog) : ChannelEvent → Option Child
  | .close channel => (w.handler.processAt channel).map (·.child)
  | .sweep channel => (w.handler.processAt channel).map (·.child)
  | .taskEnds t _ => if t ∈ w.handler.tasks then some t.child else none
  | _ => none

/-- The live shells after an event. -/
def liveAfter (w : ShellLog) : ChannelEvent → List Child
  | .shell channel sys => (startedChild sys channel none w.handler).toList ++ w.live
  | e => (w.ends e).elim w.live w.live.erase

def step (w : ShellLog) (e : ChannelEvent) : Option ShellLog :=
  (w.handler.step e).map fun handler => ⟨handler, w.liveAfter e⟩

/-- The processes the connection still has something to do with. -/
def Held (w : ShellLog) (child : Child) : Prop := child ∈ w.live ∨ Tracks w.handler child

/-- A started process has a PID, and not the one of a process that is still held. -/
def NewPid (w : ShellLog) (e : ChannelEvent) : Prop :=
  ∀ child, w.starts e = some child →
    child.pid.isSome = true ∧ ∀ other, w.Held other → other.pid ≠ child.pid

/-- The slot holds the PID of a live shell, and is empty only if there is none. -/
structure Follows (w : ShellLog) : Prop where
  shell : ∀ pid, w.handler.shellPid = some pid → ∃ child ∈ w.live, child.pid = some pid
  context : w.live ≠ [] → ∀ cwdOf homeOf home, ∃ child ∈ w.live, ∃ pid, child.pid = some pid ∧
    w.handler.transferContext cwdOf homeOf home = .live pid (cwdOf pid) (homeOf pid)

/-- A process whose PID is in the slot ends only when no other shell is live. -/
def LastInSlot (w : ShellLog) (e : ChannelEvent) : Prop :=
  ∀ child, w.ends e = some child → child.pid = w.handler.shellPid → w.live.erase child = []

end ShellLog

/-! ## What an operation does to the tracked processes -/

section Tracked

variable {h h' : ServerHandler} {channel : ChannelId} {x child : Child}

/-- Fewer slots and fewer tasks track fewer processes. -/
theorem tracks_mono (hslots : ∀ c p, h'.processAt c = some p →
      ∃ p', h.processAt c = some p' ∧ p'.child = p.child)
    (htasks : ∀ t ∈ h'.tasks, t ∈ h.tasks) (hx : Tracks h' x) : Tracks h x := by
  obtain ⟨c, p, hslot, hchild⟩ | ⟨t, ht, hchild⟩ := hx
  · obtain ⟨p', hslot', hsame⟩ := hslots c p hslot
    exact .inl ⟨c, p', hslot', hsame.trans hchild⟩
  · exact .inr ⟨t, htasks t ht, hchild⟩

/-- A request that changes an entry and leaves its process alone. -/
theorem tracks_modifyChannel {f : ChannelState → ChannelState}
    (hf : ∀ state p, (f state).process = some p →
      ∃ p', state.process = some p' ∧ p'.child = p.child)
    (hx : Tracks (h.modifyChannel channel f) x) : Tracks h x := by
  refine tracks_mono ?_ ?_ hx
  · intro c p hslot
    by_cases heq : c = channel
    · subst heq
      cases hentry : h.channels c with
      | none => simp [processAt, modifyChannel, hentry] at hslot
      | some state =>
        have hprocess : (f state).process = some p := by
          simpa [processAt, modifyChannel, hentry] using hslot
        obtain ⟨p', hp', hsame⟩ := hf state p hprocess
        exact ⟨p', by simpa [processAt, hentry] using hp', hsame⟩
    · refine ⟨p, ?_, rfl⟩
      simpa [processAt, modifyChannel, update_of_ne heq] using hslot
  · intro t ht
    exact ht

theorem tracks_orDefault (hx : Tracks (h.orDefault channel) x) : Tracks h x :=
  tracks_mono (fun c p hslot => ⟨p, processAt_orDefault h channel c ▸ hslot, rfl⟩)
    (fun _ ht => ht) hx

/-- An entry is gone. -/
theorem processAt_removed {c : ChannelId} {p : RunningPty}
    (hchannels : h'.channels = update h.channels channel none)
    (hslot : h'.processAt c = some p) : h.processAt c = some p := by
  by_cases heq : c = channel
  · subst heq
    simp [processAt, hchannels] at hslot
  · simpa [processAt, hchannels, update_of_ne heq] using hslot

theorem tracks_closeChannel (hx : Tracks (closeChannel channel h) x) : Tracks h x := by
  refine tracks_mono ?_ ?_ hx
  · intro c p hslot
    refine ⟨p, @processAt_removed h _ channel _ _ ?_ hslot, rfl⟩
    unfold closeChannel
    split
    · rfl
    · simp [removeChannel]
  · intro t ht
    unfold closeChannel at ht
    split at ht
    · exact ht
    · simpa using ht

theorem tracks_cleanup {t : ReaderTask} {exited : Bool} (hx : Tracks (cleanup t exited h) x) :
    Tracks h x := by
  refine tracks_mono ?_ ?_ hx
  · intro c p hslot
    refine ⟨p, @processAt_removed h _ t.channel _ _ ?_ hslot, rfl⟩
    simp [cleanup, removeChannel]
  · intro t' ht
    simp only [cleanup, removeChannel_tasks, clearShellPidIfMatches_tasks] at ht
    exact List.mem_of_mem_erase ht

/-- A slot that is filled tracks one process more. -/
theorem tracks_setProcess (hx : Tracks (h.setProcess channel child) x) :
    Tracks h x ∨ x = child := by
  obtain ⟨c, p, hslot, hchild⟩ | htask := hx
  · by_cases heq : c = channel
    · subst heq
      cases hentry : h.channels c with
      | none => simp [processAt, setProcess, modifyChannel, hentry] at hslot
      | some state =>
        have hp : p = ⟨true, child, false⟩ := by
          simpa [processAt, setProcess, modifyChannel, hentry, eq_comm] using hslot
        right
        rw [← hchild, hp]
    · left
      left
      refine ⟨c, p, ?_, hchild⟩
      simpa [processAt, setProcess, modifyChannel, update_of_ne heq] using hslot
  · exact .inl (.inr htask)

theorem tracks_superviseChild {sys : Spawning}
    (hx : Tracks (superviseChild sys channel child h).1 x) : Tracks h x ∨ x = child := by
  have hdrop : Tracks (h.dropTerminal sys child) x → Tracks h x := by
    intro hd
    refine tracks_mono ?_ ?_ hd
    · intro c p hslot
      simp only [processAt, dropTerminal_channels] at hslot
      exact ⟨p, hslot, rfl⟩
    · intro t ht
      rwa [dropTerminal_tasks] at ht
  unfold superviseChild at hx
  cases hclone : sys.cloneReader with
  | error e => rw [hclone] at hx; exact .inl (hdrop hx)
  | ok u =>
    cases htake : sys.takeWriter with
    | error e => rw [hclone, htake] at hx; exact .inl (hdrop hx)
    | ok u =>
      cases hwriter : sys.spawnWriter with
      | error e => rw [hclone, htake, hwriter] at hx; exact .inl (hdrop hx)
      | ok u =>
        cases hconfirm : sys.confirm with
        | error e =>
          rw [hclone, htake, hwriter, hconfirm] at hx
          exact tracks_setProcess hx
        | ok u =>
          rw [hclone, htake, hwriter, hconfirm] at hx
          obtain hslot | ⟨t, ht, hchild⟩ := hx
          · exact tracks_setProcess (.inl hslot)
          · obtain heq | hold := List.mem_cons.mp ht
            · exact .inr (by rw [← hchild, heq])
            · exact .inl (.inr ⟨t, hold, hchild⟩)

theorem superviseChild_shellPid {sys : Spawning} :
    (superviseChild sys channel child h).1.shellPid = h.shellPid := by
  have hdrop := @dropTerminal_shellPid h child sys
  unfold superviseChild
  cases sys.cloneReader with
  | error e => exact hdrop
  | ok u =>
    cases sys.takeWriter with
    | error e => exact hdrop
    | ok u =>
      cases sys.spawnWriter with
      | error e => exact hdrop
      | ok u =>
        cases sys.confirm with
        | error e => rfl
        | ok u => rfl

theorem tracks_registered {command : Option String}
    (hx : Tracks (h.registered command child) x) : Tracks h x := by
  refine tracks_mono ?_ ?_ hx
  · intro c p hslot
    simp only [processAt, registered_channels] at hslot
    exact ⟨p, hslot, rfl⟩
  · intro t ht
    rwa [registered_tasks] at ht

/-- What `start_command` does: to the slot for the PID and to the tracked processes. -/
theorem startCommand_tracks {sys : Spawning} {command : Option String}
    (hx : Tracks (startCommand sys channel command h).1 x) :
    Tracks h x ∨ startedChild sys channel command h = some x := by
  obtain ⟨child, hstarted, heq⟩ | ⟨-, heq⟩ := startCommand_eq sys channel command h
  · rw [heq] at hx
    obtain hold | hnew := tracks_superviseChild hx
    · exact .inl (tracks_orDefault (tracks_registered hold))
    · exact .inr (hnew ▸ hstarted)
  · rw [heq] at hx
    exact .inl (tracks_orDefault hx)

theorem startCommand_shellPid {sys : Spawning} {command : Option String} :
    (startCommand sys channel command h).1.shellPid =
      match startedChild sys channel command h, command with
      | some child, none => child.pid
      | _, _ => h.shellPid := by
  obtain ⟨child, hstarted, heq⟩ | ⟨hnone, heq⟩ := startCommand_eq sys channel command h
  · rw [heq, hstarted, superviseChild_shellPid, registered_shellPid]
    cases command with
    | none => rfl
    | some c => rfl
  · rw [heq, hnone]
    rfl

end Tracked

/-! ## The invariant -/

namespace ShellLog

structure Inv (w : ShellLog) : Prop where
  pids : ∀ child, w.Held child → child.pid.isSome = true
  distinct : ∀ a b, w.Held a → w.Held b → a.pid = b.pid → a = b
  nodup : w.live.Nodup
  shell : ∀ pid, w.handler.shellPid = some pid → ∃ child ∈ w.live, child.pid = some pid
  filled : w.live ≠ [] → w.handler.shellPid ≠ none

/-- A request that neither starts nor ends a process. -/
theorem inv_quiet {w w' : ShellLog} (hw : w.Inv)
    (htracks : ∀ x, Tracks w'.handler x → Tracks w.handler x)
    (hshell : w'.handler.shellPid = w.handler.shellPid) (hlive : w'.live = w.live) :
    w'.Inv := by
  have hheld : ∀ x, w'.Held x → w.Held x := by
    intro x hx
    exact hx.imp (fun h => hlive ▸ h) (htracks x)
  exact ⟨fun c hc => hw.pids c (hheld c hc),
    fun a b ha hb => hw.distinct a b (hheld a ha) (hheld b hb), hlive ▸ hw.nodup,
    fun pid hpid => hlive ▸ hw.shell pid (hshell ▸ hpid),
    fun hne => hshell ▸ hw.filled (hlive ▸ hne)⟩

/-- The end of a process that is held. -/
theorem inv_end {w w' : ShellLog} {child : Child} (hw : w.Inv)
    (hlast : child.pid = w.handler.shellPid → w.live.erase child = [])
    (htracks : ∀ x, Tracks w'.handler x → Tracks w.handler x)
    (hshell : w'.handler.shellPid =
      if w.handler.shellPid = child.pid then none else w.handler.shellPid)
    (hlive : w'.live = w.live.erase child) : w'.Inv := by
  have hold : ∀ x, w'.Held x → w.Held x := by
    intro x hx
    refine hx.imp (fun h => ?_) (htracks x)
    rw [hlive] at h
    exact List.mem_of_mem_erase h
  refine ⟨fun c hc => hw.pids c (hold c hc),
    fun a b ha hb => hw.distinct a b (hold a ha) (hold b hb), ?_, ?_, ?_⟩
  · rw [hlive]
    exact hw.nodup.erase child
  · intro pid hpid
    rw [hshell] at hpid
    split at hpid
    · cases hpid
    · obtain ⟨s, hs, hsp⟩ := hw.shell pid hpid
      have hne : s ≠ child := by
        intro heq
        have hmatch : w.handler.shellPid = child.pid := by rw [hpid, ← heq, hsp]
        contradiction
      refine ⟨s, ?_, hsp⟩
      rw [hlive]
      exact (List.mem_erase_of_ne hne).mpr hs
  · intro hne
    rw [hlive] at hne
    have hother : w.handler.shellPid ≠ child.pid := fun heq => hne (hlast heq.symm)
    rw [hshell, if_neg hother]
    have hsome : w.live ≠ [] := by
      intro hnil
      rw [hnil] at hne
      exact hne rfl
    exact hw.filled hsome

/-- The start of a process whose PID is new. -/
theorem inv_start {w w' : ShellLog} {child : Child} {command : Option String} (hw : w.Inv)
    (hpid : child.pid.isSome = true) (hnew : ∀ other, w.Held other → other.pid ≠ child.pid)
    (htracks : ∀ x, Tracks w'.handler x → Tracks w.handler x ∨ child = x)
    (hshell : w'.handler.shellPid = if command.isNone then child.pid else w.handler.shellPid)
    (hlive : w'.live = if command.isNone then child :: w.live else w.live) : w'.Inv := by
  have hheld : ∀ x, w'.Held x → w.Held x ∨ x = child := by
    intro x hx
    obtain hl | ht := hx
    · rw [hlive] at hl
      split at hl
      · obtain heq | hl := List.mem_cons.mp hl
        · exact .inr heq
        · exact .inl (.inl hl)
      · exact .inl (.inl hl)
    · obtain ht | heq := htracks x ht
      · exact .inl (.inr ht)
      · exact .inr heq.symm
  refine ⟨?_, ?_, ?_, ?_, ?_⟩
  · intro c hc
    obtain hc | heq := hheld c hc
    · exact hw.pids c hc
    · exact heq ▸ hpid
  · intro a b ha hb hab
    obtain ha | rfl := hheld a ha
    · obtain hb | rfl := hheld b hb
      · exact hw.distinct a b ha hb hab
      · exact absurd hab (hnew a ha)
    · obtain hb | rfl := hheld b hb
      · exact absurd hab.symm (hnew b hb)
      · rfl
  · rw [hlive]
    split
    · have hfresh : child ∉ w.live := fun hmem => hnew child (.inl hmem) rfl
      exact List.nodup_cons.mpr ⟨hfresh, hw.nodup⟩
    · exact hw.nodup
  · intro pid hslot
    cases command with
    | none => exact ⟨child, by rw [hlive]; exact List.mem_cons_self, hshell.symm.trans hslot⟩
    | some c =>
      obtain ⟨s, hs, hsp⟩ := hw.shell pid (hshell.symm.trans hslot)
      exact ⟨s, by rw [hlive]; exact hs, hsp⟩
  · intro hne
    cases command with
    | none =>
      have hslot : w'.handler.shellPid = child.pid := hshell
      rw [hslot]
      exact Option.isSome_iff_ne_none.mp hpid
    | some c =>
      have hslot : w'.handler.shellPid = w.handler.shellPid := hshell
      have hsame : w'.live = w.live := hlive
      rw [hslot]
      exact hw.filled (hsame ▸ hne)

/-- A shell or a command is started, or the request fails before that. -/
theorem inv_startCommand {w : ShellLog} (hw : w.Inv) (sys : Spawning) (channel : ChannelId)
    (command : Option String) (live : List Child)
    (hnew : ∀ child, startedChild sys channel command w.handler = some child →
      child.pid.isSome = true ∧ ∀ other, w.Held other → other.pid ≠ child.pid)
    (hlive : live = if command.isNone then
      (startedChild sys channel command w.handler).toList ++ w.live else w.live) :
    ShellLog.Inv ⟨(startCommand sys channel command w.handler).1, live⟩ := by
  cases hstarted : startedChild sys channel command w.handler with
  | none =>
    have hsame : live = w.live := by
      rw [hlive, hstarted]
      exact ite_self _
    refine inv_quiet hw ?_ ?_ hsame
    · intro x hx
      obtain hold | hsome := startCommand_tracks hx
      · exact hold
      · rw [hstarted] at hsome
        cases hsome
    · exact startCommand_shellPid.trans (by rw [hstarted])
  | some child =>
    rw [hstarted] at hlive
    obtain ⟨hpid, hother⟩ := hnew child hstarted
    refine @inv_start w _ child command hw hpid hother ?_ ?_ ?_
    · intro x hx
      obtain hold | hsome := startCommand_tracks hx
      · exact .inl hold
      · rw [hstarted] at hsome
        exact .inr (Option.some.inj hsome)
    · refine startCommand_shellPid.trans ?_
      rw [hstarted]
      cases command with
      | none => rfl
      | some c => rfl
    · rw [hlive]
      rfl

/-- A request that looks its channel up and leaves its process alone. -/
theorem inv_onChannel {w : ShellLog} (hw : w.Inv) {channel : ChannelId}
    (f : ChannelState → ChannelState) (sent : Except String Unit)
    (hf : ∀ state, (f state).process = state.process) :
    ShellLog.Inv ⟨(onChannel channel f sent w.handler).1, w.live⟩ := by
  unfold onChannel
  split
  · exact hw
  · refine inv_quiet hw (fun x hx => tracks_modifyChannel ?_ hx) rfl rfl
    intro state p hp
    exact ⟨p, hf state ▸ hp, rfl⟩

/-- A channel is closed: whatever runs on it is killed. -/
theorem inv_closeChannel {w : ShellLog} (hw : w.Inv) {h : ServerHandler} (channel : ChannelId)
    (hslots : h.processAt channel = w.handler.processAt channel)
    (htracks : ∀ x, Tracks h x → Tracks w.handler x)
    (hshell : h.shellPid = w.handler.shellPid)
    (hlast : ∀ child, (w.handler.processAt channel).map (·.child) = some child →
      child.pid = w.handler.shellPid → w.live.erase child = [])
    (live : List Child)
    (hlive : live =
      ((w.handler.processAt channel).map (·.child)).elim w.live w.live.erase) :
    ShellLog.Inv ⟨closeChannel channel h, live⟩ := by
  have hfewer : ∀ x, Tracks (closeChannel channel h) x → Tracks w.handler x :=
    fun x hx => htracks x (tracks_closeChannel hx)
  cases hprocess : w.handler.processAt channel with
  | none =>
    rw [hprocess] at hlive
    refine inv_quiet hw hfewer ?_ hlive
    simp only [closeChannel, hslots, hprocess]
    exact hshell
  | some process =>
    rw [hprocess] at hlive
    refine inv_end hw (hlast process.child (by rw [hprocess]; rfl)) hfewer ?_ hlive
    simp only [closeChannel, hslots, hprocess, clearShellPidIfMatches_shellPid,
      removeChannel_shellPid, hshell]

/-- A reader task ends: its guard clears the slot if it holds the task's PID. -/
theorem inv_cleanup {w : ShellLog} (hw : w.Inv) {t : ReaderTask} (ht : t ∈ w.handler.tasks)
    (exited : Bool) (hlast : t.child.pid = w.handler.shellPid → w.live.erase t.child = []) :
    ShellLog.Inv ⟨cleanup t exited w.handler, w.live.erase t.child⟩ := by
  have hpid : t.child.pid.isSome = true := hw.pids t.child (.inr (.inr ⟨t, ht, rfl⟩))
  have hguard : some t.pid = t.child.pid := by
    obtain ⟨pid, hsome⟩ := Option.isSome_iff_exists.mp hpid
    simp [ReaderTask.pid, hsome]
  refine inv_end hw hlast (fun x hx => tracks_cleanup hx) ?_ rfl
  simp only [cleanup, removeChannel_shellPid, clearShellPidIfMatches_shellPid, hguard]

theorem inv_step {w w' : ShellLog} {e : ChannelEvent} (hw : w.Inv) (hnew : w.NewPid e)
    (hlast : w.LastInSlot e) (hs : w.step e = some w') : w'.Inv := by
  obtain ⟨handler, hstep, hw'⟩ := Option.map_eq_some_iff.mp hs
  subst hw'
  cases e with
  | openSession channel =>
    cases hstep
    exact inv_quiet hw (fun x hx => tracks_orDefault hx) rfl rfl
  | openDirectTcpip channel =>
    cases hstep
    exact inv_quiet hw (fun x hx => hx) rfl rfl
  | pty channel term c r wd p modes sent =>
    cases hstep
    exact inv_onChannel hw _ sent fun state => rfl
  | env channel name value sent =>
    cases hstep
    exact inv_onChannel hw _ sent fun state => rfl
  | windowChange channel c r wd p sent =>
    cases hstep
    exact inv_onChannel hw _ sent fun state => rfl
  | shell channel sys =>
    cases hstep
    exact inv_startCommand hw sys channel none _ hnew rfl
  | exec channel command sys =>
    cases hstep
    exact inv_startCommand hw sys channel (some command) _ hnew rfl
  | data channel bytes =>
    cases hstep
    exact inv_quiet hw (fun x hx => hx) rfl rfl
  | signal channel =>
    cases hstep
    exact inv_quiet hw (fun x hx => hx) rfl rfl
  | eof channel =>
    cases hstep
    refine inv_quiet hw (fun x hx => tracks_modifyChannel ?_ hx) rfl rfl
    intro state p hp
    obtain ⟨p', hp', heq⟩ := Option.map_eq_some_iff.mp hp
    exact ⟨p', hp', by rw [← heq]⟩
  | close channel =>
    cases hstep
    exact inv_closeChannel (h := { w.handler with
      streamed := w.handler.streamed.filter (· != channel) }) hw channel rfl (fun x hx => hx) rfl
      hlast _ rfl
  | taskEnds t exited =>
    simp only [ServerHandler.step] at hstep
    split at hstep
    · rename_i ht
      cases hstep
      have hends : w.ends (.taskEnds t exited) = some t.child := if_pos ht
      have hafter : w.liveAfter (.taskEnds t exited) = w.live.erase t.child := by
        simp only [liveAfter, hends, Option.elim_some]
      rw [hafter]
      exact inv_cleanup hw ht exited (hlast t.child hends)
    · cases hstep
  | sweep channel =>
    cases hstep
    exact inv_closeChannel hw channel rfl (fun x hx => hx) rfl hlast _ rfl

theorem inv_follows {w : ShellLog} (hw : w.Inv) : w.Follows where
  shell := hw.shell
  context := by
    intro hne cwdOf homeOf home
    obtain ⟨pid, hpid⟩ := Option.ne_none_iff_exists'.mp (hw.filled hne)
    obtain ⟨child, hmem, hchild⟩ := hw.shell pid hpid
    exact ⟨child, hmem, pid, hchild, by simp [transferContext, hpid]⟩

/-- An empty slot beside a live shell. -/
theorem not_follows_empty {w : ShellLog} (hslot : w.handler.shellPid = none)
    (hlive : w.live ≠ []) : ¬ w.Follows := by
  intro hw
  obtain ⟨child, -, pid, -, hcontext⟩ :=
    hw.context hlive (fun _ => none) (fun _ => none) none
  simp [transferContext, hslot] at hcontext

/-- The slot is emptied by the end of the shell it names. -/
theorem closeChannel_empties {h : ServerHandler} {channel : ChannelId} {child : Child}
    (hprocess : (h.processAt channel).map (·.child) = some child)
    (hpid : child.pid = h.shellPid) : (closeChannel channel h).shellPid = none := by
  obtain ⟨process, hslot, hchild⟩ := Option.map_eq_some_iff.mp hprocess
  have hmatch : h.shellPid = process.child.pid := by rw [hchild, hpid]
  unfold closeChannel
  rw [hslot]
  simp only [clearShellPidIfMatches_shellPid, removeChannel_shellPid]
  exact if_pos hmatch

theorem breaks_follows {w : ShellLog} {e : ChannelEvent} (hw : w.Inv) (hlast : ¬ w.LastInSlot e) :
    ∃ w', w.step e = some w' ∧ ¬ w'.Follows := by
  unfold LastInSlot at hlast
  push Not at hlast
  obtain ⟨child, hends, hpid, hother⟩ := hlast
  cases e with
  | close channel =>
    refine ⟨_, rfl, not_follows_empty (closeChannel_empties hends hpid) ?_⟩
    simp only [liveAfter, hends, Option.elim_some]
    exact hother
  | sweep channel =>
    refine ⟨_, rfl, not_follows_empty (closeChannel_empties hends hpid) ?_⟩
    simp only [liveAfter, hends, Option.elim_some]
    exact hother
  | taskEnds t exited =>
    have ht : t ∈ w.handler.tasks := by
      by_contra hout
      simp [ends, hout] at hends
    have hchild : t.child = child := by simpa [ends, ht] using hends
    have hstep : w.handler.step (.taskEnds t exited) = some (cleanup t exited w.handler) :=
      if_pos ht
    refine ⟨_, Option.map_eq_some_iff.mpr ⟨_, hstep, rfl⟩, not_follows_empty ?_ ?_⟩
    · have hsome : t.child.pid.isSome = true := hw.pids t.child (.inr (.inr ⟨t, ht, rfl⟩))
      obtain ⟨pid, hguard⟩ := Option.isSome_iff_exists.mp hsome
      have hmatch : w.handler.shellPid = some t.pid := by
        rw [← hpid, ← hchild, hguard]
        simp [ReaderTask.pid, hguard]
      simp only [cleanup, removeChannel_shellPid, clearShellPidIfMatches_shellPid]
      exact if_pos hmatch
    · simp only [liveAfter, hends, Option.elim_some]
      exact hother
  | _ => cases hends

end ShellLog

open ShellLog

theorem not_held_new (fallback : PtySize) (x : Child) : ¬ (ShellLog.new fallback).Held x := by
  intro hx
  obtain hlive | ⟨channel, process, hslot, -⟩ | ⟨t, ht, -⟩ := hx
  · cases hlive
  · cases hslot
  · cases ht

theorem inv_new (fallback : PtySize) : (ShellLog.new fallback).Inv where
  pids c hc := absurd hc (not_held_new fallback c)
  distinct a _ ha := absurd ha (not_held_new fallback a)
  nodup := List.nodup_nil
  shell _ hpid := nomatch hpid
  filled hne := absurd rfl hne

/--
**The slot follows the shells.**

In a run of any requests and cleanups whose processes have PIDs of their own, the slot names a
live shell whenever there is one, and nothing else, in every state reached, iff a process whose
PID is in the slot ends only when no other shell is live.
-/
theorem shell_slot_iff (fallback : PtySize) (es : List ChannelEvent)
    (hnew : Exec.Meets ShellLog.step NewPid (ShellLog.new fallback) es) :
    Exec.Throughout ShellLog.step Follows (ShellLog.new fallback) es ↔
      Exec.Meets ShellLog.step LastInSlot (ShellLog.new fallback) es :=
  Exec.throughout_iff_meets (fun _ hw => inv_follows hw)
    (fun _ _ _ hw hn hg hs => inv_step hw hn hg hs)
    (fun _ _ hw _ hg => breaks_follows hw hg) (inv_new fallback) hnew

/-- A system where every call succeeds. -/
def attaching (child : Child) : Spawning where
  reject := .ok ()
  openpty _ := .ok ()
  spawn _ := .ok child
  cloneReader := .ok ()
  takeWriter := .ok ()
  spawnWriter := .ok ()
  confirm := .ok ()
  hangsUp := true

/-- After the start of a shell nothing is held but it and what was. -/
theorem held_shell {w w' : ShellLog} {channel : ChannelId} {sys : Spawning} {x : Child}
    (hs : w.step (.shell channel sys) = some w') (hx : w'.Held x) :
    w.Held x ∨ w.starts (.shell channel sys) = some x := by
  cases hs
  obtain hlive | htracked := hx
  · obtain hnew | hold := List.mem_append.mp hlive
    · exact .inr (Option.mem_toList.mp hnew)
    · exact .inl (.inl hold)
  · exact (startCommand_tracks htracked).imp_left .inr

/-- The first shell of a connection, and another one beside it. -/
theorem newPid_shells {fallback : PtySize} {first second : Child} {es : List ChannelEvent}
    (hfirst : first.pid.isSome = true) (hsecond : second.pid.isSome = true)
    (hne : first.pid ≠ second.pid)
    (hes : ∀ e ∈ es, ∀ w : ShellLog, w.starts e = none) :
    Exec.Meets ShellLog.step NewPid (ShellLog.new fallback)
      (.shell 0 (attaching first) :: .shell 1 (attaching second) :: es) := by
  refine ⟨?_, fun w₁ h1 => ⟨?_, fun w₂ h2 => ?_⟩⟩
  · intro child hchild
    obtain rfl : first = child := Option.some.inj hchild
    exact ⟨hfirst, fun other hother => absurd hother (not_held_new fallback other)⟩
  · intro child hchild
    have heq : second = child := by
      cases h1
      exact Option.some.inj hchild
    subst heq
    refine ⟨hsecond, fun other hother => ?_⟩
    obtain hold | hstart := held_shell h1 hother
    · exact absurd hold (not_held_new fallback other)
    · obtain rfl : first = other := Option.some.inj hstart
      exact hne
  · exact Exec.meets_of_forall_mem fun e he w child hchild => by
      rw [hes e he w] at hchild
      cases hchild

/-- Two shells that end in the order that suits the slot: the older one first. -/
theorem shell_slot_iff_older_first :
    Exec.Throughout ShellLog.step Follows (ShellLog.new ⟨24, 80, 0, 0⟩)
      [.shell 0 (attaching ⟨0, some 41⟩), .shell 1 (attaching ⟨1, some 42⟩),
        .taskEnds ⟨0, 0, some 41⟩ true, .taskEnds ⟨1, 1, some 42⟩ true] := by
  refine (shell_slot_iff _ _ (newPid_shells rfl rfl (by decide) ?_)).mpr ?_
  · intro e he w
    obtain rfl | rfl : e = .taskEnds ⟨0, 0, some 41⟩ true ∨ e = .taskEnds ⟨1, 1, some 42⟩ true := by
      simpa using he
    · rfl
    · rfl
  · refine ⟨fun _ h => (nomatch h), fun w₁ h1 => ⟨?_, fun w₂ h2 => ⟨?_, fun w₃ h3 => ⟨?_, ?_⟩⟩⟩⟩
    · exact fun _ h => nomatch h
    · cases h1
      cases h2
      intro child hends hpid
      cases hends
      exact absurd hpid (by decide)
    · cases h1
      cases h2
      cases h3
      intro child hends hpid
      cases hends
      rfl
    · exact fun _ _ => trivial

/-- The newer of two shells ends: the slot is empty, and the older one lives. -/
theorem newer_shell_ends :
    ¬ ∀ es, Exec.Meets ShellLog.step NewPid (ShellLog.new ⟨24, 80, 0, 0⟩) es →
      Exec.Throughout ShellLog.step Follows (ShellLog.new ⟨24, 80, 0, 0⟩) es := by
  intro hall
  have hrun := hall [.shell 0 (attaching ⟨0, some 41⟩), .shell 1 (attaching ⟨1, some 42⟩),
    .taskEnds ⟨1, 1, some 42⟩ true] (newPid_shells rfl rfl (by decide) fun e he w => by
      obtain rfl : e = .taskEnds ⟨1, 1, some 42⟩ true := by simpa using he
      rfl)
  have hlast := hrun.last rfl
  exact not_follows_empty rfl (by decide) hlast

end Irosh.Proof
