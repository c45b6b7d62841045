import Irosh.Server.Channels

/-!
# A start that fails

`start_command` registers a shell's PID as soon as the process runs, and four calls that may
fail come after that. Which of its failures leave the connection as it was.
-/

namespace Irosh.Proof

open Irosh Function ServerHandler

/-- A process that a channel's slot or a reader task holds. -/
def Tracks (h : ServerHandler) (child : Child) : Prop :=
  (∃ channel process, h.processAt channel = some process ∧ process.child = child) ∨
    ∃ t ∈ h.tasks, t.child = child

/-- A request that has changed nothing: the PID, the channel's slot, and no process that was
started and runs on untracked. -/
structure NoTrace (channel : ChannelId) (before after : ServerHandler) : Prop where
  shellPid : after.shellPid = before.shellPid
  process : after.processAt channel = before.processAt channel
  tracked : ∀ child ∈ after.running, child ∉ before.running → Tracks after child

/-- The system starts a process that is none of the old ones. -/
def StartsNew (sys : Spawning) (channel : ChannelId) (command : Option String)
    (before : ServerHandler) : Prop :=
  ∀ child, startedChild sys channel command before = some child →
    child ∉ before.running ∧ ¬ Tracks before child

/-- The calls between the start of the process and the filling of the slot all succeed. -/
def Spawning.FillsSlot (sys : Spawning) : Prop :=
  sys.cloneReader = .ok () ∧ sys.takeWriter = .ok () ∧ sys.spawnWriter = .ok ()

/-- The failures that leave no trace: those before a process is started, and those of an `exec`
before the slot is filled, if the process ends with its terminal. -/
def FailsCleanly (sys : Spawning) (channel : ChannelId) (command : Option String)
    (before : ServerHandler) : Prop :=
  ∀ child, startedChild sys channel command before = some child →
    ¬ Spawning.FillsSlot sys ∧ sys.hangsUp = true ∧
      (command.isSome = true ∨ child.pid = before.shellPid)

section Fields

variable {h : ServerHandler} {channel : ChannelId} {command : Option String} {child : Child}

theorem registered_channels : (h.registered command child).channels = h.channels := by
  unfold registered
  split <;> rfl

theorem registered_tasks : (h.registered command child).tasks = h.tasks := by
  unfold registered
  split <;> rfl

theorem registered_running : (h.registered command child).running = child :: h.running := by
  unfold registered
  split <;> rfl

theorem registered_shellPid :
    (h.registered command child).shellPid = if command.isNone then child.pid else h.shellPid := by
  unfold registered
  split <;> rfl

theorem dropTerminal_channels (sys : Spawning) :
    (h.dropTerminal sys child).channels = h.channels := by
  unfold dropTerminal
  split <;> rfl

theorem dropTerminal_tasks (sys : Spawning) : (h.dropTerminal sys child).tasks = h.tasks := by
  unfold dropTerminal
  split <;> rfl

theorem dropTerminal_shellPid (sys : Spawning) :
    (h.dropTerminal sys child).shellPid = h.shellPid := by
  unfold dropTerminal
  split <;> rfl

theorem dropTerminal_running (sys : Spawning) :
    (h.dropTerminal sys child).running =
      if sys.hangsUp then h.running.erase child else h.running := by
  unfold dropTerminal
  split <;> rfl

end Fields

/-- Where `superviseChild` can fail: before the slot is filled, and at the reply. -/
theorem superviseChild_error {sys : Spawning} {channel : ChannelId} {child : Child}
    {h : ServerHandler} {e : HandlerError}
    (herr : (superviseChild sys channel child h).2 = .error e) :
    (¬ Spawning.FillsSlot sys ∧
        (superviseChild sys channel child h).1 = h.dropTerminal sys child) ∨
      (Spawning.FillsSlot sys ∧
        (superviseChild sys channel child h).1 = h.setProcess channel child) := by
  unfold superviseChild Spawning.FillsSlot at *
  cases hclone : sys.cloneReader with
  | error e => exact .inl ⟨by simp, by simp⟩
  | ok u =>
    cases htake : sys.takeWriter with
    | error e => exact .inl ⟨by simp, by simp⟩
    | ok u =>
      cases hwriter : sys.spawnWriter with
      | error e => exact .inl ⟨by simp, by simp⟩
      | ok u =>
        cases hconfirm : sys.confirm with
        | error e => exact .inr ⟨by simp, by simp⟩
        | ok u => simp [hclone, htake, hwriter, hconfirm] at herr

/-- A request that only made an entry. -/
theorem noTrace_orDefault (h : ServerHandler) (channel : ChannelId) :
    NoTrace channel h (h.orDefault channel) where
  shellPid := rfl
  process := processAt_orDefault h channel channel
  tracked _ hrunning hnew := absurd hrunning hnew

/-- A process that is started and let go of with its terminal. -/
theorem noTrace_dropped_iff {sys : Spawning} {channel : ChannelId} {command : Option String}
    {child : Child} {h : ServerHandler} (hnew : child ∉ h.running) (hun : ¬ Tracks h child) :
    NoTrace channel h
        (((h.orDefault channel).registered command child).dropTerminal sys child) ↔
      sys.hangsUp = true ∧ (command.isSome = true ∨ child.pid = h.shellPid) := by
  have hprocess : ∀ other, (((h.orDefault channel).registered command child).dropTerminal sys
      child).processAt other = h.processAt other := by
    intro other
    rw [← processAt_orDefault h channel other]
    simp only [processAt, dropTerminal_channels, registered_channels]
  have htasks : (((h.orDefault channel).registered command child).dropTerminal sys child).tasks
      = h.tasks := by
    rw [dropTerminal_tasks, registered_tasks, orDefault_tasks]
  have hshell : (((h.orDefault channel).registered command child).dropTerminal sys child).shellPid
      = if command.isNone then child.pid else h.shellPid := by
    rw [dropTerminal_shellPid, registered_shellPid, orDefault_shellPid]
  have hrunning : (((h.orDefault channel).registered command child).dropTerminal sys
      child).running = if sys.hangsUp then h.running else child :: h.running := by
    rw [dropTerminal_running, registered_running, orDefault_running, List.erase_cons_head]
  have htracks : ∀ other, Tracks (((h.orDefault channel).registered command child).dropTerminal sys
      child) other ↔ Tracks h other := by
    intro other
    simp only [Tracks, hprocess, htasks]
  constructor
  · intro htrace
    constructor
    · by_contra hstays
      have hstill : child ∈ (((h.orDefault channel).registered command child).dropTerminal sys
          child).running := by
        rw [hrunning, if_neg hstays]
        exact List.mem_cons_self
      exact hun ((htracks child).mp (htrace.tracked child hstill hnew))
    · cases command with
      | some c => exact .inl rfl
      | none =>
        right
        have hpid := htrace.shellPid
        rw [hshell] at hpid
        exact hpid
  · rintro ⟨hends, hpid⟩
    refine ⟨?_, hprocess channel, ?_⟩
    · rw [hshell]
      cases command with
      | some c => rfl
      | none =>
        obtain hsome | hpid := hpid
        · cases hsome
        · exact hpid
    · intro other hother hfresh
      rw [hrunning, if_pos hends] at hother
      exact absurd hother hfresh

/-- A slot that has been filled shows. -/
theorem not_noTrace_filled {channel : ChannelId} {command : Option String} {child : Child}
    {h : ServerHandler} (hfree : h.processAt channel = none) :
    ¬ NoTrace channel h
      (((h.orDefault channel).registered command child).setProcess channel child) := by
  intro htrace
  have hslot := htrace.process
  rw [hfree] at hslot
  simp [processAt, setProcess, modifyChannel, registered_channels, orDefault] at hslot

/--
**When a failing start changes nothing.**

Whatever the connection and wherever it fails, a `start_command` that returns an error leaves
no trace iff it has started no process, or has started one for an `exec` that ends with its
terminal and has failed before the channel's slot was filled.
-/
theorem failed_start_iff (sys : Spawning) (channel : ChannelId) (command : Option String)
    (before : ServerHandler) (e : HandlerError) (hnew : StartsNew sys channel command before)
    (herr : (startCommand sys channel command before).2 = .error e) :
    NoTrace channel before (startCommand sys channel command before).1 ↔
      FailsCleanly sys channel command before := by
  obtain ⟨child, hstarted, heq⟩ | ⟨hnone, heq⟩ := startCommand_eq sys channel command before
  · obtain ⟨hfresh, huntracked⟩ := hnew child hstarted
    have hclean : FailsCleanly sys channel command before ↔
        ¬ Spawning.FillsSlot sys ∧ sys.hangsUp = true ∧
          (command.isSome = true ∨ child.pid = before.shellPid) := by
      unfold FailsCleanly
      simp only [hstarted, Option.some.injEq, forall_eq']
    have hfree : before.processAt channel = none := by
      unfold startedChild at hstarted
      simp only [entry_process] at hstarted
      split at hstarted
      · cases hstarted
      · exact Option.not_isSome_iff_eq_none.mp ‹_›
    rw [hclean, heq]
    rw [heq] at herr
    obtain ⟨hearly, hafter⟩ | ⟨hlate, hafter⟩ := superviseChild_error herr
    · rw [hafter, noTrace_dropped_iff hfresh huntracked]
      exact (and_iff_right hearly).symm
    · rw [hafter]
      exact iff_of_false (not_noTrace_filled hfree) fun hand => hand.1 hlate
  · rw [heq]
    refine iff_of_true (noTrace_orDefault before channel) ?_
    intro child hstarted
    rw [hnone] at hstarted
    cases hstarted

/-- A system that starts process 42 and then has no reader for it. -/
def noReader : Spawning where
  reject := .ok ()
  openpty _ := .ok ()
  spawn _ := .ok ⟨0, some 42⟩
  cloneReader := .error "too many open files"
  takeWriter := .ok ()
  spawnWriter := .ok ()
  confirm := .ok ()
  hangsUp := true

/-- A connection with one channel. -/
def oneChannel : ServerHandler := channelOpenSession 0 (ServerHandler.new ⟨24, 80, 0, 0⟩)

theorem startsNew_oneChannel (sys : Spawning) (command : Option String) :
    StartsNew sys 0 command oneChannel := by
  intro child _
  refine ⟨List.not_mem_nil, ?_⟩
  rintro (⟨channel, process, hslot, -⟩ | ⟨t, ht, -⟩)
  · rw [oneChannel, channelOpenSession, processAt_orDefault] at hslot
    cases hslot
  · cases ht

theorem failed_start_iff_exec :
    NoTrace 0 oneChannel (startCommand noReader 0 (some "ls") oneChannel).1 :=
  (failed_start_iff noReader 0 (some "ls") oneChannel _ (startsNew_oneChannel _ _) rfl).mpr
    fun _ _ => ⟨fun hfills => absurd hfills.1 nofun, rfl, .inl rfl⟩

/-- The shell's PID stays in the slot though the shell could not be attached. -/
theorem failed_shell_keeps_pid :
    ¬ ∀ sys channel command before e, StartsNew sys channel command before →
      (startCommand sys channel command before).2 = .error e →
      NoTrace channel before (startCommand sys channel command before).1 := by
  intro hall
  have htrace := hall noReader 0 none oneChannel _ (startsNew_oneChannel _ _) rfl
  have hpid := htrace.shellPid
  cases hpid

end Irosh.Proof
