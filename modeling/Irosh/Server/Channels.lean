import Mathlib.Logic.Function.Basic
import Irosh.Transfer.Sanitize

/-!
# The channels of a connection

`ServerHandler` of `handler/mod.rs`, `handler/pty.rs` and `handler/exec.rs`, on Unix: the
table of channels, the slot for the shell's PID, the processes that were started and the
tasks that wait for them. What the operating system and the SSH session answer is an
argument of each request.
-/

namespace Irosh

open Function

abbrev ChannelId := Nat

abbrev Pid := Nat

/-! ## What is kept for a channel -/

structure PtySize where
  rows : Nat
  cols : Nat
  pixelWidth : Nat
  pixelHeight : Nat
  deriving DecidableEq, Repr

/-- `pty_size`. -/
def ptySize (cols rows pixelWidth pixelHeight : Nat) : PtySize where
  rows := max 1 (min rows 65535)
  cols := max 1 (min cols 65535)
  pixelWidth := min pixelWidth 65535
  pixelHeight := min pixelHeight 65535

structure PtySpec where
  term : String
  size : PtySize
  echo : Bool
  deriving DecidableEq, Repr

/-- `PtySpec::default`. -/
def PtySpec.default (size : PtySize) : PtySpec := ⟨"xterm-256color", size, false⟩

/-- The program to run and the variables set for it. No arguments: the user's shell. -/
structure CommandBuilder where
  argv : List String
  env : List (String × String)
  deriving DecidableEq, Repr

/-- `build_command`. -/
def buildCommand : Option String → CommandBuilder
  | some command => ⟨["sh", "-lc", command], []⟩
  | none => ⟨[], []⟩

def CommandBuilder.setEnv (b : CommandBuilder) (key value : String) : CommandBuilder where
  argv := b.argv
  env := b.env ++ [(key, value)]

/-- A started process, and what `process_id` says of it. -/
structure Child where
  process : Nat
  pid : Option Pid
  deriving DecidableEq, Repr

structure RunningPty where
  /-- Whether the sender to the writer thread is still held. -/
  ptyTx : Bool
  /-- The process that `killer`, `pid` and `pgid` are for. -/
  child : Child
  serverEcho : Bool
  deriving DecidableEq, Repr

structure ChannelState where
  pty : PtySpec
  env : List (String × String)
  process : Option RunningPty
  deriving DecidableEq, Repr

/-- `ChannelState::default`. -/
def ChannelState.default (size : PtySize) : ChannelState := ⟨PtySpec.default size, [], none⟩

/-- A reader task that has not ended: what its `CleanupGuard` and its waiter hold. -/
structure ReaderTask where
  channel : ChannelId
  child : Child
  deriving DecidableEq, Repr

/-- The PID in the guard. -/
def ReaderTask.pid (t : ReaderTask) : Pid := t.child.pid.getD 0

/-- `ServerHandler`, with the processes and tasks it has started. -/
structure ServerHandler where
  /-- What `default_pty_size` gives in this process. -/
  fallback : PtySize
  channels : ChannelId → Option ChannelState
  /-- `streamed_channels`. -/
  streamed : List ChannelId
  /-- `ConnectionShellState::shell_pid`. -/
  shellPid : Option Pid
  tasks : List ReaderTask
  running : List Child

namespace ServerHandler

def new (fallback : PtySize) : ServerHandler where
  fallback := fallback
  channels _ := none
  streamed := []
  shellPid := none
  tasks := []
  running := []

/-- The process in a channel's slot. -/
def processAt (h : ServerHandler) (channel : ChannelId) : Option RunningPty :=
  (h.channels channel).bind (·.process)

/-- What `entry(channel).or_default()` refers to. -/
def entry (h : ServerHandler) (channel : ChannelId) : ChannelState :=
  (h.channels channel).getD (ChannelState.default h.fallback)

/-- The table after `entry(channel).or_default()`. -/
def orDefault (h : ServerHandler) (channel : ChannelId) : ServerHandler :=
  { h with channels := update h.channels channel (some (h.entry channel)) }

/-- A channel's entry, changed where it is there. -/
def modifyChannel (h : ServerHandler) (channel : ChannelId) (f : ChannelState → ChannelState) :
    ServerHandler :=
  { h with channels := update h.channels channel ((h.channels channel).map f) }

/-- `set_shell_pid`. -/
def setShellPid (h : ServerHandler) (pid : Option Pid) : ServerHandler :=
  { h with shellPid := pid }

/-- `clear_shell_pid_if_matches`. -/
def clearShellPidIfMatches (h : ServerHandler) (pid : Option Pid) : ServerHandler :=
  if h.shellPid = pid then { h with shellPid := none } else h

/-- `ShellContext::from_state`, for a system that knows the directories of its processes. -/
def transferContext (h : ServerHandler) (cwdOf homeOf : Pid → Option AbsPath)
    (home : Option AbsPath) : ShellContext :=
  match h.shellPid with
  | some pid => .live pid (cwdOf pid) (homeOf pid)
  | none => .stateless home

/-- `channels.remove`. -/
def removeChannel (h : ServerHandler) (channel : ChannelId) : ServerHandler :=
  { h with channels := update h.channels channel none }

section Fields

variable (h : ServerHandler) (channel : ChannelId) (f : ChannelState → ChannelState)
  (pid : Option Pid)

@[simp] theorem orDefault_shellPid : (h.orDefault channel).shellPid = h.shellPid := rfl

@[simp] theorem orDefault_tasks : (h.orDefault channel).tasks = h.tasks := rfl

@[simp] theorem orDefault_running : (h.orDefault channel).running = h.running := rfl

@[simp] theorem modifyChannel_shellPid : (h.modifyChannel channel f).shellPid = h.shellPid := rfl

@[simp] theorem modifyChannel_tasks : (h.modifyChannel channel f).tasks = h.tasks := rfl

@[simp] theorem modifyChannel_running : (h.modifyChannel channel f).running = h.running := rfl

@[simp] theorem removeChannel_shellPid : (h.removeChannel channel).shellPid = h.shellPid := rfl

@[simp] theorem removeChannel_tasks : (h.removeChannel channel).tasks = h.tasks := rfl

@[simp] theorem removeChannel_running : (h.removeChannel channel).running = h.running := rfl

@[simp] theorem clearShellPidIfMatches_channels :
    (h.clearShellPidIfMatches pid).channels = h.channels := by
  unfold clearShellPidIfMatches
  split <;> rfl

@[simp] theorem clearShellPidIfMatches_tasks :
    (h.clearShellPidIfMatches pid).tasks = h.tasks := by
  unfold clearShellPidIfMatches
  split <;> rfl

@[simp] theorem clearShellPidIfMatches_running :
    (h.clearShellPidIfMatches pid).running = h.running := by
  unfold clearShellPidIfMatches
  split <;> rfl

theorem clearShellPidIfMatches_shellPid :
    (h.clearShellPidIfMatches pid).shellPid = if h.shellPid = pid then none else h.shellPid := by
  unfold clearShellPidIfMatches
  split <;> rfl

/-- A channel opened or asked about for the first time has no process. -/
theorem entry_process : (h.entry channel).process = h.processAt channel := by
  unfold entry processAt
  cases h.channels channel with
  | none => rfl
  | some state => rfl

theorem processAt_orDefault (other : ChannelId) :
    (h.orDefault channel).processAt other = h.processAt other := by
  by_cases heq : other = channel
  · rw [heq, ← entry_process h channel]
    simp [processAt, orDefault]
  · simp [processAt, orDefault, update_of_ne heq]

end Fields

end ServerHandler

/-! ## Starting a command -/

inductive HandlerError where
  | shellError (details : String)
  | channelError (operation details : String)
  | russh (details : String)
  deriving DecidableEq, Repr

/-- What the system answers while a command is started, call by call. -/
structure Spawning where
  /-- `channel_failure`, for a channel that has a process. -/
  reject : Except String Unit
  openpty : PtySize → Except String Unit
  spawn : CommandBuilder → Except String Child
  cloneReader : Except String Unit
  takeWriter : Except String Unit
  spawnWriter : Except String Unit
  /-- `channel_success`. -/
  confirm : Except String Unit
  /-- Whether the process ends when its terminal is closed. -/
  hangsUp : Bool

namespace ServerHandler

/-- The program that is spawned, with the terminal's name and the channel's variables. -/
def builderFor (state : ChannelState) (command : Option String) : CommandBuilder :=
  state.env.foldl (fun b entry => b.setEnv entry.1 entry.2)
    ((buildCommand command).setEnv "TERM" state.pty.term)

/-- A process has been started; a shell's PID goes into the slot. -/
def registered (h : ServerHandler) (command : Option String) (child : Child) : ServerHandler :=
  let started := { h with running := child :: h.running }
  if command.isNone then started.setShellPid child.pid else started

/-- The terminal of a process is dropped on an early return. The process is not killed. -/
def dropTerminal (h : ServerHandler) (sys : Spawning) (child : Child) : ServerHandler :=
  if sys.hangsUp then { h with running := h.running.erase child } else h

/-- `state_entry.process = Some(..)`. On Unix the server never echoes. -/
def setProcess (h : ServerHandler) (channel : ChannelId) (child : Child) : ServerHandler :=
  h.modifyChannel channel fun state =>
    { state with process := some ⟨true, child, false⟩ }

def addTask (h : ServerHandler) (channel : ChannelId) (child : Child) : ServerHandler :=
  { h with tasks := ⟨channel, child⟩ :: h.tasks }

/-- `start_command` from the spawned process on. -/
def superviseChild (sys : Spawning) (channel : ChannelId) (child : Child) (h : ServerHandler) :
    ServerHandler × Except HandlerError Unit :=
  match sys.cloneReader with
  | .error e =>
      (h.dropTerminal sys child, .error (.shellError ("failed to clone PTY reader: " ++ e)))
  | .ok () =>
  match sys.takeWriter with
  | .error e =>
      (h.dropTerminal sys child, .error (.shellError ("failed to take PTY writer: " ++ e)))
  | .ok () =>
  match sys.spawnWriter with
  | .error e =>
      (h.dropTerminal sys child,
        .error (.shellError ("failed to spawn PTY writer thread: " ++ e)))
  | .ok () =>
  match sys.confirm with
  | .error e => (h.setProcess channel child, .error (.channelError "confirm channel success" e))
  | .ok () => ((h.setProcess channel child).addTask channel child, .ok ())

/-- The process that `start_command` starts, if it comes to that. -/
def startedChild (sys : Spawning) (channel : ChannelId) (command : Option String)
    (h : ServerHandler) : Option Child :=
  let state := h.entry channel
  if state.process.isSome then none
  else match sys.openpty state.pty.size, sys.spawn (builderFor state command) with
    | .ok (), .ok child => some child
    | _, _ => none

/-- `start_command`. -/
def startCommand (sys : Spawning) (channel : ChannelId) (command : Option String)
    (h : ServerHandler) : ServerHandler × Except HandlerError Unit :=
  let state := h.entry channel
  let h := h.orDefault channel
  if state.process.isSome then
    (h, sys.reject.mapError (.channelError "reject duplicate channel"))
  else
  match sys.openpty state.pty.size with
  | .error e => (h, .error (.shellError ("failed to open PTY: " ++ e)))
  | .ok () =>
  match sys.spawn (builderFor state command) with
  | .error e => (h, .error (.shellError ("failed to spawn command in PTY: " ++ e)))
  | .ok child => superviseChild sys channel child (h.registered command child)

/-- What `start_command` leaves behind is what it does with the process it has started. -/
theorem startCommand_eq (sys : Spawning) (channel : ChannelId) (command : Option String)
    (h : ServerHandler) :
    (∃ child, startedChild sys channel command h = some child ∧
        startCommand sys channel command h =
          superviseChild sys channel child ((h.orDefault channel).registered command child)) ∨
      (startedChild sys channel command h = none ∧
        (startCommand sys channel command h).1 = h.orDefault channel) := by
  unfold startedChild startCommand
  cases hprocess : (h.entry channel).process with
  | some process => exact .inr ⟨by simp [hprocess], by simp [hprocess]⟩
  | none =>
    cases hopen : sys.openpty (h.entry channel).pty.size with
    | error e => exact .inr ⟨by simp [hprocess, hopen], by simp [hprocess, hopen]⟩
    | ok u =>
      cases hspawn : sys.spawn (builderFor (h.entry channel) command) with
      | error e =>
        exact .inr ⟨by simp [hprocess, hopen, hspawn], by simp [hprocess, hopen, hspawn]⟩
      | ok child =>
        exact .inl ⟨child, by simp [hprocess, hopen, hspawn],
          by simp [hprocess, hopen, hspawn]⟩

/-! ## The other requests -/

/-- A request that looks its channel up: the entry is changed if it is there, and the client is
told whether it was. -/
def onChannel (channel : ChannelId) (f : ChannelState → ChannelState) (sent : Except String Unit)
    (h : ServerHandler) : ServerHandler × Except HandlerError Unit :=
  match h.channels channel with
  | none => (h, sent.mapError .russh)
  | some _ => (h.modifyChannel channel f, sent.mapError .russh)

/-- `channel_open_session`. -/
def channelOpenSession (channel : ChannelId) (h : ServerHandler) : ServerHandler :=
  h.orDefault channel

/-- `channel_open_direct_tcpip`, once the target has been reached. -/
def channelOpenDirectTcpip (channel : ChannelId) (h : ServerHandler) : ServerHandler :=
  { h with streamed := channel :: h.streamed }

/-- `set_channel_pty`. -/
def setChannelPty (channel : ChannelId) (term : String) (size : PtySize) (echo : Bool) :
    Except String Unit → ServerHandler → ServerHandler × Except HandlerError Unit :=
  onChannel channel fun state => { state with pty := ⟨term, size, echo⟩ }

/-- The opcode of `russh::Pty::ECHO`. -/
def ptyEcho : Nat := 53

/-- `pty_request`: echo is on unless the client turns it off. -/
def ptyRequest (channel : ChannelId) (term : String) (colWidth rowHeight pixWidth pixHeight : Nat)
    (modes : List (Nat × Nat)) (sent : Except String Unit) (h : ServerHandler) :
    ServerHandler × Except HandlerError Unit :=
  let echo := !modes.any fun mode => mode.1 == ptyEcho && mode.2 == 0
  setChannelPty channel term (ptySize colWidth rowHeight pixWidth pixHeight) echo sent h

/-- `record_env`. -/
def recordEnv (channel : ChannelId) (name value : String) :
    Except String Unit → ServerHandler → ServerHandler × Except HandlerError Unit :=
  onChannel channel fun state =>
    { state with env := (name, value) :: state.env.filter fun entry => entry.1 != name }

/-- `resize_channel`. -/
def resizeChannel (channel : ChannelId) (colWidth rowHeight pixWidth pixHeight : Nat) :
    Except String Unit → ServerHandler → ServerHandler × Except HandlerError Unit :=
  onChannel channel fun state =>
    { state with
      pty := { state.pty with size := ptySize colWidth rowHeight pixWidth pixHeight } }

/-- `close_channel_writer`. -/
def closeChannelWriter (channel : ChannelId) (h : ServerHandler) : ServerHandler :=
  h.modifyChannel channel fun state =>
    { state with process := state.process.map fun process => { process with ptyTx := false } }

/-- `close_channel`: the process is killed, and the slot cleared if it holds its PID. -/
def closeChannel (channel : ChannelId) (h : ServerHandler) : ServerHandler :=
  match h.processAt channel with
  | none => h.removeChannel channel
  | some process =>
      let cleared := (h.removeChannel channel).clearShellPidIfMatches process.child.pid
      { cleared with running := cleared.running.erase process.child }

/-- `channel_close`. -/
def channelClose (channel : ChannelId) (h : ServerHandler) : ServerHandler :=
  closeChannel channel { h with streamed := h.streamed.filter (· != channel) }

/-- The end of a reader task: `CleanupGuard::drop`. The process has ended, unless the wait for
it has been given up. -/
def cleanup (t : ReaderTask) (exited : Bool) (h : ServerHandler) : ServerHandler :=
  let cleared := (h.clearShellPidIfMatches (some t.pid)).removeChannel t.channel
  { cleared with
    tasks := cleared.tasks.erase t
    running := if exited then cleared.running.erase t.child else cleared.running }

end ServerHandler

/-! ## Runs -/

/-- What happens on a connection. -/
inductive ChannelEvent where
  | openSession (channel : ChannelId)
  | openDirectTcpip (channel : ChannelId)
  | pty (channel : ChannelId) (term : String) (colWidth rowHeight pixWidth pixHeight : Nat)
      (modes : List (Nat × Nat)) (sent : Except String Unit)
  | env (channel : ChannelId) (name value : String) (sent : Except String Unit)
  | windowChange (channel : ChannelId) (colWidth rowHeight pixWidth pixHeight : Nat)
      (sent : Except String Unit)
  | shell (channel : ChannelId) (sys : Spawning)
  | exec (channel : ChannelId) (command : String) (sys : Spawning)
  | data (channel : ChannelId) (bytes : List UInt8)
  | signal (channel : ChannelId)
  | eof (channel : ChannelId)
  | close (channel : ChannelId)
  /-- A process has ended, or its reader has and the wait was given up. -/
  | taskEnds (t : ReaderTask) (exited : Bool)
  /-- The session is over: `terminate_all_channels`, for one of the channels. -/
  | sweep (channel : ChannelId)

namespace ServerHandler

/-- The connection after an event; `none` where the event cannot happen. -/
def step (h : ServerHandler) : ChannelEvent → Option ServerHandler
  | .openSession channel => some (channelOpenSession channel h)
  | .openDirectTcpip channel => some (channelOpenDirectTcpip channel h)
  | .pty channel term c r w p modes sent => some (ptyRequest channel term c r w p modes sent h).1
  | .env channel name value sent => some (recordEnv channel name value sent h).1
  | .windowChange channel c r w p sent => some (resizeChannel channel c r w p sent h).1
  | .shell channel sys => some (startCommand sys channel none h).1
  | .exec channel command sys => some (startCommand sys channel (some command) h).1
  -- bytes and signals reach the process and leave the handler as it is
  | .data _ _ => some h
  | .signal _ => some h
  | .eof channel => some (closeChannelWriter channel h)
  | .close channel => some (channelClose channel h)
  | .taskEnds t exited => if t ∈ h.tasks then some (cleanup t exited h) else none
  | .sweep channel => some (closeChannel channel h)

end ServerHandler

end Irosh
