import Irosh.Lib.Exec
import Mathlib.Data.List.Basic

/-!
# Running a command for a client

The task that `start_command` leaves behind for a command, on Unix, together with what it
deals with: the terminal that the command writes to, the thread that waits for its
process, the messages on the channel, and `capture_exec` at their other end.

The task reads the terminal and waits for the process at once. When the process is the
first to be done, the reader has half a second more; when the reader is, the process has
thirty seconds. Then the exit status is sent, the end of the output, and the end of the
channel. The reader only gets on while the task waits for it: what it holds when its time
is up stays where it is.

The terminal is set up as `openpty` leaves it, so that a line feed comes out of it as a
carriage return and a line feed, unless the command switches that off. Where there is an
idle timeout, the reaper may close the channel at any time.
-/

namespace Irosh

/-- `ChannelMsg`, as far as the task sends it. -/
inductive ChannelMsg where
  | success
  | data (bytes : List UInt8)
  | exitStatus (code : Nat)
  | eof
  | close
  deriving DecidableEq, Repr

/-- `ExecOutput`. -/
structure ExecOutput where
  stdout : List UInt8
  stderr : List UInt8
  exitStatus : Nat
  deriving DecidableEq, Repr

namespace ExecOutput

/-- `ExecOutput::default`. -/
def default : ExecOutput := ⟨[], [], 0⟩

/-- The loop of `capture_exec`, with one message. -/
def add (output : ExecOutput) : ChannelMsg → ExecOutput
  | .data bytes => { output with stdout := output.stdout ++ bytes }
  | .exitStatus code => { output with exitStatus := code }
  | .success | .eof | .close => output

end ExecOutput

/-- The reader in the task. -/
inductive PtyReader where
  | reading
  /-- It waits for the session to take what it has read. -/
  | sending (chunk : List UInt8)
  | ended
  deriving DecidableEq, Repr

/-- Where the task stands. -/
inductive ExecPc where
  /-- In the `select!`. -/
  | racing
  /-- The process is done; the reader has 500 ms. -/
  | draining (status : Nat)
  /-- The reader is done; the process has `CHILD_WAIT_TIMEOUT`. -/
  | awaiting
  /-- The messages that are left to be sent. -/
  | reporting (left : List ChannelMsg)
  deriving DecidableEq, Repr

/-- How `capture_exec` has left its loop. -/
inductive CaptureEnd where
  | closed
  /-- `wait` has returned `None`. -/
  | lost
  deriving DecidableEq, Repr

/-- What comes out of the terminal for what is written to it, with `ONLCR` set or not. -/
def terminalOutput (onlcr : Bool) (bytes : List UInt8) : List UInt8 :=
  if onlcr then bytes.flatMap fun b => if b = 0x0a then [0x0d, 0x0a] else [b] else bytes

structure ExecTask where
  /-- `ONLCR`. -/
  onlcr : Bool
  /-- All that was written to the terminal, with how that was set (ghost). -/
  written : List (Bool × List UInt8)
  unread : List UInt8
  /-- Whether some process has the terminal open. -/
  writers : Bool
  /-- What the command's process has exited with. -/
  child : Option Nat
  /-- What `child_waiter` has returned. -/
  waiter : Option Nat
  reader : PtyReader
  pc : ExecPc
  /-- Whether there is an idle timeout. -/
  idleTimeout : Bool
  /-- Whether the session takes no more messages. -/
  gone : Bool
  /-- The messages of the task that the session has taken. -/
  sent : List ChannelMsg
  /-- How many of them come before the reaper's `close`, if it has closed the channel. -/
  reaped : Option Nat
  /-- How many of them `capture_exec` has had. -/
  taken : Nat
  output : ExecOutput
  captured : Option CaptureEnd
  /-- The reader has seen the end of the terminal (ghost). -/
  sawEnd : Bool
  /-- The exit status could not be found out, or not in time (ghost). -/
  unknown : Bool
  deriving DecidableEq, Repr

inductive ExecEvent where
  | writes (bytes : List UInt8)
  /-- `stty`, by the command. -/
  | setsOutput (onlcr : Bool)
  /-- The last process closes the terminal. -/
  | hangsUp
  | exits (code : Nat)
  /-- `child.wait` returns. -/
  | waited (ok : Bool)
  /-- At most 8192 bytes. -/
  | reads (count : Nat)
  /-- `data` returns. -/
  | forwards
  | seesEnd
  /-- Cancelled, a failed read, or no file descriptor to read. -/
  | readerStops
  | childFirst
  | readerFirst
  | drained
  | drainTimeout
  | childLater
  | waitTimeout
  | report
  | reap
  | sessionEnds
  | receive
  | lose
  deriving DecidableEq, Repr

namespace ExecTask

/-- A command has been spawned, and the client told so. -/
def started (idleTimeout : Bool) : ExecTask where
  onlcr := true
  written := []
  unread := []
  writers := true
  child := none
  waiter := none
  reader := .reading
  pc := .racing
  idleTimeout := idleTimeout
  gone := false
  sent := [.success]
  reaped := none
  taken := 0
  output := .default
  captured := none
  sawEnd := false
  unknown := false

/-- What has come out of the terminal for what was written. -/
def shown (s : ExecTask) : List UInt8 := s.written.flatMap fun write => terminalOutput write.1 write.2

/-- Whether the task waits for the reader. -/
def polled (s : ExecTask) : Bool :=
  match s.pc with
  | .racing | .draining _ => true
  | .awaiting | .reporting _ => false

/-- What the task says at its end. -/
def reportOf (status : Nat) : List ChannelMsg := [.exitStatus status, .eof, .close]

/-- A message for the session, which takes it unless it is gone. -/
def push (s : ExecTask) (msg : ChannelMsg) : ExecTask :=
  if s.gone then s else { s with sent := s.sent ++ [msg] }

/-- The reader, where it gets on. -/
def readerStep (s : ExecTask) : ExecEvent → Option ExecTask
  | .reads count =>
      if s.reader = .reading ∧ 0 < count ∧ count ≤ 8192 ∧ count ≤ s.unread.length then
        some { s with reader := .sending (s.unread.take count), unread := s.unread.drop count }
      else none
  | .forwards =>
      match s.reader with
      | .sending chunk =>
          -- a failed `data` ends the loop
          if s.gone then some { s with reader := .ended }
          else some { s.push (.data chunk) with reader := .reading }
      | .reading | .ended => none
  | .seesEnd =>
      if s.reader = .reading ∧ s.unread = [] ∧ s.writers = false then
        some { s with reader := .ended, sawEnd := true }
      else none
  | .readerStops => if s.reader = .reading then some { s with reader := .ended } else none
  | _ => none

/-- The task itself. -/
def taskStep (s : ExecTask) : ExecEvent → Option ExecTask
  | .childFirst =>
      match s.pc, s.waiter with
      | .racing, some status => some { s with pc := .draining status }
      | _, _ => none
  | .readerFirst =>
      if s.pc = .racing ∧ s.reader = .ended then some { s with pc := .awaiting } else none
  | .drained =>
      match s.pc with
      | .draining status =>
          if s.reader = .ended then some { s with pc := .reporting (reportOf status) } else none
      | _ => none
  | .drainTimeout =>
      match s.pc with
      | .draining status => some { s with pc := .reporting (reportOf status) }
      | _ => none
  | .childLater =>
      match s.pc, s.waiter with
      | .awaiting, some status => some { s with pc := .reporting (reportOf status) }
      | _, _ => none
  | .waitTimeout =>
      if s.pc = .awaiting then some { s with pc := .reporting (reportOf 255), unknown := true } else none
  | .report =>
      match s.pc with
      | .reporting (msg :: left) => some { s.push msg with pc := .reporting left }
      | _ => none
  | _ => none

/-- The processes, the network, and the client. -/
def worldStep (s : ExecTask) : ExecEvent → Option ExecTask
  | .writes bytes =>
      if s.writers then
        some { s with
          written := s.written ++ [(s.onlcr, bytes)]
          unread := s.unread ++ terminalOutput s.onlcr bytes }
      else none
  | .setsOutput onlcr => if s.writers then some { s with onlcr := onlcr } else none
  | .hangsUp => some { s with writers := false }
  | .exits code => if s.child = none then some { s with child := some code } else none
  | .waited ok =>
      match s.child, s.waiter with
      | some code, none =>
          some (if ok then { s with waiter := some code } else { s with waiter := some 255, unknown := true })
      | _, _ => none
  | .reap =>
      if s.idleTimeout = true ∧ s.gone = false ∧ s.reaped = none then
        some { s with reaped := some s.sent.length }
      else none
  | .sessionEnds => some { s with gone := true }
  | .receive =>
      if s.captured ≠ none then none
      else if s.reaped = some s.taken then
        some { s with output := s.output.add .close, captured := some .closed }
      else
        match s.sent[s.taken]? with
        | some msg =>
            some { s with
              taken := s.taken + 1
              output := s.output.add msg
              captured := if msg = .close then some .closed else none }
        | none => none
  | .lose => if s.captured = none then some { s with captured := some .lost } else none
  | _ => none

def step (s : ExecTask) (e : ExecEvent) : Option ExecTask :=
  match (if s.polled then s.readerStep e else none) with
  | some s' => some s'
  | none =>
      match s.taskStep e with
      | some s' => some s'
      | none => s.worldStep e

/-- The steps of the task that wait for nobody. -/
def isOwn : ExecEvent → Bool
  | .childFirst | .readerFirst | .drainTimeout | .waitTimeout | .report => true
  | _ => false

/-- Whether the client has been told an exit status. -/
def told (s : ExecTask) : Prop := ∃ code, ChannelMsg.exitStatus code ∈ s.sent.take s.taken

/-- The task is over, and its `CleanupGuard` is dropped. -/
def finished (s : ExecTask) : Prop := s.pc = .reporting []

end ExecTask

end Irosh
