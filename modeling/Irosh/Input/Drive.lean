import Irosh.Input.Engine
import Irosh.Lib.Exec
import Irosh.Lib.Prog
import Irosh.Transfer.Serve

/-!
# Driving a shell session

`drive_session` waits for the terminal and for the remote side at once. What is typed goes
through the input engine; the actions that come out of it are carried out one after the
other, before anything else is looked at. Output of the remote goes to the terminal, except
while a line is edited: then it is held back, and written once a help text or a local
command has been shown.

A round of the outer loop is `turn` with an empty queue, and a round of the inner one is
`turn` with what is left of the queue. What a local command does beyond ending the session,
and what a completion finds, is left to the surroundings.
-/

namespace Irosh

/-- What `AsyncStdin` gives, where `none` is the end of it. The size of the window is left out. -/
inductive TerminalEvent where
  | data (bytes : List UInt8)
  | resize
  deriving DecidableEq, Repr

/-- `SessionEvent`, with the three that are passed over taken together. -/
inductive SessionEvent where
  | data (bytes : List UInt8)
  | extendedData (bytes : List UInt8)
  | closed
  | other
  deriving DecidableEq, Repr

/-- `DisconnectReason`, as far as `drive_session` gives one. -/
inductive DisconnectReason where
  | userInitiated
  | remoteClosed
  deriving DecidableEq, Repr

/-- Which arm of the `select!` it is. -/
inductive DriveEvent where
  | terminal (event : Option TerminalEvent)
  /-- `none` inside is the end of the stream. -/
  | session (event : Except Unit (Option SessionEvent))

/-- Whose text it is that goes to the terminal. -/
inductive Origin where
  | remote
  | engine
  | driver
  deriving DecidableEq, Repr

/-- What driving a session asks of its surroundings. -/
inductive DriveOp where
  | nextEvent
  | send (bytes : List UInt8)
  | stdout (origin : Origin) (bytes : List UInt8)
  | stderr (bytes : List UInt8)
  | resize
  | eof
  | disconnect
  | complete (line : LineSession)
  /-- What `execute_local_command` writes and transfers. -/
  | localCommand (command : LocalCommand)
  /-- What comes from the terminal within 50 ms. What is not read of it then is left for later. -/
  | readReport
  | terminalRows
  deriving DecidableEq

def DriveOp.Answer : DriveOp → Type
  | .nextEvent => DriveEvent
  | .send _ | .stdout _ _ | .stderr _ => Bool
  | .resize | .eof | .disconnect => Unit
  | .complete _ => CompletionResult
  -- the number of lines it has printed
  | .localCommand _ => Option Nat
  | .readReport => List (Option TerminalEvent)
  | .terminalRows => Nat

abbrev DriveProg := Prog DriveOp DriveOp.Answer

namespace DriveOp

abbrev perform (o : DriveOp) : DriveProg o.Answer := Prog.perform o

/-- `write_all` and `flush`. -/
def write (origin : Origin) (bytes : List UInt8) : DriveProg Bool := perform (.stdout origin bytes)

def writeErr (bytes : List UInt8) : DriveProg Bool := perform (.stderr bytes)

def sendAll (bytes : List UInt8) : DriveProg Bool := perform (.send bytes)

def rows : DriveProg Nat := perform .terminalRows

end DriveOp

/-- The state of `drive_session`. -/
structure Driver where
  engine : InputEngine
  remoteIsWindows : Bool
  /-- `remote_buffer`. -/
  held : List UInt8
  /-- `actions_queue`. -/
  queue : List EscapeAction
  deriving DecidableEq

/-! ## Where the cursor is -/

/-- `u16::saturating_add`. -/
def saturatingAdd16 (a b : Nat) : Nat := min (a + b) 65535

/-- The position of the first `ESC [`. -/
def findCsi : List UInt8 → Option Nat
  | 0x1b :: 0x5b :: _ => some 0
  | _ :: rest => (findCsi rest).map (· + 1)
  | [] => none

/-- What `query_cpr` takes out of what it has read: the row, and the bytes that are not part of the
report. -/
def cprReply (response : List UInt8) : Nat × List UInt8 :=
  match findCsi response with
  | none => (0, response)
  | some start =>
      match (response.drop start).idxOf? 0x52 with
      | none => (0, response)
      | some offset =>
          let report := Utf8.decodeLossy ((response.drop (start + 2)).take (offset - 2))
          ((Serve.parseUnsigned 10 65536 (report.takeWhile (· ≠ ';'))).getD 0,
            response.take start ++ response.drop (start + offset + 1))

/-- The loop of `query_cpr`: reads until what it has read ends with an `R`, or the time is over. -/
def readResponse (response : List UInt8) : List (Option TerminalEvent) → List UInt8
  | some (.data data) :: rest =>
      if (response ++ data).getLast? = some 0x52 then response ++ data
      else readResponse (response ++ data) rest
  -- a resize, and the end of the input, are passed over
  | some .resize :: rest => readResponse response rest
  | none :: rest => readResponse response rest
  | [] => response

/-- `query_cpr`, and its `unwrap_or`. -/
def queryCpr : DriveProg (Nat × List UInt8) := do
  if ← DriveOp.write .driver ([0x1b, 0x5b, 0x36, 0x6e]) then
    let events ← DriveOp.readReport.perform
    pure (cprReply (readResponse [] events))
  else pure (0, [])

/-! ## Actions -/

/-- `show_help`, with the empty line after it. -/
def helpText : List String :=
  ["[irosh] Supported Escape Sequences:\r\n",
    "  ~.  - Terminate connection\r\n",
    "  ~C  - Open local command prompt\r\n",
    "  ~?  - Display this help message\r\n",
    "  ~~  - Send a literal tilde character\r\n",
    "(Escape sequences are only recognized at the start of a line)\r\n"]

/-- One `write_all` after the other. -/
def writeLines : List String → DriveProg Bool
  | [] => pure true
  | line :: rest => do
      if ← DriveOp.write .driver (intoBytes line.toList) then writeLines rest else pure false

namespace Driver

/-- Writes what is held, if no line is edited. -/
def flushHeld (d : Driver) : DriveProg (Driver × Bool) :=
  if d.engine.mode = .remote ∧ d.held ≠ [] then do
    if ← DriveOp.write .remote d.held then pure ({ d with held := [] }, true)
    else pure (d, false)
  else pure (d, true)

/-- `flushHeld` at the end of an action that has printed that many lines. -/
def afterCommand (d : Driver) (lines : Nat) : DriveProg (Driver × Except Unit (Bool × Nat)) := do
  let (d, ok) ← d.flushHeld
  pure (d, if ok then .ok (true, lines) else .error ())

/-- The `match` of `handle_action`: whether to go on, and how many lines have been printed. -/
def perform (d : Driver) : EscapeAction → DriveProg (Driver × Except Unit (Bool × Nat))
  | .disconnect => do
      let ok ← DriveOp.write .driver (intoBytes "[irosh] Disconnecting...\r\n".toList)
      pure (d, if ok then .ok (false, 0) else .error ())
  | .help => do
      if ← writeLines helpText then
        let _ ← DriveOp.write .driver crlf
        d.afterCommand 11
      else pure (d, .error ())
  -- the engine has opened the prompt already
  | .commandPrompt => pure (d, .ok (true, 0))
  | .sendLiteral payload => do
      let ok ← DriveOp.sendAll payload
      pure (d, if ok then .ok (true, 0) else .error ())
  | .runLocal command => do
      match ← (DriveOp.localCommand command).perform with
      | none => pure (d, .error ())
      | some lines =>
          if command = .disconnect then pure (d, .ok (false, lines)) else d.afterCommand lines
  | .requestCompletion =>
      match d.engine.activeLine with
      | none => pure (d, .ok (true, 0))
      | some line => do
          let result ← (DriveOp.complete line).perform
          let (engine, feedback) := d.engine.completeActiveLine result
          let d := { d with engine := engine }
          if feedback = [] then pure (d, .ok (true, 0))
          else do
            let ok ← DriveOp.write .engine feedback
            pure (d, if ok then .ok (true, 0) else .error ())

/-- The end of `handle_action`: has the remote scroll, if it is Windows and the cursor has run out of
the window. -/
def scrolled (d : Driver) (beforeRow lines : Nat) : DriveProg Bool :=
  if d.remoteIsWindows = true ∧ 0 < lines then do
    let rows ← DriveOp.rows
    if 0 < saturatingAdd16 beforeRow lines - rows then DriveOp.sendAll [0x0c, 0x0d] else pure true
  else pure true

/-- The beginning of `handle_action`. -/
def cursorBefore (d : Driver) : DriveProg (Nat × List UInt8) :=
  if d.remoteIsWindows then queryCpr else pure (0, [])

/-- `handle_action`: whether to go on, and the bytes that were read past. -/
def handleAction (d : Driver) (action : EscapeAction) :
    DriveProg (Driver × Except Unit (Bool × List UInt8)) := do
  let (beforeRow, swallowed) ← d.cursorBefore
  let (d, result) ← d.perform action
  match result with
  | .error () => pure (d, .error ())
  | .ok (false, _) => pure (d, .ok (false, swallowed))
  | .ok (true, lines) =>
      let ok ← d.scrolled beforeRow lines
      pure (d, if ok then .ok (true, swallowed) else .error ())

/-! ## The loop -/

/-- How the loop ends, if it does. -/
abbrev Ending := Option (Except Unit DisconnectReason)

/-- `finish_remote_closed`. -/
def finishRemoteClosed (d : Driver) : DriveProg (Driver × Ending) := do
  let _ ← DriveOp.disconnect.perform
  pure (d, some (.ok .remoteClosed))

/-- What the engine shows. -/
def shown (d : Driver) (feedback : List UInt8) : DriveProg (Driver × Ending) :=
  if feedback = [] then pure (d, none)
  else do
    let ok ← DriveOp.write .engine feedback
    pure (d, if ok then none else some (.error ()))

/-- `process_local` on what was typed, and what comes out of it. -/
def typed (split : ShellWords) (d : Driver) (data : List UInt8) : DriveProg (Driver × Ending) := do
  let (engine, out) := d.engine.processLocal split data
  let d := { d with engine := engine, queue := d.queue ++ out.actions }
  if out.toRemote = [] then d.shown out.toLocal
  else do
    if ← DriveOp.sendAll out.toRemote then d.shown out.toLocal
    -- the remote has closed the session meanwhile
    else d.finishRemoteClosed

/-- The first arm of the `select!`. -/
def onTerminal (split : ShellWords) (d : Driver) : Option TerminalEvent → DriveProg (Driver × Ending)
  | some (.data bytes) => d.typed split bytes
  | some .resize => do
      let _ ← DriveOp.resize.perform
      let (engine, feedback) := d.engine.handleResize
      let d := { d with engine := engine }
      match feedback with
      | some bytes =>
          let _ ← DriveOp.write .engine bytes
          pure (d, none)
      | none => pure (d, none)
  | none => do
      let _ ← DriveOp.eof.perform
      let _ ← DriveOp.disconnect.perform
      pure (d, some (.ok .userInitiated))

/-- The second arm. -/
def onSession (d : Driver) : Except Unit (Option SessionEvent) → DriveProg (Driver × Ending)
  | .ok (some (.data bytes)) => do
      let d := { d with engine := d.engine.observeRemote bytes }
      if d.engine.mode = .localEdit then pure ({ d with held := d.held ++ bytes }, none)
      else do
        let ok ← DriveOp.write .remote bytes
        pure (d, if ok then none else some (.error ()))
  | .ok (some (.extendedData bytes)) => do
      let ok ← DriveOp.writeErr bytes
      pure (d, if ok then none else some (.error ()))
  | .ok (some .closed) | .ok none | .error () => d.finishRemoteClosed
  | .ok (some .other) => pure (d, none)

/-- What was read past while an action was carried out. -/
def reprocess (split : ShellWords) (d : Driver) (swallowed : List UInt8) : DriveProg (Driver × Ending) :=
  if swallowed = [] then pure (d, none) else d.typed split swallowed

/-- What comes after an action. -/
def afterAction (split : ShellWords) (d : Driver) :
    Except Unit (Bool × List UInt8) → DriveProg (Driver × Ending)
  | .error () => pure (d, some (.error ()))
  | .ok (goOn, swallowed) => do
      let (d, ending) ← d.reprocess split swallowed
      match ending with
      | some ending => pure (d, some ending)
      | none =>
          if goOn then pure (d, none)
          else do
            let _ ← DriveOp.disconnect.perform
            pure (d, some (.ok .userInitiated))

/-- A round of the loop of `drive_session`, or of the loop over `actions_queue` in it. -/
def turn (split : ShellWords) (d : Driver) : DriveProg (Driver × Ending) :=
  match d.queue with
  | [] => do
      match ← DriveOp.nextEvent.perform with
      | .terminal event => d.onTerminal split event
      | .session event => d.onSession event
  | action :: rest => do
      let (d, result) ← Driver.handleAction { d with queue := rest } action
      d.afterAction split result

end Driver

/-! ## Runs -/

/-- What has come and gone, as told by the operations (ghost). -/
structure Screen where
  /-- The remote's output that has come. -/
  arrived : List UInt8
  /-- The remote's output that was written to the terminal. -/
  printed : List UInt8
  disconnected : Bool
  deriving DecidableEq

/-- What an operation and its answer add. -/
def Screen.after (s : Screen) : (o : DriveOp) → o.Answer → Screen
  | .nextEvent, .session (.ok (some (.data bytes))) => { s with arrived := s.arrived ++ bytes }
  | .stdout .remote bytes, true => { s with printed := s.printed ++ bytes }
  | .disconnect, _ => { s with disconnected := true }
  | _, _ => s

/-- A session that is driven. -/
structure Drive where
  driver : Driver
  screen : Screen
  ending : Driver.Ending
  deriving DecidableEq

namespace Drive

/-- The start of `drive_session`. -/
def start (engine : InputEngine) (remoteIsWindows : Bool) : Drive :=
  ⟨⟨engine, remoteIsWindows, [], []⟩, ⟨[], [], false⟩, none⟩

/-- What answers the operations of a turn. -/
abbrev Surroundings := Nat → (o : DriveOp) → o.Answer

/-- One more turn, unless the loop has ended. -/
def step (split : ShellWords) (s : Drive) (answers : Surroundings) : Option Drive :=
  if s.ending = none then
    let result := (s.driver.turn split).outcome answers 0
    some ⟨result.1, ((s.driver.turn split).steps answers 0).foldl (fun g o => g.after o.1 o.2) s.screen,
      result.2⟩
  else none

end Drive

end Irosh
