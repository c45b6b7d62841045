import Irosh.Input.Editor

/-!
# The input engine

What a user types goes to the remote shell, until a `~` at the start of a line opens the
escape line. From then on bytes go to a line editor on this side, until the line is
submitted, cancelled, or backspaced away.

`processLocal` takes whatever one read from the terminal returned. It has two loops, one
for each mode; the first hands the rest of the bytes to the second when a `~` opens the
escape line, and the second never hands anything back.

`split` is `shell_words::split`, with `none` for a text it does not accept.
-/

namespace Irosh

/-! ## Local commands -/

/-- `LocalCommand`. -/
inductive LocalCommand where
  | help
  | lpwd
  | lls (path : Option (List Char))
  | lcd (path : List Char)
  | paths
  | exit
  | disconnect
  | clear
  | put (file : List Char) (remote : Option (List Char)) (recursive : Bool)
  | get (remote : List Char) (file : Option (List Char)) (recursive : Bool)
  | usageError (text : String)
  | unknown (keyword : List Char)
  deriving DecidableEq, Repr

/-- `shell_words::split`. -/
abbrev ShellWords := List Char → Option (List (List Char))

/-- Whether a keyword is one of these. -/
def isOneOf (keyword : List Char) (words : List String) : Bool :=
  words.any fun word => word.toList == keyword

/-- The arguments that are not flags, and whether there was a `-r` or `--recursive`. -/
def splitFlags (args : List (List Char)) : List (List Char) × Bool :=
  (args.filter fun arg => !isOneOf arg ["-r", "--recursive"],
    args.any fun arg => isOneOf arg ["-r", "--recursive"])

/-- `parse_local_command`. -/
def parseLocalCommand (split : ShellWords) (buf : List UInt8) : Option LocalCommand :=
  let trimmed := trim (Utf8.decodeLossy buf)
  if trimmed = [] then none
  else
    match (split trimmed).getD [] with
    | [] => none
    | keyword :: rest =>
        if isOneOf keyword ["help", "?", "~?", "~help"] then some .help
        else if isOneOf keyword ["lpwd", "pwd", "~lpwd", "~pwd"] then some .lpwd
        else if isOneOf keyword ["lls", "ls", "~lls", "~ls"] then some (.lls rest.head?)
        else if isOneOf keyword ["lcd", "cd", "~lcd", "~cd"] then
          match rest with
          | path :: _ => some (.lcd path)
          | [] => some (.usageError "lcd: missing directory path. Usage: lcd <path>")
        else if isOneOf keyword ["paths"] then some .paths
        else if isOneOf keyword ["exit", "~exit"] then some .exit
        else if isOneOf keyword ["disconnect", "~disconnect"] then some .disconnect
        else if isOneOf keyword ["clear", "cls", "~clear", "~cls"] then some .clear
        else if isOneOf keyword ["put", "~put"] then
          match splitFlags rest with
          | (file :: args, recursive) => some (.put file args.head? recursive)
          | ([], _) => some (.usageError "put: missing local path. Usage: put [-r] <local> [remote]")
        else if isOneOf keyword ["get", "~get"] then
          match splitFlags rest with
          | (remote :: args, recursive) => some (.get remote args.head? recursive)
          | ([], _) => some (.usageError "get: missing remote path. Usage: get [-r] <remote> [local]")
        else some (.unknown keyword)

/-! ## Escape actions -/

/-- `EscapeAction`. -/
inductive EscapeAction where
  | disconnect
  | commandPrompt
  | help
  | sendLiteral (payload : List UInt8)
  | runLocal (command : LocalCommand)
  | requestCompletion
  deriving DecidableEq, Repr

/-- `u8::is_ascii_whitespace`. -/
def isAsciiWhitespace (b : UInt8) : Bool := b == 0x20 || b == 0x09 || b == 0x0a || b == 0x0c || b == 0x0d

/-- `trim_bytes`. -/
def trimBytes (s : List UInt8) : List UInt8 :=
  (((s.dropWhile isAsciiWhitespace).reverse).dropWhile isAsciiWhitespace).reverse

/-- The text after a leading `~`, or the whole of it. -/
def afterTilde : List UInt8 → List UInt8
  | 0x7e :: rest => rest
  | buf => buf

/-- `parse_escape`. -/
def parseEscape (split : ShellWords) (buf : List UInt8) : Option EscapeAction :=
  let cmd := trimBytes (afterTilde buf)
  if cmd = [0x2e] then some .disconnect
  else if cmd = [0x3f] ∨ cmd = [0x68, 0x65, 0x6c, 0x70] then some .help
  else if cmd = [0x43] ∨ cmd = [0x63] then some .commandPrompt
  else if cmd = [0x7e] then some (.sendLiteral [0x7e])
  else (parseLocalCommand split cmd).map .runLocal

/-- `paired_enter_byte`. -/
def pairedEnterByte (byte : UInt8) : Option UInt8 :=
  if byte = 0x0d then some 0x0a else if byte = 0x0a then some 0x0d else none

/-! ## The state -/

inductive InputMode where
  | remote
  | localEdit
  deriving DecidableEq, Repr

/-- `ControlSequenceState`. -/
inductive ControlSequenceState where
  | none
  | escape
  | csi
  deriving DecidableEq, Repr

/-- `RemoteAnsiState`. -/
inductive RemoteAnsiState where
  | none
  | afterEsc
  | inCsi
  | inOsc
  | inOscEsc
  deriving DecidableEq, Repr

/-- `LineSession`. -/
structure LineSession where
  editor : LineEditor
  displayCursor : Nat
  controlState : ControlSequenceState
  deriving DecidableEq, Repr

/-- `InputEngine`. `remote_is_windows` is for its owner only. -/
structure InputEngine where
  mode : InputMode
  atStartOfLine : Bool
  localLineLen : Nat
  activeLine : Option LineSession
  escapeHistory : CommandHistory
  promptHistory : CommandHistory
  swallowNextEnterPair : Option UInt8
  remoteAnsi : RemoteAnsiState
  deriving DecidableEq, Repr

/-- What a call returns: bytes for either side, and actions. -/
structure Output where
  toRemote : List UInt8
  toLocal : List UInt8
  actions : List EscapeAction
  deriving DecidableEq, Repr

namespace Output

def empty : Output := ⟨[], [], []⟩

/-- One after the other. -/
def append (a b : Output) : Output :=
  ⟨a.toRemote ++ b.toRemote, a.toLocal ++ b.toLocal, a.actions ++ b.actions⟩

instance : Append Output := ⟨append⟩

def remote (bytes : List UInt8) : Output := ⟨bytes, [], []⟩

def shown (bytes : List UInt8) : Output := ⟨[], bytes, []⟩

def action (a : EscapeAction) : Output := ⟨[], [], [a]⟩

end Output

/-! ## What is shown -/

/-- The decimal digits of `n`, for as many digits as there is fuel. -/
def decimalFuel : Nat → Nat → List UInt8
  | 0, _ => []
  | fuel + 1, n =>
      if n < 10 then [UInt8.ofNat (0x30 + n)]
      else decimalFuel fuel (n / 10) ++ [UInt8.ofNat (0x30 + n % 10)]

/-- A number in a format string. -/
def decimal (n : Nat) : List UInt8 := decimalFuel (n + 1) n

/-- `ESC [ n` and a final byte. -/
def csi (n : Nat) (final : UInt8) : List UInt8 := [0x1b, 0x5b] ++ decimal n ++ [final]

/-- `irosh> `. -/
def promptText : List UInt8 := [0x69, 0x72, 0x6f, 0x73, 0x68, 0x3e, 0x20]

/-- CR LF. -/
def crlf : List UInt8 := [0x0d, 0x0a]

/-- `ESC [ K`. -/
def eraseToEnd : List UInt8 := [0x1b, 0x5b, 0x4b]

namespace LineSession

/-- `render_line`: what it prints. -/
def rendered (line : LineSession) : List UInt8 :=
  let tailLen := line.editor.line.length - line.editor.cursor
  [0x0d]
    ++ (match line.editor.mode with
        | .prompt => promptText
        | .escape => [])
    ++ eraseToEnd ++ line.editor.line
    ++ if tailLen > 0 then csi tailLen 0x44 else []

/-- `render_line`: the line it leaves. -/
def renderLine (line : LineSession) : LineSession := { line with displayCursor := line.editor.cursor }

/-- `echo_escape_line`. -/
def echoEscapeLine (line : LineSession) : List UInt8 := line.editor.line.getLast?.toList

/-- `clear_line_preview`. -/
def clearLinePreview (line : LineSession) (charsOnScreen : Nat) : List UInt8 :=
  match line.editor.mode with
  | .escape => (List.replicate (max charsOnScreen 1) [0x08, 0x20, 0x08]).flatten
  | .prompt => [0x0d] ++ eraseToEnd

/-- `finalize_submitted_line` and `finalize_exit_line`; both zero the display cursor as well. -/
def finalized (line : LineSession) : List UInt8 :=
  let tailLen := line.editor.line.length - line.displayCursor
  (if tailLen > 0 then csi tailLen 0x43 else []) ++ crlf

/-- A fresh prompt. -/
def newPrompt : LineSession := ⟨.newPrompt, 0, .none⟩

/-- A fresh escape line. -/
def newEscape : LineSession := ⟨.newEscape, 0, .none⟩

end LineSession

namespace InputEngine

/-- `InputEngine::new`, with the lines of the two history files. -/
def new (escapeLines promptLines : List (List Char)) : InputEngine where
  mode := .remote
  atStartOfLine := true
  localLineLen := 0
  activeLine := none
  escapeHistory := .new escapeLines
  promptHistory := .new promptLines
  swallowNextEnterPair := none
  remoteAnsi := .none

/-! ## Typing to the remote -/

/-- `observe_remote`. -/
def observeRemote (e : InputEngine) (data : List UInt8) : InputEngine :=
  data.foldl (fun e byte =>
    if byte = 0x0a then { e with atStartOfLine := true, localLineLen := 0 } else e) e

/-- `handle_remote_byte`. The byte itself goes to the remote. -/
def handleRemoteByte (e : InputEngine) (byte : UInt8) : InputEngine :=
  match e.remoteAnsi with
  | .none =>
      if byte = 0x0d ∨ byte = 0x0a then { e with atStartOfLine := true, localLineLen := 0 }
      else if byte = 0x1b then { e with remoteAnsi := .afterEsc }
      else if byte = 8 ∨ byte = 127 then { e with localLineLen := e.localLineLen - 1 }
      else { e with atStartOfLine := false, localLineLen := e.localLineLen + 1 }
  | .afterEsc =>
      { e with remoteAnsi := if byte = 0x5b then .inCsi else if byte = 0x5d then .inOsc else .none }
  | .inCsi => if 0x20 ≤ byte ∧ byte ≤ 0x3f then e else { e with remoteAnsi := .none }
  | .inOsc =>
      if byte = 0x07 then { e with remoteAnsi := .none }
      else if byte = 0x1b then { e with remoteAnsi := .inOscEsc }
      else e
  | .inOscEsc => { e with remoteAnsi := .none }

/-! ## Editing -/

/-- `exit_local_prompt`. -/
def exitLocalPrompt (e : InputEngine) : InputEngine × Output :=
  ({ e with mode := .remote, atStartOfLine := true, localLineLen := 0, activeLine := none },
    .remote [0x0d])

/-- The history of the line that is edited. -/
def historyOf (e : InputEngine) : EditorMode → CommandHistory
  | .escape => e.escapeHistory
  | .prompt => e.promptHistory

def withHistory (e : InputEngine) (history : CommandHistory) : EditorMode → InputEngine
  | .escape => { e with escapeHistory := history }
  | .prompt => { e with promptHistory := history }

/-- The `SubmitEscape` arm of `apply_editor_event`. -/
def submitEscape (split : ShellWords) (e : InputEngine) (line : LineSession) (bytes : List UInt8) :
    InputEngine × LineSession × Output :=
  let e := { e with escapeHistory := e.escapeHistory.add (Utf8.decodeLossy bytes) }
  let done := Output.shown line.finalized
  match parseEscape split bytes with
  | some .commandPrompt =>
      ({ e with mode := .localEdit, atStartOfLine := true, localLineLen := 0 }, .newPrompt,
        done ++ .shown promptText ++ .action .commandPrompt)
  | some (.sendLiteral payload) =>
      ({ e with mode := .remote, atStartOfLine := false, localLineLen := 1, activeLine := none }, line,
        done ++ .action (.sendLiteral payload))
  | some action =>
      let (e, out) := e.exitLocalPrompt
      (e, line, done ++ out ++ .action action)
  | none =>
      let (e, out) := e.exitLocalPrompt
      (e, line, done ++ out ++ .remote ([0x7e] ++ bytes ++ [0x0d]))

/-- The `SubmitPrompt` arm of `apply_editor_event`. -/
def submitPrompt (split : ShellWords) (e : InputEngine) (line : LineSession) (bytes : List UInt8) :
    InputEngine × LineSession × Output :=
  let e := { e with promptHistory := e.promptHistory.add (Utf8.decodeLossy bytes) }
  let done := Output.shown line.finalized
  match parseLocalCommand split bytes with
  | none => (e, .newPrompt, done ++ .shown (crlf ++ promptText))
  | some .exit =>
      let (e, out) := e.exitLocalPrompt
      (e, line, done ++ out ++ .action (.runLocal .exit))
  | some .disconnect =>
      let (e, out) := e.exitLocalPrompt
      (e, line, done ++ out ++ .action (.runLocal .disconnect))
  | some command => (e, .newPrompt, done ++ .action (.runLocal command))

/-- `apply_editor_event`. -/
def applyEditorEvent (split : ShellWords) (e : InputEngine) (line : LineSession) (event : EditorEvent) :
    InputEngine × LineSession × Output :=
  let (editor, history, effect) := line.editor.apply (e.historyOf line.editor.mode) event
  let e := e.withHistory history line.editor.mode
  let line := { line with editor := editor }
  match effect with
  | .noOp => (e, line, .empty)
  | .render =>
      match line.editor.mode with
      | .escape => (e, line, .shown line.echoEscapeLine)
      | .prompt => (e, line.renderLine, .shown line.rendered)
  | .clearAndExit =>
      let (e, out) := e.exitLocalPrompt
      (e, line, .shown (line.clearLinePreview line.editor.line.length) ++ out)
  | .requestCompletion => (e, line, .action .requestCompletion)
  | .submitEscape bytes => e.submitEscape split line bytes
  | .submitPrompt bytes => e.submitPrompt split line bytes

/-- `consume_local_ansi`. -/
def consumeLocalAnsi (state : ControlSequenceState) (byte : UInt8) :
    ControlSequenceState × Option EditorEvent :=
  match state with
  | .escape => (if byte = 0x5b then .csi else .none, none)
  | .csi =>
      if 0x20 ≤ byte ∧ byte ≤ 0x3f then (.csi, none)
      else
        (.none,
          if byte = 0x41 then some .historyUp
          else if byte = 0x42 then some .historyDown
          else if byte = 0x43 then some .moveRight
          else if byte = 0x44 then some .moveLeft
          else if byte = 0x48 then some .moveHome
          else if byte = 0x46 then some .moveEnd
          else if byte = 0x7e then some .delete
          else none)
  | .none => (.none, none)

/-- The control state after a byte, and the event it makes. Ctrl-C is not an event. -/
def localEvent (state : ControlSequenceState) (byte : UInt8) :
    ControlSequenceState × Option EditorEvent :=
  if state ≠ .none then consumeLocalAnsi state byte
  else if byte = 0x1b then (.escape, none)
  else if byte = 8 ∨ byte = 127 then (.none, some .backspace)
  else if byte = 0x0d ∨ byte = 0x0a then (.none, some .submit)
  else if byte = 0x09 then (.none, some .tab)
  else if 0x20 ≤ byte ∧ byte ≤ 0x7e then (.none, some (.insertByte byte))
  else (.none, none)

/-- Whether a byte is a Ctrl-C, or an Enter. -/
def isCtrlC (state : ControlSequenceState) (byte : UInt8) : Bool := state == .none && byte == 0x03

def isEnter (state : ControlSequenceState) (byte : UInt8) : Bool :=
  state == .none && (byte == 0x0d || byte == 0x0a)

/-- The body of the loop in `LocalEdit` mode, where the line has been taken out of the engine: the
state, the output, and whether the loop goes on. -/
def localByte (split : ShellWords) (e : InputEngine) (line : LineSession) (byte : UInt8) :
    InputEngine × Output × Bool :=
  if isCtrlC line.controlState byte then
    let (e, out) := exitLocalPrompt { e with activeLine := none }
    (e, .shown ([0x5e, 0x43] ++ crlf) ++ out, false)
  else
    let e := { e with activeLine := none }
    let e := if isEnter line.controlState byte then
        { e with swallowNextEnterPair := pairedEnterByte byte, atStartOfLine := true, localLineLen := 0 }
      else e
    let (controlState, event) := localEvent line.controlState byte
    let line := { line with controlState := controlState }
    let (e, line, out) := match event with
      | some event => e.applyEditorEvent split line event
      | none => (e, line, .empty)
    (match e.mode with
      | .localEdit => { e with activeLine := some line }
      | .remote => e, out, true)

/-- The loop in `LocalEdit` mode. -/
def processEdit (split : ShellWords) : InputEngine → List UInt8 → InputEngine × Output
  | e, [] => (e, .empty)
  | e, byte :: rest =>
      match e.activeLine with
      -- what is left of the bytes is dropped
      | none => ({ e with mode := .remote }, .empty)
      | some line =>
          let (e, out, more) := e.localByte split line byte
          if more then
            let (e, out') := processEdit split e rest
            (e, out ++ out')
          else (e, out)

/-- A `~` opens the escape line. -/
def openEscape (e : InputEngine) : InputEngine :=
  { e with mode := .localEdit, activeLine := some .newEscape }

/-- The loop in `Remote` mode. -/
def processRemote (split : ShellWords) : InputEngine → List UInt8 → InputEngine × Output
  | e, [] => (e, .empty)
  | e, byte :: rest =>
      if e.swallowNextEnterPair = some byte then
        processRemote split { e with swallowNextEnterPair := none } rest
      else
        let e := { e with swallowNextEnterPair := none }
        if e.localLineLen = 0 ∧ byte = LineEditor.tilde then
          -- `process_local` on the rest, now in `LocalEdit` mode
          let (e, out) := e.openEscape.processEdit split rest
          (e, .shown [LineEditor.tilde] ++ out)
        else
          let (e, out) := processRemote split (e.handleRemoteByte byte) rest
          (e, .remote [byte] ++ out)

/-- `process_local`. -/
def processLocal (split : ShellWords) (e : InputEngine) (data : List UInt8) : InputEngine × Output :=
  match e.mode with
  | .remote => e.processRemote split data
  | .localEdit => e.processEdit split data

end InputEngine

/-! ## Completion and resizing -/

/-- What `complete_line` returns; `none` is also an error. -/
inductive CompletionResult where
  | none
  | applied (line : List UInt8) (cursor : Nat)
  | suggestions (found : List (List Char))
  deriving DecidableEq, Repr

/-- The suggestions, two spaces between them. -/
def joinSuggestions (found : List (List Char)) : List UInt8 :=
  ((found.map intoBytes).intersperse [0x20, 0x20]).flatten

namespace InputEngine

/-- `complete_active_line`. -/
def completeActiveLine (e : InputEngine) (result : CompletionResult) : InputEngine × List UInt8 :=
  match e.activeLine with
  | none => (e, [])
  | some line =>
      match result with
      | .none => (e, [])
      | .applied text cursor =>
          let line := { line with editor := line.editor.replaceLine text cursor }
          match line.editor.mode with
          | .escape => ({ e with activeLine := some line }, line.echoEscapeLine)
          | .prompt => ({ e with activeLine := some line.renderLine }, line.rendered)
      | .suggestions found =>
          let list := crlf ++ joinSuggestions found ++ crlf
          match line.editor.mode with
          | .prompt =>
              ({ e with activeLine := some line.renderLine }, list ++ promptText ++ line.rendered)
          | .escape => (e, list ++ line.echoEscapeLine)

/-- `handle_resize`. -/
def handleResize (e : InputEngine) : InputEngine × Option (List UInt8) :=
  match e.activeLine with
  | none => (e, none)
  | some line => ({ e with activeLine := some line.renderLine }, some line.rendered)

end InputEngine

/-- A call of the engine by its owner. What a completion finds is anybody's guess. -/
inductive InputCall where
  | typed (data : List UInt8)
  | observed (data : List UInt8)
  | completed (result : CompletionResult)
  | resized
  deriving DecidableEq, Repr

namespace InputEngine

/-- The engine after a call. -/
def call (split : ShellWords) (e : InputEngine) : InputCall → InputEngine
  | .typed data => (e.processLocal split data).1
  | .observed data => e.observeRemote data
  | .completed result => (e.completeActiveLine result).1
  | .resized => e.handleResize.1

end InputEngine

end Irosh
