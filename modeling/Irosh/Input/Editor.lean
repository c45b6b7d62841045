import Irosh.Lib.Utf8
import Irosh.Transfer.Sanitize

/-!
# The line editor and its history

One line is edited at a time: the escape line that begins with `~`, or a command at the
`irosh> ` prompt. The editor works on bytes; the history keeps text.
-/

namespace Irosh

/-- `String::into_bytes`. -/
def intoBytes (s : List Char) : List UInt8 := s.flatMap String.utf8EncodeChar

/-! ## `CommandHistory` -/

/-- `MAX_HISTORY_ENTRIES`. -/
def maxHistoryEntries : Nat := 1000

/-- `CommandHistory`. -/
structure CommandHistory where
  entries : List (List Char)
  index : Option Nat
  pending : List Char
  /-- What `append_to_file` has been given. -/
  appended : List (List Char)
  deriving DecidableEq, Repr

namespace CommandHistory

/-- `CommandHistory::new`, with the lines of the history file. -/
def new (lines : List (List Char)) : CommandHistory where
  entries := lines.drop (lines.length - maxHistoryEntries)
  index := none
  pending := []
  appended := []

/-- `add`. -/
def add (h : CommandHistory) (command : List Char) : CommandHistory :=
  let trimmed := trim command
  if trimmed = [] then h
  else if h.entries.getLast? = some trimmed then { h with index := none, pending := [] }
  else
    let entries := h.entries ++ [trimmed]
    { entries := if entries.length > maxHistoryEntries then entries.drop 1 else entries
      index := none
      pending := []
      appended := h.appended ++ [trimmed] }

/-- `up`. The index never lies outside the entries. -/
def up (h : CommandHistory) (current : List Char) : CommandHistory × Option (List Char) :=
  if h.entries = [] then (h, none)
  else
    match h.index with
    | none =>
        ({ h with index := some (h.entries.length - 1), pending := current },
          h.entries[h.entries.length - 1]?)
    | some i => ({ h with index := some (i - 1) }, h.entries[i - 1]?)

/-- `down`. -/
def down (h : CommandHistory) : CommandHistory × Option (List Char) :=
  match h.index with
  | none => (h, none)
  | some i =>
      if i + 1 ≥ h.entries.length then ({ h with index := none }, some h.pending)
      else ({ h with index := some (i + 1) }, h.entries[i + 1]?)

/-- `abandon_navigation`. -/
def abandonNavigation (h : CommandHistory) (current : List Char) : CommandHistory :=
  { h with index := none, pending := current }

end CommandHistory

/-! ## `LineEditor` -/

inductive EditorEvent where
  | insertByte (byte : UInt8)
  | backspace
  | delete
  | moveLeft
  | moveRight
  | moveHome
  | moveEnd
  | historyUp
  | historyDown
  | tab
  | submit
  deriving DecidableEq, Repr

inductive EditorEffect where
  | noOp
  | render
  | clearAndExit
  | submitPrompt (bytes : List UInt8)
  | submitEscape (bytes : List UInt8)
  | requestCompletion
  deriving DecidableEq, Repr

inductive EditorMode where
  | escape
  | prompt
  deriving DecidableEq, Repr

/-- `LineEditor`. -/
structure LineEditor where
  line : List UInt8
  cursor : Nat
  mode : EditorMode
  deriving DecidableEq, Repr

namespace LineEditor

/-- `b'~'`. -/
def tilde : UInt8 := 0x7e

/-- `new_escape`. -/
def newEscape : LineEditor := ⟨[tilde], 1, .escape⟩

/-- `new_prompt`. -/
def newPrompt : LineEditor := ⟨[], 0, .prompt⟩

/-- `replace_line`. -/
def replaceLine (ed : LineEditor) (line : List UInt8) (cursor : Nat) : LineEditor :=
  { ed with line := line, cursor := min cursor line.length }

/-- The text of the line, as the history sees it. -/
def text (ed : LineEditor) : List Char := Utf8.decodeLossy ed.line

/-- A line from the history, with the cursor behind it. -/
def recalled (ed : LineEditor) (line : List Char) : LineEditor :=
  { ed with line := intoBytes line, cursor := (intoBytes line).length }

/-- `apply`. -/
def apply (ed : LineEditor) (history : CommandHistory) :
    EditorEvent → LineEditor × CommandHistory × EditorEffect
  | .insertByte byte =>
      ({ ed with line := ed.line.insertIdx ed.cursor byte, cursor := ed.cursor + 1 },
        history.abandonNavigation ed.text, .render)
  | .backspace =>
      if ed.cursor = 0 then (ed, history, .noOp)
      else
        let line := ed.line.eraseIdx (ed.cursor - 1)
        ({ ed with line := line, cursor := ed.cursor - 1 }, history.abandonNavigation ed.text,
          if line = [] ∧ ed.mode = .escape then .clearAndExit else .render)
  | .delete =>
      if ed.cursor ≥ ed.line.length then (ed, history, .noOp)
      else
        ({ ed with line := ed.line.eraseIdx ed.cursor }, history.abandonNavigation ed.text, .render)
  | .moveLeft =>
      if ed.cursor > 0 then ({ ed with cursor := ed.cursor - 1 }, history, .render)
      else (ed, history, .noOp)
  | .moveRight =>
      if ed.cursor < ed.line.length then ({ ed with cursor := ed.cursor + 1 }, history, .render)
      else (ed, history, .noOp)
  | .moveHome => ({ ed with cursor := 0 }, history, .render)
  | .moveEnd => ({ ed with cursor := ed.line.length }, history, .render)
  | .historyUp =>
      match history.up ed.text with
      | (history, some prev) => (ed.recalled prev, history, .render)
      | (history, none) => (ed, history, .noOp)
  | .historyDown =>
      match history.down with
      | (history, some next) => (ed.recalled next, history, .render)
      | (history, none) => (ed, history, .noOp)
  | .tab => (ed, history, .requestCompletion)
  | .submit =>
      match ed.mode with
      | .prompt => (ed, history, .submitPrompt ed.line)
      | .escape => (ed, history, .submitEscape ed.line)

end LineEditor

end Irosh
