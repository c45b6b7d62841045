import Irosh.Input.Editor
import Irosh.Lib.Lines

/-!
# The history file

A history is read from its file once, when it is opened. From then on the entries live in
memory, and the file is only appended to; nobody notices when that fails.
-/

namespace Irosh

/-- A history and its file, if there is one. -/
structure HistorySite where
  history : CommandHistory
  file : Option (List UInt8)
  deriving DecidableEq, Repr

/-- What becomes of an append. -/
inductive AppendOutcome where
  | works
  | fails (left : Option (List UInt8))
  deriving DecidableEq, Repr

/-- A call of `CommandHistory`. -/
inductive HistoryOp where
  | add (command : List Char) (outcome : AppendOutcome)
  | up (current : List Char)
  | down
  | abandonNavigation (current : List Char)
  deriving DecidableEq, Repr

namespace HistorySite

/-- The lines `CommandHistory::new` reads, none from a file that is not text. -/
def readLines (file : Option (List UInt8)) : List (List Char) :=
  match file.bind Utf8.fromUtf8 with
  | some content => Lines.lines content
  | none => []

/-- `CommandHistory::new`. -/
def opened (file : Option (List UInt8)) : HistorySite := ⟨.new (readLines file), file⟩

/-- `append_to_file`. -/
def appendToFile (file : Option (List UInt8)) (entry : List Char) : AppendOutcome → Option (List UInt8)
  | .works => some (file.getD [] ++ Utf8.encode (entry ++ ['\n']))
  | .fails left => left

/-- A call, and what it returns. -/
def step (s : HistorySite) : HistoryOp → HistorySite × Option (List Char)
  | .add command outcome =>
      let history := s.history.add command
      (match history.appended.drop s.history.appended.length with
        | [] => { s with history := history }
        | entry :: _ => ⟨history, appendToFile s.file entry outcome⟩, none)
  | .up current => ({ s with history := (s.history.up current).1 }, (s.history.up current).2)
  | .down => ({ s with history := s.history.down.1 }, s.history.down.2)
  | .abandonNavigation current =>
      ({ s with history := s.history.abandonNavigation current }, none)

/-- Calls one after the other. -/
def run : HistorySite → List HistoryOp → HistorySite × List (Option (List Char))
  | s, [] => (s, [])
  | s, op :: ops =>
      let (s, found) := s.step op
      let (s, rest) := s.run ops
      (s, found :: rest)

end HistorySite

end Irosh
