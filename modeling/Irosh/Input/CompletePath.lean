import Irosh.Input.CompleteLine
import Irosh.Lib.Utf8
import Irosh.Transfer.Targets

/-!
# Completing a path

Which argument of which command is under the cursor decides what completes it: a name of a
keyword, a path on this side, or one that the peer is asked about. A single match replaces the
whole argument. A path on this side is written back with its directory and in quotes, the
answer of the peer as it is.
-/

namespace Irosh.CompleteLine

open Metadata (takeBytes)
open Targets (LocalDisk resolveLocalInputPath rfind)
open UnixPath

/-- `ESCAPE_KEYWORDS`. -/
def escapeKeywords : List (List Char) :=
  ["~?".toList, "~help".toList, "~~".toList, "~.".toList, "~C".toList, "~put".toList, "~get".toList]

/-- `PROMPT_KEYWORDS`. -/
def promptKeywords : List (List Char) :=
  ["put".toList, "get".toList, "lls".toList, "lcd".toList, "lpwd".toList, "paths".toList, "clear".toList,
    "help".toList, "exit".toList, "disconnect".toList]

/-- `CompletionEdit`. -/
structure CompletionEdit where
  line : List UInt8
  cursor : Nat
  deriving DecidableEq, Repr

/-- `CompletionResult`. -/
inductive CompletionResult where
  | none
  | applied (edit : CompletionEdit)
  | suggestions (found : List (List Char))
  deriving DecidableEq, Repr

/-- `CompletionMode`. -/
inductive CompletionMode where
  | escape
  | prompt
  deriving DecidableEq, Repr

/-- `CompletionTarget`. -/
inductive CompletionTarget where
  | keyword (token : Token)
  | putLocalPath (raw : List Char)
  | getRemotePath (raw : List Char)
  | listLocalPath (raw : List Char)
  | changeLocalPath (raw : List Char)
  | none
  deriving DecidableEq, Repr

/-- `TextEdit::into_bytes`. -/
def TextEdit.intoBytes (edit : TextEdit) : CompletionEdit := ⟨Utf8.encode edit.line, edit.cursor⟩

/-! ## What is completed -/

/-- `classify_positional_target`. -/
def classifyPositionalTarget (mode : CompletionMode) (command : List Char) (positionalIndex : Nat)
    (token : List Char) : CompletionTarget :=
  match mode, String.ofList command, positionalIndex with
  | .escape, "~put", 0 => .putLocalPath token
  | .escape, "~put", 1 => .getRemotePath token
  | .escape, "~get", 0 => .getRemotePath token
  | .escape, "~get", 1 => .putLocalPath token
  | .prompt, "put", 0 => .putLocalPath token
  | .prompt, "put", 1 => .getRemotePath token
  | .prompt, "get", 0 => .getRemotePath token
  | .prompt, "get", 1 => .putLocalPath token
  | .prompt, "lls", 0 => .listLocalPath token
  | .prompt, "lcd", 0 => .changeLocalPath token
  | _, _, _ => .none

/-- The loop of `classify_completion_target`: an option is not counted. -/
def classifyFrom (mode : CompletionMode) (command : List Char) (active : Token) :
    Nat → List Token → CompletionTarget
  | _, [] => .none
  | positionalIndex, token :: rest =>
      if token.rawStart = active.rawStart ∧ token.rawEnd = active.rawEnd then
        classifyPositionalTarget mode command positionalIndex token.value
      else
        classifyFrom mode command active
          (if token.value.head? = some '-' then positionalIndex else positionalIndex + 1) rest

/-- `classify_completion_target`. -/
def classifyCompletionTarget (mode : CompletionMode) (parsed : ParsedLine) : CompletionTarget :=
  match activeToken parsed with
  | none => .none
  | some active =>
      if active.rawEnd < parsed.cursor then .none
      else
        match parsed.tokens with
        | [] => .none
        | command :: rest =>
            if active.rawStart = 0 then .keyword active
            else classifyFrom mode command.value active 0 rest

/-! ## Keywords -/

/-- `complete_keyword`. -/
def completeKeyword (mode : CompletionMode) (parsed : ParsedLine) (token : Token) : Option CompletionResult :=
  let keywords := match mode with
    | .escape => escapeKeywords
    | .prompt => promptKeywords
  match keywords.filter fun candidate => token.value.isPrefixOf candidate with
  | [] => some .none
  | [single] =>
      let replacement :=
        if String.ofList single ∈ ["~put", "~get", "put", "get", "lls", "lcd"] then single ++ [' ']
          else single
      (replaceRange parsed token.rawStart token.rawEnd replacement).map fun edit => .applied edit.intoBytes
  | found => some (.suggestions found)

/-- A single match: it replaces the active token. -/
def replaceActive (parsed : ParsedLine) (replacement : List Char) : Option CompletionResult :=
  match activeToken parsed with
  | none => some .none
  | some token =>
      (replaceRange parsed token.rawStart token.rawEnd replacement).map fun edit => .applied edit.intoBytes

/-! ## Paths on this side -/

/-- The name of an entry. One that is no UTF-8 is only known by how it is shown. -/
inductive EntryName where
  | utf8 (n : Name)
  | other (lossy : Name)
  deriving DecidableEq

/-- `to_string_lossy`. -/
def EntryName.shown : EntryName → Name
  | .utf8 n => n
  | .other lossy => lossy

/-- The disk, with the entries of its directories and whether they are directories too. -/
structure CompletionDisk extends LocalDisk where
  readDir : Path → Option (List (EntryName × Bool))

/-- `local_completion_parts`: where to search, what a match begins with, and what is written in front
of it. -/
def localCompletionParts (raw : List Char) (resolved : Path) : Option (Path × List Char × List Char) :=
  if raw = [] then some (resolved, [], [])
  else if raw.getLast? = some '/' then some (resolved, [], raw)
  else
    let start := (resolved.fileName.map (·.1)).getD []
    let searchDir := resolved.parent.getD .dot
    match rfind '/' raw with
    | some index => (takeBytes (index + 1) raw).map fun base => (searchDir, start, base)
    | none => some (searchDir, start, [])

/-- A match with a slash behind it if it is a directory. -/
def shownEntry (base : List Char) (entry : List Char × Bool) : List Char :=
  if entry.2 then base ++ entry.1 ++ ['/'] else base ++ entry.1

/-- `complete_local_path`. -/
def completeLocalPath (quote : List Char → List Char) (disk : CompletionDisk) (localRoot : Path)
    (parsed : ParsedLine) (raw : List Char) : Option CompletionResult :=
  match localCompletionParts raw (resolveLocalInputPath disk.toLocalDisk localRoot raw) with
  | none => none
  | some (searchDir, start, base) =>
      match disk.readDir searchDir with
      | none => some .none
      | some entries =>
          let found := (entries.filter fun entry => start.isPrefixOf entry.1.shown.1).map fun entry =>
            (entry.1.shown.1, entry.2)
          match found.mergeSort fun left right => decide (String.ofList left.1 ≤ String.ofList right.1) with
          | [] => some .none
          | [single] =>
              replaceActive parsed
                (if single.2 then quote (shownEntry base single) else quote (shownEntry base single) ++ [' '])
          | many => some (.suggestions (many.map (shownEntry base)))

/-! ## Paths of the peer -/

/-- `complete_remote_path`, with what `remote_completion` comes back with. -/
def completeRemotePath (parsed : ParsedLine) (answer : Except String (List String)) :
    Option (Except String CompletionResult) :=
  match answer with
  | .error what => some (.error what)
  | .ok found =>
      match found.mergeSort fun left right => decide (left ≤ right) with
      | [] => some (.ok .none)
      | [single] =>
          (replaceActive parsed
            (if single.toList.getLast? = some '/' then single.toList else single.toList ++ [' '])).map .ok
      | many => some (.ok (.suggestions (many.map String.toList)))

/-- `complete_line`; `none` is a panic. -/
def completeLine (quote : List Char → List Char) (disk : CompletionDisk) (localRoot : Path)
    (remoteCompletion : List Char → Except String (List String)) (mode : CompletionMode)
    (line : List UInt8) (cursor : Nat) : Option (Except String CompletionResult) :=
  match parseLine (Utf8.decodeLossy line) cursor with
  | none => none
  | some parsed =>
      match classifyCompletionTarget mode parsed with
      | .keyword token => (completeKeyword mode parsed token).map .ok
      | .putLocalPath raw => (completeLocalPath quote disk localRoot parsed raw).map .ok
      | .listLocalPath raw => (completeLocalPath quote disk localRoot parsed raw).map .ok
      | .changeLocalPath raw => (completeLocalPath quote disk localRoot parsed raw).map .ok
      | .getRemotePath raw => completeRemotePath parsed (remoteCompletion raw)
      | .none => some (.ok .none)

end Irosh.CompleteLine
