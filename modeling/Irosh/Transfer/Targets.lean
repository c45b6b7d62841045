import Irosh.Input.CompleteLine
import Irosh.Lib.UnixPath
import Irosh.Storage.Trust

/-!
# Where a transfer goes

`put` and `get` name what they transfer after the last part of its path, and put it into a
directory unless the user has named a file. A path of the peer is a text: it may have the
other system's separators. A path on this side is a Unix path.
-/

namespace Irosh.Targets

open CompleteLine (dropBytes)
open UnixPath

/-! ## The name -/

/-- `str::rfind`. -/
def rfind (c : Char) : List Char → Option Nat
  | [] => none
  | d :: s =>
      match rfind c s with
      | some i => some (d.utf8Size + i)
      | none => if d = c then some 0 else none

/-- `portable_file_name`; `none` is a panic. -/
def portableFileName (s : List Char) : Option (List Char) :=
  let lastSlash := (rfind '/' s).getD 0
  let lastBackslash := (rfind '\\' s).getD 0
  let lastSep := max lastSlash lastBackslash
  if lastSep = 0 then
    if s.head? = some '/' ∨ s.head? = some '\\' then dropBytes 1 s else some s
  else dropBytes (lastSep + 1) s

/-! ## The peer's side -/

/-- `PathBuf::join`, on the text. -/
def joinText (a b : List Char) : List Char :=
  if b.head? = some '/' then b
  else if a = [] ∨ a.getLast? = some '/' then a ++ b
  else a ++ '/' :: b

/-- `remote_join`. -/
def remoteJoin (isWindows : Bool) (base parts : List Char) : List Char :=
  let sep := if isWindows then '\\' else '/'
  let otherSep := if isWindows then '/' else '\\'
  let joined :=
    if base.getLast? ≠ some sep ∧ base.getLast? ≠ some otherSep then base ++ [sep] else base
  let normalizedParts := parts.map fun c => if c = otherSep then sep else c
  joined ++ normalizedParts.dropWhile (· = sep)

/-- `raw.ends_with('/') || raw.ends_with('\\')`. -/
def isExplicitDir (raw : List Char) : Bool := raw.getLast? == some '/' || raw.getLast? == some '\\'

/-- The path, or the directory with the fallback name in it. -/
def orIn (dir : List Char) : Option (List Char) → List Char
  | some fallback => joinText dir fallback
  | none => dir

/-- `resolve_remote_path`, for a peer that answers `cwd`. -/
def resolveRemotePath (cwd : List Char) (isWindows : Bool) (raw fallbackName : Option (List Char)) :
    Except String (List Char) :=
  match raw with
  | none =>
      match fallbackName with
      | some fallback => .ok (joinText cwd fallback)
      | none => .error "missing fallback file name"
  | some raw =>
      if raw = ['.'] ∨ raw = ['.', '/'] then .ok (orIn cwd fallbackName)
      else if raw.head? = some '/' then .ok raw
      else
        match raw with
        | ['~'] => .ok (orIn raw fallbackName)
        | '~' :: '/' :: homeRelative =>
            match fallbackName with
            | some fallback =>
                .ok (if raw.getLast? = some '/' then joinText (joinText ['~', '/'] homeRelative) fallback
                  else raw)
            | none => .ok raw
        | _ =>
            match isExplicitDir raw, fallbackName with
            | true, some fallback => .ok (remoteJoin isWindows (remoteJoin isWindows cwd raw) fallback)
            | _, _ => .ok (remoteJoin isWindows cwd raw)

/-- `handle_put_command`: the target. -/
def putTarget (cwd : List Char) (isWindows : Bool) (localPath : List Char) (remote : Option (List Char)) :
    Option (Except String (List Char)) :=
  (portableFileName localPath).map fun localName => resolveRemotePath cwd isWindows remote (some localName)

/-! ## This side -/

/-- What a path is looked up in. -/
structure LocalDisk where
  home : Option Path
  present : Path → Bool
  isDir : Path → Bool

/-- `resolve_local_input_path`. -/
def resolveLocalInputPath (disk : LocalDisk) (base : Path) (raw : List Char) : Path :=
  if (parse raw).isAbsolute then parse raw
  else
    match raw, disk.home with
    | '~' :: '/' :: rest, some home => home.join (parse rest)
    | ['~'], some home => home
    | _, _ => base.join (parse raw)

/-- `{stem} ({index}).{ext}`. -/
def candidateName (stem : List Char) (ext : Option (List Char)) (index : Nat) : List Char :=
  stem ++ ' ' :: '(' :: Nat.toDigits 10 index ++ ')' ::
    match ext with
    | some ext => '.' :: ext
    | none => []

/-- The first of the candidates that is not there. -/
def firstFree (present : Path → Bool) (candidate : Nat → Path) : Nat → Nat → Option Path
  | _, 0 => none
  | index, n + 1 =>
      if present (candidate index) then firstFree present candidate (index + 1) n
      else some (candidate index)

/-- `auto_rename_download_target`. -/
def autoRenameDownloadTarget (disk : LocalDisk) (path : Path) : Path :=
  if !disk.present path then path
  else
    let parent := path.parent.getD ⟨.plain, []⟩
    let stem := (path.fileName.bind fun n => fileStem n.1).getD "download".toList
    let ext := path.fileName.bind fun n => extension n.1
    (firstFree disk.present (fun index => parent.join (parse (candidateName stem ext index))) 1
      1000000).getD path

/-- `resolve_local_target`. -/
def resolveLocalTarget (disk : LocalDisk) (localRoot : Path) (raw : Option (List Char))
    (fallbackName : List Char) : Path :=
  match raw with
  | none => localRoot.join (parse fallbackName)
  | some raw =>
      if raw = ['.'] ∨ raw = ['.', '/'] then localRoot.join (parse fallbackName)
      else
        let path := resolveLocalInputPath disk localRoot raw
        if isExplicitDir raw || disk.isDir path then
          autoRenameDownloadTarget disk (path.join (parse fallbackName))
        else path

/-- `handle_get_command`: the target. -/
def getTarget (disk : LocalDisk) (localRoot : Path) (remotePath : List Char) (target : Option (List Char)) :
    Option Path :=
  (portableFileName remotePath).map fun remoteName => resolveLocalTarget disk localRoot target remoteName

end Irosh.Targets
