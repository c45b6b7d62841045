import Irosh.Lib.Fnmatch
import Irosh.Lib.Shell
import Irosh.Server.Stream

/-!
# The names a completion finds

A live completion hands a script to `sh`, and `sh` runs `find` on the directory. What
the answer to such a request is follows from the words that the shell reads, from the
names the pattern fits, and from what `find` is asked to print of them. Without a live
shell the directory is read here.
-/

namespace Irosh

open UnixPath Wire

namespace Serve

/-- `find_script`, for a prefix with both escapes. -/
def findScript (escaped : List Char) : List Char :=
  "find . -maxdepth 1 -name '".toList ++ (escaped ++ "*' -printf '%P\\0%y\\0'".toList)

/-- The invocation of `find` that is meant. -/
def findWords (pattern : List Char) : List (List Char) :=
  ["find".toList, ".".toList, "-maxdepth".toList, "1".toList, "-name".toList, pattern,
    "-printf".toList, "%P\\0%y\\0".toList]

/-- `matches.sort()`. -/
def sortMatches (found : List (List Char)) : List String :=
  (found.map String.ofList).mergeSort fun a b => decide (a ≤ b)

end Serve

/-- An entry of a directory, with the letter `%y` has for its kind. -/
structure DirItem where
  name : Name
  isDir : Bool
  letter : UInt8
  named : '\x00' ∉ name.1
  letter_dir : letter = 100 ↔ isDir = true
  letter_ne : letter ≠ 0

/-- A directory to search, in the order of `read_dir` and in that of `find`. -/
structure SearchDir where
  listed : List DirItem
  found : List DirItem
  same : listed.Perm found

namespace SearchDir

/-- `%P\0%y\0`. -/
def record (name : List Char) (letter : UInt8) : List UInt8 := Utf8.encode name ++ [0, letter, 0]

/-- What `find` prints. The starting point is a directory, and its name below itself is empty. -/
def output (m : Fnmatch.Matcher) (d : SearchDir) (pattern : List Char) : List UInt8 :=
  (if m.fits pattern ['.'] then record [] 100 else [])
    ++ (d.found.filter fun item => m.fits pattern item.name.1).flatMap fun item =>
        record item.name.1 item.letter

/-- Runs the words of a command. No other command is given an output here. -/
def spawn (m : Fnmatch.Matcher) (d : SearchDir) (words : List (List Char)) : Option (List UInt8) :=
  match words[5]? with
  | some pattern => if words = Serve.findWords pattern then some (d.output m pattern) else none
  | none => none

def answer (m : Fnmatch.Matcher) (o : ServeOp) (d : SearchDir) : o.Answer × SearchDir :=
  match o with
  | .readDir _ => (d.listed.map fun item => (item.name.1, item.isDir), d)
  | .findNames _ escaped =>
      -- an argument with a NUL in it is refused
      (if '\x00' ∈ Serve.findScript escaped then none
        else (Shell.simpleCommand (Serve.findScript escaped)).bind (d.spawn m), d)
  | o => (o.idle, d)

/-- The matches of a completion, sorted. -/
def sortedMatches (m : Fnmatch.Matcher) (d : SearchDir) (context : ShellContext) (dir : Path)
    (start : List Char) : List String :=
  Serve.sortMatches (((Serve.completionMatches context dir start).eval (answer m) d).1)

end SearchDir

end Irosh
