import Mathlib.Logic.Function.Basic
import Mathlib.Logic.Relation
import Irosh.Transfer.Serve

/-!
# Uploads that run at the same time

Any number of `put` handlers, on any connections, and the file system they share. A
handler is its program still to be run, and a step of the site is one operation of one
handler, with any answer the file system could give at that moment. Whether a
destination is missing is answered by the file system as it is when it is asked; any
operation may fail.

What is at a place is kept by the parts of the path that lead there; there are no
symbolic links. A path with `..` may lead anywhere, because where it leads depends on
which of its directories are there. What becomes of a part file while it is written is
left open, and so is when the helper that writes it gets to run.
-/

namespace Irosh

open UnixPath Wire

/-- What is at a place. -/
inductive FsNode where
  | dir
  | file (data : List UInt8)
  deriving DecidableEq, Repr

abbrev Place := List Part

/-- What is where. -/
abbrev Entries := Place → Option FsNode

/-- Where a path may lead. -/
def Leads (p : Path) (place : Place) : Prop := Part.parent ∉ p.parts → place = p.parts

/-- Only the file at `p` is touched. -/
def OnlyAt (p : Path) (e e' : Entries) : Prop :=
  ∃ place, Leads p place ∧ ∀ q, q ≠ place → e' q = e q

/-- Directories on the way to `p` may have been made, where there was nothing. -/
def MakesDirs (p : Path) (e e' : Entries) : Prop :=
  ∀ q, e' q = e q
    ∨ e q = none ∧ e' q = some .dir ∧ (Part.parent ∉ p.parts → q <+: p.parts)

/-- A rename that succeeds. What is not a directory is replaced; `mv`, which a live context runs,
moves into a directory. -/
def Renames (live : Bool) (src dst : Path) (e e' : Entries) : Prop :=
  ∃ src' dst' node, Leads src src' ∧ Leads dst dst' ∧ e src' = some node
    ∧ ((e dst' ≠ some .dir ∧ e' = Function.update (Function.update e src' none) dst' (some node))
      ∨ (live = true ∧ e dst' = some .dir ∧ ∃ n, src.fileName = some n
        ∧ e' = Function.update (Function.update e src' none) (dst' ++ [.normal n]) (some node)))

/-- What the file system may answer, and what it then is. -/
def Answers (live : Bool) (e : Entries) : (o : ServeOp) → o.Answer → Entries → Prop
  | .blob (.fs (.pathMissing p)), answer, e' =>
      e' = e ∧ ∃ place, Leads p place ∧ ∀ missing, answer = .ok missing → missing = (e place).isNone
  | .blob (.fs (.createDirAll p)), _, e' => MakesDirs p e e'
  | .blob (.fs (.createFile p)), _, e' => OnlyAt p e e'
  | .blob (.fs (.writeAll p _)), _, e' => OnlyAt p e e'
  | .blob (.fs (.finish p)), _, e' => OnlyAt p e e'
  | .blob (.fs (.removeFile p)), _, e' => OnlyAt p e e'
  | .flush p, _, e' => OnlyAt p e e'
  | .blob (.fs (.rename src dst)), (renamed : Bool), e' =>
      if renamed then Renames live src dst e e' else e' = e
  | _, _, e' => e' = e

/-! ## What a handler has done so far -/

/-- The upload of one file begins with the check of its destination and ends with the rename. -/
structure PutView where
  /-- The destinations of files it has asked for, and those it has renamed a file to. -/
  asked : List Path
  landed : List Path
  /-- The destination it has found missing and not renamed to yet, with its part file. -/
  pending : Option Path
  part : Option Path

namespace PutView

def new : PutView := ⟨[], [], none, none⟩

/-- What an operation and its answer make of it. -/
def next (view : PutView) : (o : ServeOp) → o.Answer → PutView
  | .blob (.fs (.pathMissing p)), (.ok true : Except Unit Bool) =>
      { view with asked := view.asked ++ [p], pending := some p, part := none }
  | .blob (.fs (.pathMissing p)), _ => { view with asked := view.asked ++ [p] }
  | .blob (.fs .now), (stamp : Stamp) => { view with part := view.pending.map (partOf · stamp) }
  | .blob (.fs (.rename _ dst)), (true : Bool) =>
      { view with landed := view.landed ++ [dst], pending := none, part := none }
  -- reported, and done
  | .blob (.send (.putComplete _)), (true : Bool) => { view with asked := [], landed := [] }
  | _, _ => view

/-- The destinations whose success it reports: with `PutComplete`, all it has asked for. -/
def reported (view : PutView) : (o : ServeOp) → o.Answer → List Path
  | .blob (.send (.putComplete _)), (true : Bool) => view.asked
  | _, _ => []

end PutView

/-- Destinations and directories a handler names. -/
def ServeOp.named : ServeOp → List Path
  | .blob (.fs (.pathMissing p)) => [p]
  | .blob (.fs (.createDirAll p)) => [p]
  | _ => []

/-! ## The site -/

/-- A running handler. -/
structure PutHandler where
  live : Bool
  prog : ServeProg (Except String Unit)
  view : PutView

/-- The file system and the handlers that have not ended, with what they have named, the part files
they have been given and the successes they have reported. -/
structure UploadSite where
  entries : Entries
  handlers : List PutHandler
  named : List Path
  parts : List Path
  reports : List Path

/-- What may happen at a site. -/
inductive PutAct where
  | start
  | advance (who : Nat) (o : ServeOp) (answer : o.Answer)
  | helper
  | stop

namespace UploadSite

/-- No upload has been seen yet. -/
def new (entries : Entries) : UploadSite := ⟨entries, [], [], [], []⟩

/-- After an operation of a handler. -/
def advanced (s : UploadSite) (entries : Entries) (before after : List PutHandler) (h : PutHandler)
    (o : ServeOp) (answer : o.Answer) (k : o.Answer → ServeProg (Except String Unit)) : UploadSite where
  entries := entries
  handlers := before ++ ⟨h.live, k answer, h.view.next o answer⟩ :: after
  named := s.named ++ o.named
  parts := s.parts ++ (h.view.next o answer).part.toList
  reports := s.reports ++ h.view.reported o answer

inductive Step : UploadSite → PutAct → UploadSite → Prop
  | start (s : UploadSite) (debug : TransferFrame → String) (context : ShellContext)
      (request : PutRequest) (frames : List TransferFrame) :
      Step s .start { s with handlers := s.handlers
        ++ [⟨context.isLive, Serve.handlePutRequest debug context request frames, .new⟩] }
  | advance {s : UploadSite} {entries : Entries} {before after : List PutHandler} {h : PutHandler}
      (o : ServeOp) (answer : o.Answer) (k : o.Answer → ServeProg (Except String Unit))
      (hs : s.handlers = before ++ h :: after) (hp : h.prog = .op o k)
      (ha : Answers h.live s.entries o answer entries) :
      Step s (.advance before.length o answer) (s.advanced entries before after h o answer k)
  /-- A helper opens, writes or closes its part file, even when nobody waits for it any more. -/
  | helper {s : UploadSite} {entries : Entries} {part : Path} (hp : part ∈ s.parts)
      (he : OnlyAt part s.entries entries) : Step s .helper { s with entries := entries }
  /-- A handler returns, with an error or without, or is dropped wherever it is. -/
  | stop {s : UploadSite} {before after : List PutHandler} (h : PutHandler)
      (hs : s.handlers = before ++ h :: after) : Step s .stop { s with handlers := before ++ after }

/-- Steps that meet a condition. -/
def Runs (P : UploadSite → PutAct → Prop) : UploadSite → UploadSite → Prop :=
  Relation.ReflTransGen fun s s' => ∃ act, Step s act s' ∧ P s act

/-- A part file's name occurs in no path that a handler has named: the names of part files are
distinct from all others. -/
def PartsDistinct (s : UploadSite) : Prop :=
  ∀ part ∈ s.parts, ∀ n, part.fileName = some n → ∀ p ∈ s.named, Part.normal n ∉ p.parts

/-- A place with the name of a part file in it. -/
def Scratch (s : UploadSite) (place : Place) : Prop :=
  ∃ part ∈ s.parts, ∃ n, part.fileName = some n ∧ Part.normal n ∈ place

end UploadSite

end Irosh
