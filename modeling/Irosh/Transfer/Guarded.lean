import Irosh.Lib.Permissions
import Irosh.Transfer.UploadDir

/-!
# A file system that enforces permissions

The surroundings of an upload, `TreeWorld`, for a server that is an unprivileged owner.
Before an operation does anything it is looked up what bars it. An operation that is
barred fails; one whose file is already open is not looked up again.

The modes that this run has set on directories are remembered, and so is every
operation that one of these directories has barred.
-/

namespace Irosh

open UnixPath Wire FileTree

/-- A tree of files, the directories whose mode has been set, and those that then barred an
operation. -/
structure GuardedWorld where
  tree : TreeWorld
  applied : List Spot
  barred : List Spot

namespace GuardedWorld

/-- What bars an operation. -/
def bar (w : TreeWorld) : FsOp → Option Spot
  | .pathMissing p => searchBar w.nodes [] p.parts
  | .createDirAll p => makeBar w.dirMode w.nodes [] p.parts
  | .createFile p =>
      match searchBar w.nodes [] p.parts with
      | some u => some u
      | none =>
          match w.find p with
          | some (_, none) => writeBar w.nodes p.parts
          | _ => none
  | .rename src dst =>
      match searchBar w.nodes [] src.parts, searchBar w.nodes [] dst.parts, writeBar w.nodes src.parts with
      | some u, _, _ => some u
      | none, some u, _ => some u
      | none, none, some u => some u
      | none, none, none => writeBar w.nodes dst.parts
  | .copy src dst =>
      match searchBar w.nodes [] src.parts, searchBar w.nodes [] dst.parts with
      | some u, _ => some u
      | none, some u => some u
      | none, none =>
          match w.find dst with
          | some (_, none) => writeBar w.nodes dst.parts
          | _ => none
  | .removeFile p =>
      match searchBar w.nodes [] p.parts with
      | some u => some u
      | none =>
          match w.find p with
          | some (_, some _) => writeBar w.nodes p.parts
          | _ => none
  | .setMode p _ => searchBar w.nodes [] p.parts
  -- the file is open, or there is none
  | .now | .writeAll _ _ | .finish _ | .readBlob _ | .loadCollection _ | .exportBlob _ _ | .reply => none

/-- How an operation fails. -/
def refused : (o : FsOp) → o.Answer
  | .now => ⟨['1'], slash_notMem_one⟩
  | .pathMissing _ => .error ()
  | .createDirAll _ => false
  | .createFile _ => false
  | .writeAll _ _ => false
  | .finish _ => false
  | .rename _ _ => false
  | .copy _ _ => false
  | .removeFile _ => false
  | .setMode _ _ => false
  | .readBlob _ => false
  | .loadCollection _ => false
  | .exportBlob _ _ => false
  | .reply => false

/-- The directories whose mode has been set, after one more operation. -/
def marks (w : GuardedWorld) : FsOp → List Spot
  | .setMode p _ =>
      match w.tree.find p with
      | some (s, some (.dir _)) => s :: w.applied
      | _ => w.applied
  | _ => w.applied

def fsAnswer (o : FsOp) (w : GuardedWorld) : o.Answer × GuardedWorld :=
  match bar w.tree o with
  | some s => (refused o, if s ∈ w.applied then { w with barred := w.barred ++ [s] } else w)
  | none =>
      ((TreeWorld.fsAnswer o w.tree).1,
        { w with tree := (TreeWorld.fsAnswer o w.tree).2, applied := w.marks o })

def answer (o : ServeOp) (w : GuardedWorld) : o.Answer × GuardedWorld :=
  match o with
  | .blob (.fs o) => fsAnswer o w
  | o => ((TreeWorld.answer o w.tree).1, { w with tree := (TreeWorld.answer o w.tree).2 })

def run {α : Type} (p : ServeProg α) (w : GuardedWorld) : α × GuardedWorld := p.eval answer w

end GuardedWorld

end Irosh
