import Irosh.Lib.FileTree
import Irosh.Storage.Peers

/-!
# A disk to write secrets to

The files and directories that `atomic_write_secure` works on, with their permission bits,
and every state they go through. Any operation may fail, and may have done a part of its
work by then: a write some of the bytes, `create_dir_all` some of the directories.
-/

namespace Irosh

open FileTree UnixPath

/-- How an operation goes, and how much it does before it fails. -/
inductive StepFate where
  | works
  | fails (kept : Nat)
  deriving DecidableEq, Repr

/-- What does not change during a call. -/
structure SecretEnv where
  cwd : Spot
  /-- The bits of a new file, 0666 without the umask. -/
  fileMode : UInt32
  /-- The bits of a new directory, 0777 without the umask. -/
  dirMode : UInt32
  fate : Nat → StepFate
  removes : Bool
  /-- What `rand::random` gives. -/
  random : { s : List Char // '/' ∉ s }

structure SecretDisk where
  nodes : Nodes
  tick : Nat
  /-- Every state there has been, the ones within a write included. -/
  seen : List Nodes

/-- `apply_secure_permissions_unix`: what it leaves. -/
def secured : FileNode → FileNode
  | .dir mode => if mode &&& 0o777 = 0o700 then .dir mode else .dir 0o700
  | .file mode data => if mode &&& 0o777 = 0o600 then .file mode data else .file 0o600 data

namespace SecretEnv

variable (env : SecretEnv)

/-- Where the look-up of a path begins. -/
def start (p : Path) : Spot := if p.isAbsolute then [] else env.cwd

/-- Where a path leads if every directory on the way is there. -/
def dest (p : Path) : Spot := spotFrom (env.start p) p.parts

/-- Where a path leads; the empty one leads nowhere. -/
def reach (N : Nodes) (p : Path) : Option Spot :=
  if p = ⟨.plain, []⟩ then none
  else
    match lead N (env.start p) p.parts with
    | .at s => some s
    | .missing => none
    | .blocked => none

end SecretEnv

namespace SecretDisk

/-- One operation later. -/
def next (d : SecretDisk) (N : Nodes) : SecretDisk := ⟨N, d.tick + 1, d.seen ++ [N]⟩

/-- With a file at `s`. -/
def grown (N : Nodes) (s : Spot) (mode : UInt32) (bytes : List UInt8) : Nodes :=
  Function.update N s (some (.file mode bytes))

/-- A write, byte by byte. -/
def wrote (d : SecretDisk) (s : Spot) (mode : UInt32) (old bytes : List UInt8) : SecretDisk where
  nodes := grown d.nodes s mode (old ++ bytes)
  tick := d.tick + 1
  seen := d.seen ++ bytes.inits.map fun front => grown d.nodes s mode (old ++ front)

variable (env : SecretEnv)

/-- What the disk answers. Directories are not read here. -/
def answer (o : PeerOp) (d : SecretDisk) : o.Answer × SecretDisk :=
  match o with
  | .pathExists p =>
      (match env.fate d.tick, env.reach d.nodes p with
        | .works, some s => (d.nodes s).isSome
        | _, _ => false, d.next d.nodes)
  | .createDirAll p =>
      if p = ⟨.plain, []⟩ then (true, d.next d.nodes)
      else
        match env.fate d.tick with
        | .works =>
            ((makeDirs env.dirMode d.nodes (env.start p) p.parts).1,
              d.next (makeDirs env.dirMode d.nodes (env.start p) p.parts).2)
        | .fails kept =>
            (false, d.next (makeDirs env.dirMode d.nodes (env.start p) (p.parts.take kept)).2)
  | .secure p =>
      match env.fate d.tick, env.reach d.nodes p with
      | .works, some s =>
          match d.nodes s with
          | some node => (true, d.next (Function.update d.nodes s (some (secured node))))
          | none => (false, d.next d.nodes)
      | _, _ => (false, d.next d.nodes)
  | .random => (env.random, d.next d.nodes)
  | .createFile p =>
      match env.fate d.tick, env.reach d.nodes p with
      | .works, some s =>
          match d.nodes s with
          | some (.dir _) => (false, d.next d.nodes)
          -- what was in it is gone, its mode stays
          | some (.file mode _) => (true, d.next (grown d.nodes s mode []))
          | none => (true, d.next (grown d.nodes s env.fileMode []))
      | _, _ => (false, d.next d.nodes)
  | .writeAll p data =>
      match env.reach d.nodes p with
      | some s =>
          match d.nodes s with
          | some (.file mode old) =>
              match env.fate d.tick with
              | .works => (true, d.wrote s mode old data)
              | .fails kept => (false, d.wrote s mode old (data.take kept))
          | _ => (false, d.next d.nodes)
      | none => (false, d.next d.nodes)
  | .syncAll _ => (decide (env.fate d.tick = .works), d.next d.nodes)
  | .rename src dst =>
      match env.fate d.tick, env.reach d.nodes src, env.reach d.nodes dst with
      | .works, some s, some t =>
          match d.nodes s, d.nodes t with
          | some (.file _ _), some (.dir _) => (false, d.next d.nodes)
          | some (.file mode data), _ =>
              (true, d.next (grown (Function.update d.nodes s none) t mode data))
          | _, _ => (false, d.next d.nodes)
      | _, _, _ => (false, d.next d.nodes)
  | .removeFile p =>
      match env.removes, env.reach d.nodes p with
      | true, some s =>
          match d.nodes s with
          | some (.file _ _) => (.removed, d.next (Function.update d.nodes s none))
          | some (.dir _) => (.failed, d.next d.nodes)
          | none => (.notFound, d.next d.nodes)
      | true, none => (.notFound, d.next d.nodes)
      | false, _ => (.failed, d.next d.nodes)
  | .readDir _ => (none, d.next d.nodes)
  | .readToString _ => (none, d.next d.nodes)

/-- A program run on the disk. -/
def run {α : Type} (p : PeerProg α) (d : SecretDisk) : α × SecretDisk := p.eval (answer env) d

end SecretDisk

/-- Before the call. -/
def SecretDisk.before (t : Tree) : SecretDisk := ⟨t.nodes, 0, []⟩

end Irosh
