import Mathlib.Logic.Function.Basic
import Irosh.Transfer.Receive

/-!
# Files to run transfers against

A file being written is a `tokio::fs::File` or the standard input of a helper process.
Of the first it is known that a write may be accepted before the bytes are on disk; if
they never get there, the next write or flush on the handle reports it, once. A helper
opens its file when it gets to run, and tells how it went when it is waited for.

`Faults` says beforehand which operations fail. Writes are told apart by their number,
because there is any number of them; of the others a transfer performs at most one, or
in the case of `create_dir_all` two.
-/

namespace Irosh

open UnixPath

/-- How a write goes: `later` is accepted and then lost. -/
inductive WriteFate where
  | works
  | fails
  | later
  deriving DecidableEq, Repr

/-- How a file is created: a helper may be `late` and open it only when it is waited for, or when
nobody looks any more. -/
inductive CreateFate where
  | works
  | fails
  | late
  deriving DecidableEq, Repr

/-- How `fs::copy` goes: it may fail before the destination is touched, or after so many bytes. -/
inductive CopyFate where
  | works
  | refused
  | broken (kept : Nat)
  deriving DecidableEq, Repr

/-- What works and what does not. -/
structure Faults where
  reply : Bool
  probe : Bool
  /-- `create_dir_all`, by its number. -/
  mkdir : Nat → Bool
  create : CreateFate
  /-- Writes of at least one byte, by their number. -/
  write : Nat → WriteFate
  finish : Bool
  rename : Bool
  copy : CopyFate

/-- Files, and the one that is being written. -/
structure Disk where
  files : Path → Option (List UInt8)
  /-- The time, for names. -/
  stamp : Stamp
  /-- Whether files are written through a helper. -/
  viaHelper : Bool
  faults : Faults
  mkdirs : Nat
  writes : Nat
  /-- An accepted write has been lost and nobody has been told. -/
  lost : Bool
  /-- What a helper that has not opened its file yet has been sent. -/
  pipe : Option (Path × List UInt8)

namespace Disk

def put (d : Disk) (p : Path) (data : Option (List UInt8)) : Disk :=
  { d with files := Function.update d.files p data }

/-- Bytes that arrive. -/
def append (d : Disk) (p : Path) (chunk : List UInt8) : Disk :=
  match d.pipe with
  | some (q, bytes) => { d with pipe := some (q, bytes ++ chunk) }
  | none => d.put p (some ((d.files p).getD [] ++ chunk))

/-- The helper has opened its file and taken what it was sent. -/
def settle (d : Disk) : Disk :=
  match d.pipe with
  | some (p, bytes) => { d.put p (some bytes) with pipe := none }
  | none => d

/-- Whether a write or flush has a lost write to report. A helper reports when it is waited for. -/
def owes (d : Disk) : Bool := d.lost && !d.viaHelper

/-- One `write_all`. Of no bytes, it does nothing. -/
def write (d : Disk) (p : Path) (chunk : List UInt8) : Bool × Disk :=
  if chunk = [] then (true, d)
  else if d.owes then (false, { d with writes := d.writes + 1, lost := false })
  else
    match d.faults.write d.writes with
    | .works => (true, { d.append p chunk with writes := d.writes + 1 })
    | .fails => (false, { d with writes := d.writes + 1 })
    | .later => (true, { d with writes := d.writes + 1, lost := true })

/-- A flush whose result nobody looks at. -/
def flush (d : Disk) : Disk := if d.viaHelper then d else { d with lost := false }

/-- What the files answer. -/
def answer (o : FsOp) (d : Disk) : o.Answer × Disk :=
  match o with
  | .now => (d.stamp, d)
  | .pathMissing p => (if d.faults.probe then .ok (d.files p).isNone else .error (), d)
  | .createDirAll _ => (d.faults.mkdir d.mkdirs, { d with mkdirs := d.mkdirs + 1 })
  | .createFile p =>
      match d.faults.create, d.viaHelper with
      | .fails, _ => (false, d)
      | .late, true => (true, { d with pipe := some (p, []) })
      | _, _ => (true, d.put p (some []))
  | .writeAll p chunk => d.write p chunk
  -- the last flush, or the exit of the helper
  | .finish _ => (d.faults.finish && !d.lost, { d.settle with lost := false })
  | .rename src dst =>
      match d.faults.rename, d.files src with
      | true, some data => (true, (d.put src none).put dst (some data))
      | _, _ => (false, d)
  | .copy src dst =>
      match d.faults.copy, d.files src with
      | .works, some data => (true, d.put dst (some data))
      | .broken kept, some data => (false, d.put dst (some (data.take kept)))
      | _, _ => (false, d)
  | .removeFile p => (true, d.put p none)
  | .reply => (d.faults.reply, d)
  | .setMode _ _ => (true, d)
  | .readBlob _ => (true, d)
  | .loadCollection _ => (true, d)
  | .exportBlob _ _ => (true, d)

/-- A program run against the files. -/
def run {α : Type} (p : FsProg α) (d : Disk) : α × Disk := p.eval answer d

@[simp] theorem run_pure {α : Type} (a : α) (d : Disk) : run (pure a) d = (a, d) := rfl

theorem run_bind {α β : Type} (p : FsProg α) (k : α → FsProg β) (d : Disk) :
    run (p >>= k) d = run (k (run p d).1) (run p d).2 := Prog.eval_bind p k d

@[simp] theorem put_files_self (d : Disk) (p : Path) (data : Option (List UInt8)) :
    (d.put p data).files p = data := by
  simp [put]

theorem put_files_ne (d : Disk) {p q : Path} (h : q ≠ p) (data : Option (List UInt8)) :
    (d.put p data).files q = d.files q := by
  simp [put, h]

/-! ### Writing -/

section

variable {d : Disk} {p : Path} {chunk : List UInt8}

theorem write_nil : d.write p [] = (true, d) := rfl

theorem write_owed (hne : chunk ≠ []) (ho : d.owes = true) :
    d.write p chunk = (false, { d with writes := d.writes + 1, lost := false }) := by
  rw [write, if_neg hne, if_pos ho]

theorem write_works (hne : chunk ≠ []) (ho : d.owes = false)
    (hf : d.faults.write d.writes = .works) :
    d.write p chunk = (true, { d.append p chunk with writes := d.writes + 1 }) := by
  rw [write, if_neg hne, ho, if_neg Bool.false_ne_true, hf]

theorem write_fails (hne : chunk ≠ []) (ho : d.owes = false)
    (hf : d.faults.write d.writes = .fails) :
    d.write p chunk = (false, { d with writes := d.writes + 1 }) := by
  rw [write, if_neg hne, ho, if_neg Bool.false_ne_true, hf]

theorem write_later (hne : chunk ≠ []) (ho : d.owes = false)
    (hf : d.faults.write d.writes = .later) :
    d.write p chunk = (true, { d with writes := d.writes + 1, lost := true }) := by
  rw [write, if_neg hne, ho, if_neg Bool.false_ne_true, hf]

end

/-! ### One operation and what comes after it -/

section

variable {α : Type} {d : Disk}

theorem run_now (k : Stamp → FsProg α) :
    run (do let stamp : Stamp ← FsOp.now.perform; k stamp) d = run (k d.stamp) d := rfl

theorem run_pathMissing (p : Path) (k : Except Unit Bool → FsProg α) :
    run (do let missing : Except Unit Bool ← (FsOp.pathMissing p).perform; k missing) d
      = run (k (if d.faults.probe then .ok (d.files p).isNone else .error ())) d := rfl

theorem run_createDirAll (p : Path) (k : Bool → FsProg α) :
    run (do let made : Bool ← (FsOp.createDirAll p).perform; k made) d
      = run (k (d.faults.mkdir d.mkdirs)) { d with mkdirs := d.mkdirs + 1 } := rfl

theorem run_writeAll (p : Path) (chunk : List UInt8) (k : Bool → FsProg α) :
    run (do let written : Bool ← (FsOp.writeAll p chunk).perform; k written) d
      = run (k (d.write p chunk).1) (d.write p chunk).2 := rfl

theorem run_finish (p : Path) (k : Bool → FsProg α) :
    run (do let finished : Bool ← (FsOp.finish p).perform; k finished) d
      = run (k (d.faults.finish && !d.lost)) { d.settle with lost := false } := rfl

theorem run_removeFile (p : Path) (k : Bool → FsProg α) :
    run (do let removed : Bool ← (FsOp.removeFile p).perform; k removed) d
      = run (k true) (d.put p none) := rfl

theorem run_reply (k : Bool → FsProg α) :
    run (do let sent : Bool ← FsOp.reply.perform; k sent) d = run (k d.faults.reply) d := rfl

theorem run_rename (src dst : Path) (k : Bool → FsProg α) :
    run (do let renamed : Bool ← (FsOp.rename src dst).perform; k renamed) d
      = match d.faults.rename, d.files src with
        | true, some data => run (k true) ((d.put src none).put dst (some data))
        | _, _ => run (k false) d := by
  simp only [run, Bind.bind, Prog.bind, Prog.perform, Prog.eval, answer]
  cases d.faults.rename with
  | false => rfl
  | true =>
      cases d.files src with
      | none => rfl
      | some data => rfl

end

end Disk

end Irosh
