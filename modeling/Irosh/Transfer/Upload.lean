import Irosh.Transfer.Disk
import Irosh.Transfer.Serve

/-!
# An upload and the disk it goes to

The surroundings of `handle_put_request` for one file: the files, and which frames can be
written to the peer. At most one frame of each kind is written, so a `Bool` for each says
everything about them. The helper's standard input and the file handle are always there:
the helper is spawned with a pipe.
-/

namespace Irosh

open UnixPath Wire

structure UploadWorld where
  disk : Disk
  /-- Whether `PutReady`, an error and `PutComplete` can be written. -/
  ready : Bool
  refusal : Bool
  complete : Bool
  /-- How a helper's failure is reported. -/
  text : TransferFailure

namespace UploadWorld

def sends (w : UploadWorld) : TransferFrame → Bool
  | .putReady _ => w.ready
  | .error _ => w.refusal
  | .putComplete _ => w.complete
  | _ => true

/-- What the surroundings answer. -/
def answer (o : ServeOp) (w : UploadWorld) : o.Answer × UploadWorld :=
  match o with
  | .blob (.fs o) => ((Disk.answer o w.disk).1, { w with disk := (Disk.answer o w.disk).2 })
  | .blob (.send frame) => (w.sends frame, w)
  | .tell _ => (w.refusal, w)
  | .flush _ => (true, { w with disk := w.disk.flush })
  | .explain _ => (w.text, w)
  | o => (o.idle, w)

/-- A handler run against them. -/
def run {α : Type} (p : ServeProg α) (w : UploadWorld) : α × UploadWorld := p.eval answer w

section

variable {α β : Type} {w : UploadWorld}

@[simp] theorem run_pure (a : α) : run (pure a) w = (a, w) := rfl

theorem run_bind (p : ServeProg α) (k : α → ServeProg β) :
    run (p >>= k) w = run (k (run p w).1) (run p w).2 := Prog.eval_bind p k w

/-- A file system program changes the disk only. -/
theorem run_serve (p : FsProg α) :
    run (FsProg.serve p) w = ((Disk.run p w.disk).1, { w with disk := (Disk.run p w.disk).2 }) := by
  induction p generalizing w with
  | pure a => rfl
  | op o k ih => exact ih _

theorem run_createFile (p : Path) (k : Bool → ServeProg α) :
    run (do let created : Bool ← (ServeOp.blob (.fs (.createFile p))).perform; k created) w
      = run (k (Disk.answer (.createFile p) w.disk).1)
          { w with disk := (Disk.answer (.createFile p) w.disk).2 } := rfl

theorem run_writeAll (p : Path) (chunk : List UInt8) (k : Bool → ServeProg α) :
    run (do let written : Bool ← (ServeOp.blob (.fs (.writeAll p chunk))).perform; k written) w
      = run (k (w.disk.write p chunk).1) { w with disk := (w.disk.write p chunk).2 } := rfl

theorem run_finish (p : Path) (k : Bool → ServeProg α) :
    run (do let finished : Bool ← (ServeOp.blob (.fs (.finish p))).perform; k finished) w
      = run (k (w.disk.faults.finish && !w.disk.lost))
          { w with disk := { w.disk.settle with lost := false } } := rfl

theorem run_took (frame : Option TransferFrame) (k : Unit → ServeProg α) :
    run (do let u : Unit ← (ServeOp.took frame).perform; k u) w = run (k ()) w := rfl

theorem run_stdin (k : Bool → ServeProg α) :
    run (do let available : Bool ← ServeOp.stdin.perform; k available) w = run (k true) w := rfl

theorem run_flush (p : Path) (k : Bool → ServeProg α) :
    run (do let flushed : Bool ← (ServeOp.flush p).perform; k flushed) w
      = run (k true) { w with disk := w.disk.flush } := rfl

theorem run_send (frame : TransferFrame) :
    run (Serve.send frame) w
      = (if w.sends frame then .ok () else .error "stream write failed", w) := rfl

theorem run_discard (p : Path) (k : Unit → ServeProg α) :
    run (Serve.discard p >>= k) w = run (k ()) { w with disk := w.disk.put p none } := rfl

end

end UploadWorld

end Irosh
