import Mathlib.Logic.Relation
import Irosh.Transfer.Blob

/-!
# The in-memory budget of a connection

All transfer streams of a connection draw on one semaphore of 512 permits, a MiB each
(`ConnectionShellState::blob_memory`). `BlobPool` is the semaphore with the streams that
run: each has its program still before it, the permits its guards hold, and the bytes
it has in memory (`current_blob`, `all_data`).

A step of the pool is a step of any one stream, with any answer it could get. Of the
semaphore it is only assumed that a request is granted as a whole, when that many
permits are available, and that a dropped guard gives its permits back.
-/

namespace Irosh

open UnixPath Wire

/-- `MAX_IN_MEMORY_BLOB_BUDGET_BYTES`. -/
def maxInMemoryBlobBudgetBytes : Nat := 512 * 1024 * 1024

/-- `in_memory_budget_permits`. -/
def inMemoryBudgetPermits : Nat := maxInMemoryBlobBudgetBytes / (1024 * 1024)

/-- What a stream has of the budget. -/
structure Share where
  /-- Permits held by its guards. -/
  held : Nat
  /-- Bytes in `current_blob` or `all_data`. -/
  inMemory : Nat
  deriving DecidableEq, Repr

def Share.none : Share := ⟨0, 0⟩

/-- What an operation with its answer makes of it. `add_bytes` takes the buffer, and at the end of a
block guard and buffer are dropped. -/
def Share.next (share : Share) : (o : BlobOp) → o.Answer → Share
  | .acquire bytes, (granted : Bool) =>
      if granted then { share with held := share.held + blobMemoryPermits bytes } else share
  | .release, _ => { share with held := 0 }
  | .accepted inMemory, _ => { share with inMemory := inMemory }
  | .addBytes _, _ => { share with inMemory := 0 }
  | .leave, _ => .none
  | _, _ => share

/-- A transfer that uses the budget. -/
inductive BlobTask where
  | put (parseHash : String → HashText) (context : ShellContext) (request : BlobPutRequest)
      (frames : List TransferFrame)
  | addDirectory (toBlobs : Collection → List (List UInt8)) (dir : Path)

def BlobTask.prog : BlobTask → BlobProg Unit
  | .put parseHash context request frames => do
      let _ ← handleBlobPutRequest parseHash context request frames
      pure ()
  | .addDirectory toBlobs dir => do
      let _ ← addDirectoryToStore toBlobs dir
      pure ()

/-- A running stream. -/
structure BlobStream where
  prog : BlobProg Unit
  share : Share

/-- The semaphore and the streams that have not ended. -/
structure BlobPool where
  available : Nat
  streams : List BlobStream

namespace BlobPool

/-- `ConnectionShellState::new`. -/
def new : BlobPool := ⟨inMemoryBudgetPermits, []⟩

/-- One step of one stream. -/
inductive Step : BlobPool → BlobPool → Prop
  | start (task : BlobTask) (available : Nat) (streams : List BlobStream) :
      Step ⟨available, streams⟩ ⟨available, streams ++ [⟨task.prog, .none⟩]⟩
  /-- The semaphore grants what is asked for. -/
  | grant {available : Nat} {before after : List BlobStream} {share : Share} (bytes : Nat)
      (k : Bool → BlobProg Unit) (hfree : blobMemoryPermits bytes ≤ available) :
      Step ⟨available, before ++ ⟨.op (.acquire bytes) k, share⟩ :: after⟩
        ⟨available - blobMemoryPermits bytes,
          before ++ ⟨k true, share.next (.acquire bytes) true⟩ :: after⟩
  /-- `acquire_many_owned` fails. -/
  | refuse {available : Nat} {before after : List BlobStream} {share : Share} (bytes : Nat)
      (k : Bool → BlobProg Unit) :
      Step ⟨available, before ++ ⟨.op (.acquire bytes) k, share⟩ :: after⟩
        ⟨available, before ++ ⟨k false, share⟩ :: after⟩
  /-- Any other operation. What it drops goes back. -/
  | advance {available : Nat} {before after : List BlobStream} {share : Share} (o : BlobOp)
      (k : o.Answer → BlobProg Unit) (r : o.Answer) (ho : ∀ bytes, o ≠ .acquire bytes) :
      Step ⟨available, before ++ ⟨.op o k, share⟩ :: after⟩
        ⟨available + (share.held - (share.next o r).held),
          before ++ ⟨k r, share.next o r⟩ :: after⟩
  /-- A stream returns, with an error or without, or is dropped wherever it is. -/
  | stop {available : Nat} {before after : List BlobStream} (stream : BlobStream) :
      Step ⟨available, before ++ stream :: after⟩
        ⟨available + stream.share.held, before ++ after⟩

/-- What some streams have done to a fresh pool. -/
def Reachable : BlobPool → Prop := Relation.ReflTransGen Step new

/-- Permits held by all streams. -/
def held (pool : BlobPool) : Nat := (pool.streams.map fun stream => stream.share.held).sum

/-- Bytes in memory of all streams. -/
def inMemory (pool : BlobPool) : Nat := (pool.streams.map fun stream => stream.share.inMemory).sum

end BlobPool

/-- A stream that waits in `BlobMemoryGuard::acquire`. -/
def BlobStream.Waits (stream : BlobStream) (bytes : Nat) : Prop :=
  ∃ k, stream.prog = .op (.acquire bytes) k

end Irosh
