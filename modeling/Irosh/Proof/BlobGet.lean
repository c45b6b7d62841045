import Irosh.Transfer.Serve

/-!
# The file a blob get sends

`handle_blob_get_request` resolves the path of the request and then looks the path up as it
was written, which for a process without a shell is a path below its own working directory.
-/

namespace Irosh.Proof

open Irosh UnixPath Wire Serve

/-- Why a path has no metadata. -/
inductive LookError where
  | notFound
  | other
  deriving DecidableEq, Repr

/-- The server's side of a stateless request. -/
structure BlobSite where
  /-- The working directory of the server's process. -/
  cwd : AbsPath
  /-- `metadata` of an absolute path: whether it is a directory. -/
  look : Path → Except LookError Bool
  /-- What everything else answers. -/
  rest : (o : ServeOp) → o.Answer

namespace BlobSite

/-- `tokio::fs::metadata` of a path as text. -/
def metadata (s : BlobSite) (raw : List Char) : Except LookError Bool :=
  s.look (s.cwd.1.join (parse raw))

/-- `is_dir`, where there is no shell. -/
def isDir (s : BlobSite) (raw : List Char) : Except Unit Bool :=
  match s.metadata raw with
  | .ok directory => .ok directory
  | .error .notFound => .ok false
  | .error .other => .error ()

/-- What an operation answers; `path_exists` is whether there is metadata. -/
def answer (s : BlobSite) : (o : ServeOp) → o.Answer
  | .pathExists p => .ok (s.metadata p).isOk
  | .isDir p => s.isDir p
  | o => s.rest o

def result {α : Type} (s : BlobSite) (p : ServeProg α) : α := p.outcome (fun _ => s.answer) 0

/-- What is written and what it stands for are the same kind of thing: missing both, directories
both, or neither. -/
def Agrees (s : BlobSite) (raw : List Char) (target : Path) : Prop :=
  (s.metadata raw).toOption = (s.look target).toOption

end BlobSite

section Handler

variable (toBlobs : Collection → List (List UInt8)) (hashText : Hash → String)

variable {toBlobs hashText} {s : BlobSite} {home : Option AbsPath} {request : BlobGetRequest}
  {target : Path}

end Handler

end Irosh.Proof
