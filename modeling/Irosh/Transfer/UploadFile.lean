import Irosh.Transfer.Upload
import Irosh.Transfer.UploadDir

/-!
# Uploading a file

`upload_file_with_progress`: a request with the size and mode of the local file, the bytes of
the file when the server is ready, and a completion that the server has to answer with the
same number of bytes.

`PutExchange` is the surroundings of `handle_put_request` again, with the frames that it has
written. The two ends know of each other what they have read.
-/

namespace Irosh

open UnixPath Wire

/-- The reads up to the end of the file: an empty read, or no further one. -/
def Source.chunks (source : Source) : List (List UInt8) :=
  source.reads.takeWhile fun chunk => chunk.length ≠ 0

/-- All that is read of it. -/
def Source.bytes (source : Source) : List UInt8 := source.chunks.flatten

namespace Client

/-- The request for one file. -/
def uploadFileRequest (remote : Path) (metadata : FileMeta) : PutRequest :=
  ⟨String.ofList remote.display, metadata.len, some (metadata.mode &&& 0o777), false⟩

/-- Everything after `PutReady`. -/
def sendBytes (source : Source) (replies : List TransferFrame) : ClientProg (Except String Unit) := do
  match ← sendReads source.broken 0 source.reads with
  | .error e => pure (.error e)
  | .ok sent =>
      match ← send (.putComplete ⟨UInt64.ofNat sent⟩) with
      | .error e => pure (.error e)
      | .ok _ => pure (confirm sent replies)

/-- `upload_file_with_progress`. `opened` is whether there is a stream, `metadata` what the opened file
tells. -/
def uploadFileWithProgress (localPath remote : Path) (opened : Bool) (metadata : Option FileMeta)
    (replies : List TransferFrame) : ClientProg (Except String Unit) :=
  if remote.display = [] then pure (.error "remote path is empty")
  else if opened then do
    let file : Option Source ← (ClientOp.openFile localPath).perform
    match file with
    | none => pure (.error "open local source file")
    | some source =>
        match metadata with
        | none => pure (.error "read local source metadata")
        | some metadata =>
            match ← send (.putRequest (uploadFileRequest remote metadata)) with
            | .error e => pure (.error e)
            | .ok _ =>
                match replies with
                | [] => pure (.error "stream read failed")
                | .putReady ready :: rest =>
                    if ready.size = metadata.len then sendBytes source rest
                    else pure (.error ("remote acknowledged unexpected size " ++ toString ready.size.toNat
                      ++ ", expected " ++ toString metadata.len.toNat))
                | .error failure :: _ => pure (.error failure.detail)
                | _ :: _ => pure (.error "unexpected preflight frame")
  else pure (.error "upload unavailable")

end Client

/-- The server's surroundings, and the frames that were written. -/
structure PutExchange where
  world : UploadWorld
  sent : List TransferFrame

namespace PutExchange

/-- A frame, if it can be written. -/
def record (written : Bool) (frame : TransferFrame) (x : PutExchange) : PutExchange :=
  if written then { x with sent := x.sent ++ [frame] } else x

def answer (o : ServeOp) (x : PutExchange) : o.Answer × PutExchange :=
  match o with
  | .blob (.send frame) => (x.world.sends frame, x.record (x.world.sends frame) frame)
  | .tell failure => (x.world.refusal, x.record x.world.refusal (.error failure))
  | o => ((UploadWorld.answer o x.world).1, { x with world := (UploadWorld.answer o x.world).2 })

/-- A handler run against them. -/
def run {α : Type} (p : ServeProg α) (x : PutExchange) : α × PutExchange := p.eval answer x

end PutExchange

end Irosh
