import Irosh.Transport.Frames
import Irosh.Transfer.Receive

/-!
# Downloading one file

`download_file_with_progress`: the bytes go to a temporary file beside the destination,
which takes its place when everything has arrived. Whatever goes wrong while they are
streamed is answered by removing the temporary file; what goes wrong afterwards, in
`persist_temp_file`, is passed on.
-/

namespace Irosh

open UnixPath Wire

/-- The streaming block: the chunks, the completion, and the last flush. -/
def streamFile (temp : Path) (expected received : Nat) :
    List TransferFrame → FsProg (Except String Unit)
  | [] => pure (.error "stream read failed")
  | .getChunk chunk :: rest => do
      let written : Bool ← (FsOp.writeAll temp chunk).perform
      if written then streamFile temp expected (received + chunk.length) rest
      else pure (.error "write to temp download file")
  | .getComplete complete :: _ =>
      if complete.size.toNat ≠ expected ∨ received ≠ expected then
        pure (.error ("expected " ++ toString expected ++ " bytes, received " ++ toString received
          ++ ", completion reported " ++ toString complete.size.toNat))
      else do
        let flushed : Bool ← (FsOp.finish temp).perform
        pure (if flushed then .ok () else .error "flush temp download file")
  | .error failure :: _ => pure (.error failure.detail)
  | .putChunk _ :: _ => pure (.error "unexpected upload chunk during download")
  | _ :: _ => pure (.error "unexpected data stream frame")

/-- What follows the streaming block. -/
def settleFile (temp dest : Path) (mode : Option Nat) (streamed : Except String Unit) :
    FsProg (Except String Unit) :=
  match streamed with
  | .error e => do
      let _ : Bool ← (FsOp.removeFile temp).perform
      pure (.error e)
  | .ok _ => do
      match ← persistTempFile temp dest with
      | .error e => pure (.error e)
      | .ok _ =>
          chmod dest (mode.map (· &&& 0o777))
          pure (.ok ())

/-- Everything after the answer to the request. -/
def receiveFile (dest : Path) (ready : TransferReady) (frames : List TransferFrame) :
    FsProg (Except String Unit) := do
  let stamp : Stamp ← FsOp.now.perform
  -- a failure shows when the file is created
  let _ ← createParent dest
  let created : Bool ← (FsOp.createFile (tempTransferPath dest stamp)).perform
  if created then
    let streamed ← streamFile (tempTransferPath dest stamp) ready.size.toNat 0 frames
    settleFile (tempTransferPath dest stamp) dest (ready.mode.map UInt32.toNat) streamed
  else pure (.error "create temp download file")

/-- `download_file_with_progress`. `opened` is whether there is a stream. -/
def downloadFileWithProgress (remote dest : List Char) (opened : Bool)
    (frames : List TransferFrame) : FsProg (Except String Unit) :=
  if remote = [] then pure (.error "remote path is empty")
  else if dest = [] then pure (.error "local path is empty")
  else if opened then do
    -- `write_get_request`
    let sent : Bool ← FsOp.reply.perform
    if sent then
      match frames with
      | [] => pure (.error "stream read failed")
      | .getReady ready :: rest => receiveFile (parse dest) ready rest
      | .error failure :: _ => pure (.error failure.detail)
      | _ :: _ => pure (.error "unexpected preflight frame")
    else pure (.error "stream write failed")
  else pure (.error "download unavailable")

end Irosh
