import Irosh.Lib.BigEndian
import Irosh.Lib.Lockstep
import Irosh.Transport.Frames

/-!
# The transfer codec

Encoders append to what has been written; decoders take from what can still be
read. Both may fail half way, and what they did until then stays done.

The header grammar is written out twice in the source, once for a reader that
allocates its payload and once for one that fills a buffer of the caller's, and the
list of kinds is written out a third time in `decode_frame`. They are kept apart
here as well: that they agree is a theorem.

`sizes` is a ghost. It records the length every buffer is given, with the kind of
the frame it is for.
-/

namespace Irosh.Wire

open BigEndian Lockstep

/-! ## Writing -/

/-- A program that writes; the state is what has been written. -/
abbrev Writing := EStateM TransferError (List UInt8)

/-- `write_all`, `write_u8` and `write_u32` all deliver their bytes. -/
def writeAll (bytes : List UInt8) : Writing Unit := fun out => .ok () (out ++ bytes)

/-- `write_frame`. The closing `flush` adds nothing to what is delivered. -/
def writeFrame (kind : UInt8) (payload : List UInt8) : Writing Unit := do
  ofExcept (validatePayloadLimit kind payload.length)
  writeAll magic
  writeAll [version]
  writeAll [kind]
  -- `payload.len() as u32`
  writeAll (beEncode 4 payload.length)
  writeAll payload

/-- `write_json_frame`. -/
def writeJsonFrame (json : SerdeJson) (p : Payload) (kind : UInt8) (value : p.Value) :
    Writing Unit := do
  let payload ← ofExcept ((json.toVec p value).mapError .json)
  writeFrame kind payload

def writePutRequest (json : SerdeJson) (request : PutRequest) : Writing Unit :=
  writeJsonFrame json .putRequest kindPutRequest request

def writePutReady (json : SerdeJson) (ready : TransferReady) : Writing Unit :=
  writeJsonFrame json .transferReady kindPutReady ready

def writePutChunk (chunk : List UInt8) : Writing Unit := writeFrame kindPutChunk chunk

def writePutComplete (json : SerdeJson) (complete : TransferComplete) : Writing Unit :=
  writeJsonFrame json .transferComplete kindPutComplete complete

def writeGetRequest (json : SerdeJson) (request : GetRequest) : Writing Unit :=
  writeJsonFrame json .getRequest kindGetRequest request

def writeGetReady (json : SerdeJson) (ready : TransferReady) : Writing Unit :=
  writeJsonFrame json .transferReady kindGetReady ready

def writeGetChunk (chunk : List UInt8) : Writing Unit := writeFrame kindGetChunk chunk

def writeGetComplete (json : SerdeJson) (complete : TransferComplete) : Writing Unit :=
  writeJsonFrame json .transferComplete kindGetComplete complete

def writeTransferError (json : SerdeJson) (failure : TransferFailure) : Writing Unit :=
  writeJsonFrame json .transferFailure kindError failure

def writeCwdRequest (json : SerdeJson) (request : CwdRequest) : Writing Unit :=
  writeJsonFrame json .cwdRequest kindCwdRequest request

def writeCwdResponse (json : SerdeJson) (response : CwdResponse) : Writing Unit :=
  writeJsonFrame json .cwdResponse kindCwdResponse response

def writeExistsRequest (json : SerdeJson) (request : ExistsRequest) : Writing Unit :=
  writeJsonFrame json .existsRequest kindExistsRequest request

def writeExistsResponse (json : SerdeJson) (response : ExistsResponse) : Writing Unit :=
  writeJsonFrame json .existsResponse kindExistsResponse response

def writeNewEntry (json : SerdeJson) (header : EntryHeader) : Writing Unit :=
  writeJsonFrame json .entryHeader kindNewEntry header

def writeEntryComplete (json : SerdeJson) (complete : EntryComplete) : Writing Unit :=
  writeJsonFrame json .entryComplete kindEntryComplete complete

def writeCompletionRequest (json : SerdeJson) (request : CompletionRequest) : Writing Unit :=
  writeJsonFrame json .completionRequest kindCompletionRequest request

def writeCompletionResponse (json : SerdeJson) (response : CompletionResponse) : Writing Unit :=
  writeJsonFrame json .completionResponse kindCompletionResponse response

def writeBlobPutRequest (json : SerdeJson) (request : BlobPutRequest) : Writing Unit :=
  writeJsonFrame json .blobPutRequest kindBlobPutRequest request

def writeBlobGetRequest (json : SerdeJson) (request : BlobGetRequest) : Writing Unit :=
  writeJsonFrame json .blobGetRequest kindBlobGetRequest request

def writeBlobGetReady (json : SerdeJson) (ready : BlobGetReady) : Writing Unit :=
  writeJsonFrame json .blobGetReady kindBlobGetReady ready

/-- The writer that goes with a frame. -/
def TransferFrame.write (json : SerdeJson) : TransferFrame → Writing Unit
  | .putRequest request => writePutRequest json request
  | .putReady ready => writePutReady json ready
  | .putChunk chunk => writePutChunk chunk
  | .putComplete complete => writePutComplete json complete
  | .getRequest request => writeGetRequest json request
  | .getReady ready => writeGetReady json ready
  | .getChunk chunk => writeGetChunk chunk
  | .getComplete complete => writeGetComplete json complete
  | .cwdRequest request => writeCwdRequest json request
  | .cwdResponse response => writeCwdResponse json response
  | .existsRequest request => writeExistsRequest json request
  | .existsResponse response => writeExistsResponse json response
  | .completionRequest request => writeCompletionRequest json request
  | .completionResponse response => writeCompletionResponse json response
  | .blobPutRequest request => writeBlobPutRequest json request
  | .blobGetRequest request => writeBlobGetRequest json request
  | .blobGetReady ready => writeBlobGetReady json ready
  | .newEntry header => writeNewEntry json header
  | .entryComplete complete => writeEntryComplete json complete
  | .error failure => writeTransferError json failure

/-- One frame after the other. -/
def writeFrames (json : SerdeJson) : List TransferFrame → Writing Unit
  | [] => pure ()
  | frame :: frames => do
      frame.write json
      writeFrames json frames

/-! ## Reading -/

/-- The bytes that can still be read, and what a read past them reports. -/
structure ByteStream where
  bytes : List UInt8
  ending : IoError
  deriving DecidableEq, Repr

/-- What a decoder works on. -/
structure ReadState where
  input : ByteStream
  /-- The buffer of the caller's. -/
  buf : List UInt8
  /-- The lengths buffers have been given, with the kind of the frame (ghost). -/
  sizes : List (UInt8 × Nat)
  deriving DecidableEq, Repr

/-- A program that reads. -/
abbrev Reading := EStateM TransferError ReadState

/-- `read_exact` into a fresh array. A stream that ends too early is read to its end. -/
def readExact (n : Nat) : Reading (List UInt8) := fun s =>
  if n ≤ s.input.bytes.length then
    .ok (s.input.bytes.take n) { s with input := { s.input with bytes := s.input.bytes.drop n } }
  else .error (.io s.input.ending) { s with input := { s.input with bytes := [] } }

/-- `read_exact(&mut buf[..])`. A stream that ends too early leaves the tail of the buffer as it
was. -/
def readExactBuf : Reading Unit := fun s =>
  let n := s.buf.length
  if n ≤ s.input.bytes.length then
    .ok () { s with
      input := { s.input with bytes := s.input.bytes.drop n }
      buf := s.input.bytes.take n }
  else
    .error (.io s.input.ending) { s with
      input := { s.input with bytes := [] }
      buf := s.input.bytes ++ s.buf.drop s.input.bytes.length }

/-- `read_u8`. -/
def readU8 : Reading UInt8 := do
  let bytes ← readExact 1
  pure (bytes.headD 0)

/-- `read_u32`, as a `usize`. -/
def readU32 : Reading Nat := do
  let bytes ← readExact 4
  pure (beDecode bytes)

/-- A buffer of length `n` for a frame of this kind. -/
def allocate (kind : UInt8) (n : Nat) : Reading Unit := fun s =>
  .ok () { s with sizes := s.sizes ++ [(kind, n)] }

/-- `buf.resize(n, 0)`. -/
def resizeBuf (kind : UInt8) (n : Nat) : Reading Unit := fun s =>
  .ok () { s with
    buf := s.buf.take n ++ List.replicate (n - s.buf.length) 0
    sizes := s.sizes ++ [(kind, n)] }

/-- `read_frame`. -/
def readFrame : Reading (UInt8 × List UInt8) := do
  let start ← readExact 4
  refuse (start ≠ magic) .invalidMagic
  let v ← readU8
  refuse (v ≠ version) (.unsupportedVersion v)
  let kind ← readU8
  refuse (kind ∉ [kindPutRequest, kindPutReady, kindPutChunk, kindPutComplete, kindGetRequest,
    kindGetReady, kindGetChunk, kindGetComplete, kindError, kindCwdRequest, kindCwdResponse,
    kindExistsRequest, kindExistsResponse, kindNewEntry, kindEntryComplete, kindCompletionRequest,
    kindCompletionResponse, kindBlobPutRequest, kindBlobGetRequest, kindBlobGetReady])
    (.unsupportedKind kind)
  let length ← readU32
  ofExcept (validatePayloadLimit kind length)
  allocate kind length
  let payload ← readExact length
  pure (kind, payload)

/-- `read_frame_into`. The payload it returns is the buffer. -/
def readFrameInto : Reading (UInt8 × List UInt8) := do
  let start ← readExact 4
  refuse (start ≠ magic) .invalidMagic
  let v ← readU8
  refuse (v ≠ version) (.unsupportedVersion v)
  let kind ← readU8
  refuse (kind ∉ [kindPutRequest, kindPutReady, kindPutChunk, kindPutComplete, kindGetRequest,
    kindGetReady, kindGetChunk, kindGetComplete, kindError, kindCwdRequest, kindCwdResponse,
    kindExistsRequest, kindExistsResponse, kindNewEntry, kindEntryComplete, kindCompletionRequest,
    kindCompletionResponse, kindBlobPutRequest, kindBlobGetRequest, kindBlobGetReady])
    (.unsupportedKind kind)
  let length ← readU32
  ofExcept (validatePayloadLimit kind length)
  resizeBuf kind length
  readExactBuf
  let s ← get
  pure (kind, s.buf)

/-- `serde_json::from_slice(payload)?`. -/
def fromSlice (json : SerdeJson) (p : Payload) (payload : List UInt8) :
    Except TransferError p.Value := (json.fromSlice p payload).mapError .json

/-- `read_json_frame`. -/
def readJsonFrame (json : SerdeJson) (p : Payload) (expectedKind : UInt8) : Reading p.Value := do
  let (kind, payload) ← readFrame
  refuse (kind ≠ expectedKind) (.unexpectedKind expectedKind kind)
  ofExcept (fromSlice json p payload)

/-- `TransferFrameBorrowed`. -/
inductive TransferFrameBorrowed where
  | putChunk (chunk : List UInt8)
  | getChunk (chunk : List UInt8)
  | owned (frame : TransferFrame)
  deriving DecidableEq, Repr

/-- The frame a borrowed frame is. -/
def TransferFrameBorrowed.frame : TransferFrameBorrowed → TransferFrame
  | .putChunk chunk => .putChunk chunk
  | .getChunk chunk => .getChunk chunk
  | .owned frame => frame

/-- `decode_frame`. -/
def decodeFrame (json : SerdeJson) (kind : UInt8) (payload : List UInt8) :
    Except TransferError TransferFrame :=
  if kind = kindPutRequest then .putRequest <$> fromSlice json .putRequest payload
  else if kind = kindPutReady then .putReady <$> fromSlice json .transferReady payload
  else if kind = kindPutComplete then .putComplete <$> fromSlice json .transferComplete payload
  else if kind = kindGetRequest then .getRequest <$> fromSlice json .getRequest payload
  else if kind = kindGetReady then .getReady <$> fromSlice json .transferReady payload
  else if kind = kindGetComplete then .getComplete <$> fromSlice json .transferComplete payload
  else if kind = kindCwdRequest then .cwdRequest <$> fromSlice json .cwdRequest payload
  else if kind = kindCwdResponse then .cwdResponse <$> fromSlice json .cwdResponse payload
  else if kind = kindExistsRequest then .existsRequest <$> fromSlice json .existsRequest payload
  else if kind = kindExistsResponse then .existsResponse <$> fromSlice json .existsResponse payload
  else if kind = kindCompletionRequest then
    .completionRequest <$> fromSlice json .completionRequest payload
  else if kind = kindCompletionResponse then
    .completionResponse <$> fromSlice json .completionResponse payload
  else if kind = kindBlobPutRequest then
    .blobPutRequest <$> fromSlice json .blobPutRequest payload
  else if kind = kindBlobGetRequest then
    .blobGetRequest <$> fromSlice json .blobGetRequest payload
  else if kind = kindBlobGetReady then .blobGetReady <$> fromSlice json .blobGetReady payload
  else if kind = kindNewEntry then .newEntry <$> fromSlice json .entryHeader payload
  else if kind = kindEntryComplete then .entryComplete <$> fromSlice json .entryComplete payload
  else if kind = kindError then .error <$> fromSlice json .transferFailure payload
  else .error (.unsupportedKind kind)

/-- `read_next_frame_into`. -/
def readNextFrameInto (json : SerdeJson) : Reading TransferFrameBorrowed := do
  let (kind, payload) ← readFrameInto
  if kind = kindPutChunk then pure (.putChunk payload)
  else if kind = kindGetChunk then pure (.getChunk payload)
  else do
    let frame ← ofExcept (decodeFrame json kind payload)
    pure (.owned frame)

/-- A program with a buffer of its own, which is gone when it ends. -/
def withOwnBuf {α : Type} (x : Reading α) : Reading α := fun s =>
  match x { s with buf := [] } with
  | .ok a s' => .ok a { s' with buf := s.buf }
  | .error e s' => .error e { s' with buf := s.buf }

/-- The `to_vec` behind a borrowed frame. -/
def toOwned : TransferFrameBorrowed → Reading TransferFrame
  | .putChunk chunk => do
      allocate kindPutChunk chunk.length
      pure (.putChunk chunk)
  | .getChunk chunk => do
      allocate kindGetChunk chunk.length
      pure (.getChunk chunk)
  | .owned frame => pure frame

/-- `read_next_frame`. -/
def readNextFrame (json : SerdeJson) : Reading TransferFrame :=
  withOwnBuf do
    let borrowed ← readNextFrameInto json
    toOwned borrowed

/-- The body of `read_put_chunk` and `read_get_chunk`. -/
def readChunk (expectedKind : UInt8) : Reading (List UInt8) := do
  let (kind, payload) ← readFrame
  refuse (kind ≠ expectedKind) (.unexpectedKind expectedKind kind)
  pure payload

def readPutRequest (json : SerdeJson) : Reading PutRequest :=
  readJsonFrame json .putRequest kindPutRequest

def readPutReady (json : SerdeJson) : Reading TransferReady :=
  readJsonFrame json .transferReady kindPutReady

def readPutChunk : Reading (List UInt8) := readChunk kindPutChunk

def readPutComplete (json : SerdeJson) : Reading TransferComplete :=
  readJsonFrame json .transferComplete kindPutComplete

def readGetRequest (json : SerdeJson) : Reading GetRequest :=
  readJsonFrame json .getRequest kindGetRequest

def readGetReady (json : SerdeJson) : Reading TransferReady :=
  readJsonFrame json .transferReady kindGetReady

def readGetChunk : Reading (List UInt8) := readChunk kindGetChunk

def readGetComplete (json : SerdeJson) : Reading TransferComplete :=
  readJsonFrame json .transferComplete kindGetComplete

def readTransferError (json : SerdeJson) : Reading TransferFailure :=
  readJsonFrame json .transferFailure kindError

def readExistsRequest (json : SerdeJson) : Reading ExistsRequest :=
  readJsonFrame json .existsRequest kindExistsRequest

def readExistsResponse (json : SerdeJson) : Reading ExistsResponse :=
  readJsonFrame json .existsResponse kindExistsResponse

/-- `n` frames in turn, by `read_next_frame`. -/
def readFrames (json : SerdeJson) : Nat → Reading (List TransferFrame)
  | 0 => pure []
  | n + 1 => do
      let frame ← readNextFrame json
      let frames ← readFrames json n
      pure (frame :: frames)

/-- `n` frames in turn, by `read_next_frame_into` with one buffer. -/
def readFramesInto (json : SerdeJson) : Nat → Reading (List TransferFrame)
  | 0 => pure []
  | n + 1 => do
      let borrowed ← readNextFrameInto json
      let frames ← readFramesInto json n
      pure (borrowed.frame :: frames)

end Irosh.Wire
