import Mathlib.Data.List.Basic

/-!
# Transfer frames

The twenty frames of the transfer protocol, their kind bytes and their payloads.
Eighteen of them carry a JSON document and two carry raw bytes.

`serde_json` is a parameter. `Payload` names the types the protocol sends as JSON,
and `SerdeJson` is a serialiser and a parser for each of them.
-/

namespace Irosh.Wire

/-! ## Payload types -/

structure PutRequest where
  path : String
  size : UInt64
  mode : Option UInt32
  recursive : Bool
  deriving DecidableEq, Repr

structure GetRequest where
  path : String
  recursive : Bool
  deriving DecidableEq, Repr

structure BlobPutRequest where
  path : String
  hash : String
  format : String
  size : UInt64
  deriving DecidableEq, Repr

structure BlobGetRequest where
  path : String
  deriving DecidableEq, Repr

structure BlobGetReady where
  hash : String
  format : String
  size : UInt64
  deriving DecidableEq, Repr

structure TransferReady where
  size : UInt64
  mode : Option UInt32
  deriving DecidableEq, Repr

structure EntryHeader where
  path : String
  size : UInt64
  mode : Option UInt32
  isDir : Bool
  deriving DecidableEq, Repr

structure EntryComplete where
  deriving DecidableEq, Repr

structure TransferComplete where
  size : UInt64
  deriving DecidableEq, Repr

inductive TransferFailureCode where
  | remoteShellUnavailable
  | targetAlreadyExists
  | pathInvalid
  | createDirectoryFailed
  | sizeMismatch
  | unexpectedFrame
  | helperFailed
  | atomicRenameFailed
  | rejected
  | notFound
  | isDirectory
  | internal
  deriving DecidableEq, Repr

structure TransferFailure where
  code : TransferFailureCode
  detail : String
  deriving DecidableEq, Repr

structure CwdRequest where
  deriving DecidableEq, Repr

structure CwdResponse where
  path : String
  deriving DecidableEq, Repr

structure ExistsRequest where
  path : String
  deriving DecidableEq, Repr

structure ExistsResponse where
  exists' : Bool
  isDir : Bool
  deriving DecidableEq, Repr

structure CompletionRequest where
  path : String
  deriving DecidableEq, Repr

structure CompletionResponse where
  matches' : List String
  deriving DecidableEq, Repr

/-! ## Frames -/

/-- `TransferFrame`. -/
inductive TransferFrame where
  | putRequest (request : PutRequest)
  | putReady (ready : TransferReady)
  | putChunk (chunk : List UInt8)
  | putComplete (complete : TransferComplete)
  | getRequest (request : GetRequest)
  | getReady (ready : TransferReady)
  | getChunk (chunk : List UInt8)
  | getComplete (complete : TransferComplete)
  | cwdRequest (request : CwdRequest)
  | cwdResponse (response : CwdResponse)
  | existsRequest (request : ExistsRequest)
  | existsResponse (response : ExistsResponse)
  | completionRequest (request : CompletionRequest)
  | completionResponse (response : CompletionResponse)
  | blobPutRequest (request : BlobPutRequest)
  | blobGetRequest (request : BlobGetRequest)
  | blobGetReady (ready : BlobGetReady)
  | newEntry (header : EntryHeader)
  | entryComplete (complete : EntryComplete)
  | error (failure : TransferFailure)
  deriving DecidableEq, Repr

/-- What a read reports when it finds no more bytes. -/
inductive IoError where
  | unexpectedEof
  | other (code : Nat)
  deriving DecidableEq, Repr

/-- `TransferError`. A JSON error is its text. -/
inductive TransferError where
  | io (e : IoError)
  | invalidMagic
  | unsupportedVersion (version : UInt8)
  | unsupportedKind (kind : UInt8)
  | unexpectedKind (expected actual : UInt8)
  | payloadTooLarge (len : Nat)
  | json (message : String)
  | invalidPath (details : String)
  deriving DecidableEq, Repr

/-! ## Constants -/

/-- `MAGIC`: "IRFT". -/
def magic : List UInt8 := [0x49, 0x52, 0x46, 0x54]

/-- `VERSION`. -/
def version : UInt8 := 2

def kindPutRequest : UInt8 := 1
def kindPutReady : UInt8 := 2
def kindPutChunk : UInt8 := 3
def kindPutComplete : UInt8 := 4
def kindGetRequest : UInt8 := 5
def kindGetReady : UInt8 := 6
def kindGetChunk : UInt8 := 7
def kindGetComplete : UInt8 := 8
def kindError : UInt8 := 9
def kindCwdRequest : UInt8 := 10
def kindCwdResponse : UInt8 := 11
def kindExistsRequest : UInt8 := 12
def kindExistsResponse : UInt8 := 13
def kindNewEntry : UInt8 := 14
def kindEntryComplete : UInt8 := 15
def kindCompletionRequest : UInt8 := 16
def kindCompletionResponse : UInt8 := 17
def kindBlobPutRequest : UInt8 := 18
def kindBlobGetRequest : UInt8 := 19
def kindBlobGetReady : UInt8 := 20

/-- `MAX_CONTROL_BYTES`. -/
def maxControlBytes : Nat := 8 * 1024

/-- `MAX_CHUNK_BYTES`. -/
def maxChunkBytes : Nat := 64 * 1024

/-- The limit `validate_payload_limit` looks up. -/
def maxLen (kind : UInt8) : Nat :=
  if kind = kindPutChunk ∨ kind = kindGetChunk then maxChunkBytes else maxControlBytes

/-- `validate_payload_limit`. -/
def validatePayloadLimit (kind : UInt8) (payloadLen : Nat) : Except TransferError Unit :=
  if payloadLen > maxLen kind then .error (.payloadTooLarge payloadLen) else .ok ()

/-! ## JSON -/

/-- The types that travel as JSON. -/
inductive Payload where
  | putRequest
  | getRequest
  | blobPutRequest
  | blobGetRequest
  | blobGetReady
  | transferReady
  | entryHeader
  | entryComplete
  | transferComplete
  | transferFailure
  | cwdRequest
  | cwdResponse
  | existsRequest
  | existsResponse
  | completionRequest
  | completionResponse
  deriving DecidableEq, Repr

/-- The values of such a type. -/
def Payload.Value : Payload → Type
  | .putRequest => PutRequest
  | .getRequest => GetRequest
  | .blobPutRequest => BlobPutRequest
  | .blobGetRequest => BlobGetRequest
  | .blobGetReady => BlobGetReady
  | .transferReady => TransferReady
  | .entryHeader => EntryHeader
  | .entryComplete => EntryComplete
  | .transferComplete => TransferComplete
  | .transferFailure => TransferFailure
  | .cwdRequest => CwdRequest
  | .cwdResponse => CwdResponse
  | .existsRequest => ExistsRequest
  | .existsResponse => ExistsResponse
  | .completionRequest => CompletionRequest
  | .completionResponse => CompletionResponse

/-- `serde_json::to_vec` and `serde_json::from_slice`. -/
structure SerdeJson where
  toVec : (p : Payload) → p.Value → Except String (List UInt8)
  fromSlice : (p : Payload) → List UInt8 → Except String p.Value

/-- What is written of a value is read back as that value. -/
def SerdeJson.RoundTrips (json : SerdeJson) : Prop :=
  ∀ p v bytes, json.toVec p v = .ok bytes → json.fromSlice p bytes = .ok v

end Irosh.Wire
