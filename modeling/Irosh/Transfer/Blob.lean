import Irosh.Lib.BigEndian
import Irosh.Transport.Frames
import Irosh.Transfer.Receive

/-!
# Blob transfers

`handle_blob_put_request` keeps what it receives in memory until a blob is complete,
hands it to the blob store, and exports from the store to the target path. In the
raw format all chunks make one blob; in the hash-seq format the stream is a sequence
of blobs, each behind its length in eight bytes, and a chunk that starts a blob
starts with that length.

What it holds in memory is charged to a budget of the connection, in whole MiB. The
guard is given back before another one is asked for, and when the block that owns it
is left.

As in `Irosh.Transfer.Receive`, a stream is the list of frames that can still be read.
-/

namespace Irosh

open UnixPath BigEndian Wire

/-- `MAX_IN_MEMORY_TRANSFER_BYTES`. -/
def maxInMemoryTransferBytes : Nat := 512 * 1024 * 1024

/-- `MIB_BYTES`. -/
def mibBytes : Nat := 1024 * 1024

/-- `blob_memory_permits`. -/
def blobMemoryPermits (bytes : Nat) : Nat :=
  (min bytes maxInMemoryTransferBytes + (mibBytes - 1)) / mibBytes

/-- What the blob functions ask of their surroundings. -/
inductive BlobOp where
  | fs (o : FsOp)
  /-- A frame sent to the peer. -/
  | send (frame : TransferFrame)
  /-- `BlobMemoryGuard::acquire`. -/
  | acquire (bytes : Nat)
  /-- A guard is dropped. -/
  | release
  /-- `try_reserve`. -/
  | reserve (bytes : Nat)
  /-- A chunk has been accepted, and this many bytes are in memory now (ghost). -/
  | accepted (inMemory : Nat)
  /-- The end of a block that owns a guard and a buffer. -/
  | leave
  | addBytes (blob : List UInt8)
  | status (hash : Hash)
  /-- `Collection::load`. -/
  | load (hash : Hash)
  /-- The sorted relative paths of the files below a directory. -/
  | walk (dir : Path)
  | metadata (p : Path)
  | readFile (p : Path)

/-- The answers. `addBytes` fails, or ends with or without a hash; `status` fails or knows the blob
or not. -/
def BlobOp.Answer : BlobOp → Type
  | .fs o => o.Answer
  | .send _ => Bool
  | .acquire _ => Bool
  | .release => Unit
  | .reserve _ => Bool
  | .accepted _ => Unit
  | .leave => Unit
  | .addBytes _ => Except Unit (Option Hash)
  | .status _ => Except Unit Bool
  | .load _ => Option Collection
  | .walk _ => Option (List (List Char))
  | .metadata _ => Option Nat
  | .readFile _ => Option (List UInt8)

abbrev BlobProg := Prog BlobOp BlobOp.Answer

abbrev BlobOp.perform (o : BlobOp) : BlobProg o.Answer := Prog.perform o

/-- A file system program among the blob functions. -/
def FsProg.lift {α : Type} (p : FsProg α) : BlobProg α := Prog.lift BlobOp.fs (fun _ r => r) p

/-- `ensure_within_cap`. -/
def ensureWithinCap (received : Nat) : Except String Unit :=
  if received > maxInMemoryTransferBytes then
    .error ("transfer exceeds the in-memory limit of 536870912 bytes; "
      ++ "streaming file transfers are not supported yet")
  else .ok ()

/-! ## The hash-seq loop -/

/-- The variables of the hash-seq loop. -/
structure HashSeq where
  received : Nat
  expectedRemaining : Nat
  currentBlob : List UInt8
  blobCount : Nat
  curBlobStarted : Bool
  deriving DecidableEq, Repr

def HashSeq.init : HashSeq := ⟨0, 0, [], 0, false⟩

/-- A chunk that starts a blob: the length, its budget, and the bytes behind it. -/
def startBlob (st : HashSeq) (data : List UInt8) : BlobProg (Except String HashSeq) :=
  if data.length < 8 then pure (.error "truncated length prefix")
  else
    let declared := beDecode (data.take 8)
    let blobStart := data.drop 8
    if declared > maxInMemoryTransferBytes then
      pure (.error ("declared blob length " ++ toString declared
        ++ " exceeds the in-memory limit of 536870912 bytes"))
    else
      match ensureWithinCap (st.received + declared) with
      | .error e => pure (.error e)
      | .ok _ => do
          -- give the previous guard back before asking for the next
          let _ : Unit ← BlobOp.release.perform
          let granted : Bool ← (BlobOp.acquire declared).perform
          if granted then
            let reserved : Bool ← (BlobOp.reserve declared).perform
            if reserved then
              if declared < blobStart.length then
                pure (.error "declared blob length exceeded by received data")
              else
                pure (.ok { st with
                  expectedRemaining := declared - blobStart.length
                  currentBlob := st.currentBlob ++ blobStart
                  curBlobStarted := true })
            else
              pure (.error ("failed to allocate declared blob size " ++ toString declared))
          else pure (.error "failed to reserve in-memory transfer budget")

/-- A chunk that goes on with a blob. -/
def continueBlob (st : HashSeq) (data : List UInt8) : Except String HashSeq :=
  if st.expectedRemaining < data.length then
    .error "declared blob length exceeded by received data"
  else
    .ok { st with
      expectedRemaining := st.expectedRemaining - data.length
      currentBlob := st.currentBlob ++ data }

/-- `u64::MAX`. -/
def u64Max : Nat := 0xffffffffffffffff

/-- `received.checked_add(data.len())`, and the cap. -/
def countReceived (received len : Nat) : Except String Nat :=
  if received + len > u64Max then .error "transfer size overflow"
  else
    match ensureWithinCap (received + len) with
    | .error e => .error e
    | .ok _ => .ok (received + len)

/-- A complete blob goes to the store, an empty one too. -/
def finishBlob (st : HashSeq) : BlobProg (Except String HashSeq) :=
  if st.expectedRemaining = 0 ∧ st.curBlobStarted = true then do
    let added : Except Unit (Option Hash) ← (BlobOp.addBytes st.currentBlob).perform
    match added with
    | .error _ => pure (.error "failed to add blob to store")
    | .ok _ =>
        let _ : Unit ← BlobOp.release.perform
        pure (.ok { st with currentBlob := [], blobCount := st.blobCount + 1, curBlobStarted := false })
  else pure (.ok st)

/-- The bytes of a chunk, to the blob they belong to. -/
def placeChunk (st : HashSeq) (data : List UInt8) : BlobProg (Except String HashSeq) :=
  if st.expectedRemaining = 0 then startBlob st data else pure (continueBlob st data)

/-- What follows: the count, and the end of the blob. -/
def countChunk (st : HashSeq) (data : List UInt8) : BlobProg (Except String HashSeq) :=
  match countReceived st.received data.length with
  | .error e => pure (.error e)
  | .ok received => do
      let _ : Unit ← (BlobOp.accepted st.currentBlob.length).perform
      finishBlob { st with received := received }

/-- One `PutChunk` of the hash-seq loop. -/
def takeChunk (st : HashSeq) (data : List UInt8) : BlobProg (Except String HashSeq) := do
  match ← placeChunk st data with
  | .error e => pure (.error e)
  | .ok st => countChunk st data

/-- The hash-seq receive loop. It ends without error at a `PutComplete`. -/
def recvHashSeq (st : HashSeq) : List TransferFrame → BlobProg (Except String HashSeq)
  | [] => pure (.error "failed to read frame")
  | .putChunk data :: rest => do
      match ← takeChunk st data with
      | .error e => pure (.error e)
      | .ok st => recvHashSeq st rest
  | .putComplete _ :: _ => pure (.ok st)
  | .error failure :: _ => pure (.error failure.detail)
  | .getChunk _ :: _ => pure (.error "unexpected chunk frame during hashseq blob data")
  | _ :: _ => pure (.error "unexpected frame during blob data")

/-! ## The raw loop -/

/-- The raw receive loop, with the bytes received so far. -/
def recvRaw (size received : Nat) (allData : List UInt8) :
    List TransferFrame → BlobProg (Except String (Nat × List UInt8))
  | [] => pure (.error "failed to read frame")
  | .putChunk data :: rest =>
      match countReceived received data.length with
      | .error e => pure (.error e)
      | .ok received =>
          if received > size then
            pure (.error ("received " ++ toString received
              ++ " bytes, exceeding the declared size of " ++ toString size))
          else do
            let _ : Unit ← (BlobOp.accepted (allData ++ data).length).perform
            recvRaw size received (allData ++ data) rest
  | .putComplete _ :: _ => pure (.ok (received, allData))
  | .error failure :: _ => pure (.error failure.detail)
  | .getChunk _ :: _ => pure (.error "unexpected chunk frame during raw blob data")
  | _ :: _ => pure (.error "unexpected frame during blob data")

/-! ## `handle_blob_put_request` -/

/-- Loading a collection and exporting its entries. -/
def exportLoaded (hash : Hash) (target : Path) : BlobProg (Except String Unit) := do
  let read : Bool ← (BlobOp.fs (.readBlob hash)).perform
  if read then
    let loaded : Option Collection ← (BlobOp.load hash).perform
    match loaded with
    | some collection => FsProg.lift (exportItems target collection)
    | none => pure (.error "failed to load collection")
  else pure (.error "failed to read collection blob")

/-- `export_collection`, with the collection the store holds. -/
def exportStoredCollection (hash : Hash) (target : Path) : BlobProg (Except String Unit) := do
  let made : Bool ← (BlobOp.fs (.createDirAll target)).perform
  if made then exportLoaded hash target else pure (.error "create_dir_all")

/-- Receiving a hash-seq, and asking the store for the collection. -/
def verifyHashSeq (hash : Hash) (frames : List TransferFrame) : BlobProg (Except String Nat) := do
  match ← recvHashSeq .init frames with
  | .error e => pure (.error e)
  | .ok st =>
      if st.blobCount = 0 then pure (.error "no blobs received for hashseq")
      else
        -- whether the store knows the hash, not whether it was sent
        let known : Except Unit Bool ← (BlobOp.status hash).perform
        match known with
        | .error _ => pure (.error "failed to check blob status")
        | .ok false => pure (.error "collection hash not found in store after upload")
        | .ok true => pure (.ok st.received)

/-- Receiving a raw blob, and comparing hashes. -/
def verifyRaw (hash : Hash) (size : Nat) (frames : List TransferFrame) :
    BlobProg (Except String Nat) :=
  if size > maxInMemoryTransferBytes then
    pure (.error ("declared size " ++ toString size
      ++ " exceeds the in-memory limit of 536870912 bytes"))
  else do
    let granted : Bool ← (BlobOp.acquire size).perform
    if granted then
      match ← recvRaw size 0 [] frames with
      | .error e => pure (.error e)
      | .ok (received, allData) =>
          let added : Except Unit (Option Hash) ← (BlobOp.addBytes allData).perform
          match added with
          | .error _ => pure (.error "failed to add blob to store")
          | .ok none => pure (.error "add_bytes finished without hash")
          | .ok (some actual) =>
              if actual ≠ hash then pure (.error "hash mismatch") else pure (.ok received)
    else pure (.error "failed to reserve in-memory transfer budget")

/-- The export of a single file. -/
def exportRaw (hash : Hash) (target : Path) : BlobProg (Except String Unit) := do
  let exported : Bool ← (BlobOp.fs (.exportBlob hash target)).perform
  pure (if exported then .ok () else .error "failed to export blob")

/-- `request.format.to_lowercase() == "hashseq"`. Only ASCII letters have these letters as their
lowercase. -/
def isHashSeq (format : String) : Bool :=
  format.toList.map Char.toLower = ['h', 'a', 's', 'h', 's', 'e', 'q']

/-- Receiving, in the format of the request. -/
def receiveBlob (request : BlobPutRequest) (hash : Hash) (frames : List TransferFrame) :
    BlobProg (Except String Nat) :=
  if isHashSeq request.format then verifyHashSeq hash frames
  else verifyRaw hash request.size.toNat frames

/-- Exporting, in the format of the request. -/
def exportReceived (request : BlobPutRequest) (hash : Hash) (target : Path) :
    BlobProg (Except String Unit) :=
  if isHashSeq request.format then exportStoredCollection hash target else exportRaw hash target

/-- Everything between the first answer and the last, in a block that owns the guards. -/
def putBlob (request : BlobPutRequest) (hash : Hash) (target : Path)
    (frames : List TransferFrame) : BlobProg (Except String Nat) := do
  match ← receiveBlob request hash frames with
  | .error e => pure (.error e)
  | .ok received =>
      match ← exportReceived request hash target with
      | .error e => pure (.error e)
      | .ok _ =>
          let _ : Unit ← BlobOp.leave.perform
          pure (.ok received)

/-- `write_put_ready`, and then the blob. -/
def servePut (request : BlobPutRequest) (hash : Hash) (target : Path)
    (frames : List TransferFrame) : BlobProg (Except String Nat) := do
  let ready : Bool ← (BlobOp.send (.putReady ⟨request.size, none⟩)).perform
  if ready then putBlob request hash target frames else pure (.error "failed to send ready")

/-- `write_put_complete`. -/
def completePut (received : Nat) : BlobProg (Except String Unit) := do
  let sent : Bool ← (BlobOp.send (.putComplete ⟨UInt64.ofNat received⟩)).perform
  pure (if sent then .ok () else .error "failed to send completion")

/-- `target_exists_failure`. -/
def targetExistsFailure (target : Path) : TransferFailure :=
  ⟨.targetAlreadyExists, String.ofList target.display⟩

/-- What `Hash::from_str` makes of a text. -/
inductive HashText where
  | hash (hash : Hash)
  | invalid
  /-- Its decoder panics on a text whose length is not that of a hash. -/
  | panics
  deriving DecidableEq

/-- `handle_blob_put_request` from where the expected hash is known. -/
def putExpected (context : ShellContext) (request : BlobPutRequest) (hash : Hash)
    (frames : List TransferFrame) : BlobProg (Except String Unit) :=
  match context.resolvePath request.path.toList with
  | .error e => pure (.error e.text)
  | .ok target => do
      let missing : Except Unit Bool ← (BlobOp.fs (.pathMissing target)).perform
      match missing with
      | .error _ => pure (.error "failed to probe remote path existence")
      | .ok false =>
          let sent : Bool ← (BlobOp.send (.error (targetExistsFailure target))).perform
          pure (if sent then .ok () else .error "stream write failed")
      | .ok true =>
          match ← servePut request hash target frames with
          | .error e => pure (.error e)
          | .ok received => completePut received

/-- `handle_blob_put_request`, which has no result where it unwinds. `parseHash` is `Hash::from_str`. -/
def handleBlobPutRequest (parseHash : String → HashText) (context : ShellContext)
    (request : BlobPutRequest) (frames : List TransferFrame) : BlobProg (Option (Except String Unit)) :=
  match parseHash request.hash with
  | .panics => pure none
  | .invalid => pure (some (.error "invalid hash"))
  | .hash hash => do
      let result ← putExpected context request hash frames
      pure (some result)

/-! ## `add_directory_to_store` -/

/-- The loop over the files. Each holds its own share of the budget while it is in memory. -/
def addFiles (dir : Path) (collection : Collection) :
    List (List Char) → BlobProg (Except String Collection)
  | [] => pure (.ok collection)
  | relative :: rest => do
      let file := dir.join (parse relative)
      let len : Option Nat ← (BlobOp.metadata file).perform
      match len with
      | none => pure (.error "failed to stat")
      | some len =>
          if len > maxInMemoryTransferBytes then
            pure (.error "file exceeds the in-memory transfer limit")
          else
            let granted : Bool ← (BlobOp.acquire len).perform
            if granted then
              let data : Option (List UInt8) ← (BlobOp.readFile file).perform
              match data with
              | none => pure (.error "failed to read")
              | some data =>
                  let added : Except Unit (Option Hash) ← (BlobOp.addBytes data).perform
                  match added with
                  | .error _ => pure (.error "failed to add file to store")
                  | .ok none => pure (.error "add_bytes finished without hash")
                  | .ok (some hash) =>
                      -- `_file_budget` ends with the iteration
                      let _ : Unit ← BlobOp.leave.perform
                      addFiles dir (collection ++ [(relative, hash)]) rest
            else pure (.error "failed to reserve in-memory transfer budget")

/-- The loop over `collection.to_blobs()`; the last hash is the root. -/
def addCollectionBlobs (root : Option Hash) (total : Nat) :
    List (List UInt8) → BlobProg (Except String (Hash × Nat))
  | [] =>
      match root with
      | none => pure (.error "collection to_blobs produced no blobs")
      | some root => pure (.ok (root, total))
  | data :: rest => do
      let added : Except Unit (Option Hash) ← (BlobOp.addBytes data).perform
      match added with
      | .error _ => pure (.error "failed to add collection blob")
      | .ok none => addCollectionBlobs root (total + data.length) rest
      | .ok (some hash) => addCollectionBlobs (some hash) (total + data.length) rest

/-- `add_directory_to_store`. `toBlobs` is `Collection::to_blobs`. -/
def addDirectoryToStore (toBlobs : Collection → List (List UInt8)) (dir : Path) :
    BlobProg (Except String (Hash × Nat)) := do
  let entries : Option (List (List Char)) ← (BlobOp.walk dir).perform
  match entries with
  | none => pure (.error "failed to walk directory")
  | some entries =>
      match ← addFiles dir [] entries with
      | .error e => pure (.error e)
      | .ok collection => addCollectionBlobs none 0 (toBlobs collection)

/-! ## The client's half -/

/-- `MAX_CHUNK_BYTES` at a time. -/
def splitChunks (data : List UInt8) : List (List UInt8) :=
  if data.length = 0 then []
  else data.take maxChunkBytes :: splitChunks (data.drop maxChunkBytes)
termination_by data.length
decreasing_by
  simp only [List.length_drop, maxChunkBytes]
  omega

/-- The chunks `send_raw_blob` writes: the length, and then the bytes. -/
def sendRawBlob (data : List UInt8) : List (List UInt8) :=
  beEncode 8 data.length :: splitChunks data

/-- What `send_raw_blob` returns. -/
def sentBytes (data : List UInt8) : Nat := 8 + data.length

/-- The frames `upload_blob_dir` writes for its blobs, children first, and the total it sends. -/
def sendBlobs (blobs : List (List UInt8)) : List TransferFrame :=
  (blobs.flatMap sendRawBlob).map .putChunk
    ++ [.putComplete ⟨UInt64.ofNat (blobs.map sentBytes).sum⟩]

end Irosh
