import Mathlib.Data.Char
import Mathlib.Data.List.Lex
import Mathlib.Data.List.Sort
import Irosh.Transfer.Store
import Irosh.Transfer.UploadDir

/-!
# Uploading a directory as blobs

`upload_blob_dir`: every file below a local directory goes to the client's own blob store,
the names with their hashes make a collection, and the hash of the collection's last blob
is the hash of the directory. Then the blobs are sent, the files first, each behind its
length; the server answers when it has exported them all.

The server works on two things at once: its blob store, and a file system with
directories and contents. What `path_missing_no_follow` says of a path is given
separately, since a live context asks a helper.
-/

namespace Irosh

open UnixPath Wire FileTree

/-- What the client's blob upload asks of its surroundings. -/
inductive UploadOp where
  | blob (o : BlobOp)
  /-- `WalkDir::new(root)`, to its end. An entry that cannot be read is `none`. -/
  | walkDir (root : Path)
  /-- `reader(hash).read_to_end`. -/
  | readBlob (hash : Hash)
  /-- `open_transfer_stream`. -/
  | openStream

def UploadOp.Answer : UploadOp → Type
  | .blob o => o.Answer
  | .walkDir _ => List (Option WalkDirEntry)
  | .readBlob _ => Option (List UInt8)
  | .openStream => Bool

abbrev UploadProg := Prog UploadOp UploadOp.Answer

abbrev UploadOp.perform (o : UploadOp) : UploadProg o.Answer := Prog.perform o

/-- A blob program among the client's functions. -/
def BlobProg.upload {α : Type} (p : BlobProg α) : UploadProg α :=
  Prog.lift UploadOp.blob (fun _ r => r) p

/-- `Vec<String>::sort`. Strings are compared byte by byte, which is character by character. -/
def sortNames (names : List (List Char)) : List (List Char) := names.insertionSort (· ≤ ·)

namespace Client

/-- `collect_files_recursive`. Whatever is not a directory counts. -/
def collectFilesRecursive : List (Option WalkDirEntry) → Option (List (List Char))
  | [] => some []
  | none :: _ => none
  | some entry :: rest =>
      match collectFilesRecursive rest with
      | none => none
      | some names =>
          some (if entry.fileType = .dir then names else entry.relative.display :: names)

/-- The loop that adds the files. -/
def addLocalFiles (localRoot : Path) (collection : Collection) :
    List (List Char) → UploadProg (Except String Collection)
  | [] => pure (.ok collection)
  | relative :: rest => do
      let data : Option (List UInt8) ←
        (UploadOp.blob (.readFile (localRoot.join (parse relative)))).perform
      match data with
      | none => pure (.error "read file")
      | some data =>
          let added : Except Unit (Option Hash) ← (UploadOp.blob (.addBytes data)).perform
          match added with
          | .error _ => pure (.error "failed to add file to store")
          | .ok none => pure (.error "add_bytes finished without hash")
          | .ok (some hash) => addLocalFiles localRoot (collection ++ [(relative, hash)]) rest

/-- `write_frame`, with its failure passed on. -/
def sendFrame (frame : TransferFrame) : UploadProg (Except String Unit) := do
  let sent : Bool ← (UploadOp.blob (.send frame)).perform
  pure (if sent then .ok () else .error "stream write failed")

def sendChunks : List (List UInt8) → UploadProg (Except String Unit)
  | [] => pure (.ok ())
  | chunk :: rest => do
      match ← sendFrame (.putChunk chunk) with
      | .error e => pure (.error e)
      | .ok _ => sendChunks rest

/-- `send_raw_blob`, for one blob after another. It returns the bytes sent so far. -/
def sendRawBlobs (sent : Nat) : List (List UInt8) → UploadProg (Except String Nat)
  | [] => pure (.ok sent)
  | data :: rest => do
      match ← sendChunks (sendRawBlob data) with
      | .error e => pure (.error e)
      | .ok _ => sendRawBlobs (sent + sentBytes data) rest

/-- `send_blob_from_store`, for one entry of the collection after another. -/
def sendChildren (sent : Nat) : Collection → UploadProg (Except String Nat)
  | [] => pure (.ok sent)
  | (_, hash) :: rest => do
      let data : Option (List UInt8) ← (UploadOp.readBlob hash).perform
      match data with
      | none => pure (.error "failed to read blob from store")
      | some data =>
          match ← sendChunks (sendRawBlob data) with
          | .error e => pure (.error e)
          | .ok _ => sendChildren (sent + sentBytes data) rest

/-- The last frame of the server. -/
def confirmBlob (root : Hash) (sent : Nat) : List TransferFrame → Except String Hash
  | [] => .error "stream read failed"
  | .putComplete complete :: _ =>
      if complete.size = UInt64.ofNat sent then .ok root
      else .error ("server confirmed " ++ toString complete.size.toNat ++ " bytes but we sent "
        ++ toString sent)
  | .error failure :: _ => .error failure.detail
  | _ :: _ => .error "unexpected completion frame"

/-- Everything after `PutReady`. -/
def sendCollection (blobs : List (List UInt8)) (collection : Collection) (root : Hash)
    (replies : List TransferFrame) : UploadProg (Except String Hash) := do
  match ← sendChildren 0 collection with
  | .error e => pure (.error e)
  | .ok sent =>
      match ← sendRawBlobs sent blobs with
      | .error e => pure (.error e)
      | .ok sent =>
          match ← sendFrame (.putComplete ⟨UInt64.ofNat sent⟩) with
          | .error e => pure (.error e)
          | .ok _ => pure (confirmBlob root sent replies)

/-- The request. -/
def blobDirRequest (remote : Path) (rootText : String) (total : Nat) : BlobPutRequest :=
  ⟨String.ofList remote.display, rootText, "hashseq", UInt64.ofNat total⟩

/-- The conversation with the server. -/
def putCollection (blobs : List (List UInt8)) (collection : Collection) (remote : Path)
    (rootText : String) (root : Hash) (total : Nat) (replies : List TransferFrame) :
    UploadProg (Except String Hash) := do
  let opened : Bool ← UploadOp.openStream.perform
  if opened then
    match ← sendFrame (.blobPutRequest (blobDirRequest remote rootText total)) with
    | .error e => pure (.error e)
    | .ok _ =>
        match replies with
        | [] => pure (.error "stream read failed")
        -- whatever size is announced
        | .putReady _ :: rest => sendCollection blobs collection root rest
        | .error failure :: _ => pure (.error failure.detail)
        | _ :: _ => pure (.error "unexpected frame")
  else pure (.error "blob dir upload unavailable")

/-- `upload_blob_dir`. `toBlobs` is `Collection::to_blobs`, and `hashText` is `Hash::to_string`. -/
def uploadBlobDir (toBlobs : Collection → List (List UInt8)) (hashText : Hash → String)
    (localRoot remote : Path) (replies : List TransferFrame) : UploadProg (Except String Hash) := do
  let walked : List (Option WalkDirEntry) ← (UploadOp.walkDir localRoot).perform
  match collectFilesRecursive walked with
  | none => pure (.error "read directory recursively")
  | some names =>
      match ← addLocalFiles localRoot [] (sortNames names) with
      | .error e => pure (.error e)
      | .ok collection =>
          -- the same loop as in `add_directory_to_store`
          match ← BlobProg.upload (addCollectionBlobs none 0 (toBlobs collection)) with
          | .error e => pure (.error e)
          | .ok (root, total) =>
              putCollection (toBlobs collection) collection remote (hashText root) root total replies

end Client

/-! ## The client's surroundings -/

/-- The client's store and the frames it has written, a walk of the local directory and its files. -/
structure BlobClient where
  blob : BlobWorld
  walked : List (Option WalkDirEntry)
  files : Path → Option (List UInt8)

namespace BlobClient

def after (w : BlobClient) : BlobClient := { w with blob := w.blob.after }

def answer (f : StoreFormat) (o : UploadOp) (w : BlobClient) : o.Answer × BlobClient :=
  match o with
  | .blob (.readFile p) => (if w.blob.next = .works then w.files p else none, w.after)
  | .blob o => ((w.blob.answer f o).1, { w with blob := (w.blob.answer f o).2 })
  | .walkDir _ => (w.walked, w.after)
  | .readBlob hash => (if w.blob.next = .works then w.blob.lookup f hash else none, w.after)
  | .openStream => (decide (w.blob.next = .works), w.after)

def run (f : StoreFormat) {α : Type} (p : UploadProg α) (w : BlobClient) : α × BlobClient :=
  p.eval (answer f) w

end BlobClient

/-! ## The server's surroundings -/

/-- A blob store and a file system. The paths of `blob` are not used: what exists is in `nodes`. -/
structure StoreTree where
  blob : BlobWorld
  nodes : Nodes
  /-- The modes of new directories and files. -/
  dirMode : UInt32
  fileMode : UInt32
  /-- What `path_missing_no_follow` says. -/
  probe : Path → Except Unit Bool
  /-- What `WalkDir` meets below a place, by the names from there on. -/
  listing : Spot → List Spot

namespace StoreTree

def after (v : StoreTree) : StoreTree := { v with blob := v.blob.after }

def look (v : StoreTree) (p : Path) : Led := lead v.nodes [] p.parts

/-- What is found at a path. -/
def find (v : StoreTree) (p : Path) : Option (Spot × Option FileNode) :=
  match v.look p with
  | .at s => some (s, v.nodes s)
  | .missing | .blocked => none

/-- A file gets new contents. One that was there keeps its mode. -/
def write (v : StoreTree) (s : Spot) (data : List UInt8) : StoreTree :=
  { v with
    nodes := Function.update v.nodes s (match v.nodes s with
      | some (.file mode _) => some (.file mode data)
      | _ => some (.file v.fileMode data)) }

/-- An export that fails halfway leaves an empty file. -/
def exportBlob (f : StoreFormat) (v : StoreTree) (hash : Hash) (p : Path) : Bool × StoreTree :=
  match v.find p with
  | none | some (_, some (.dir _)) => (false, v.after)
  | some (s, _) =>
      match v.blob.next, v.blob.lookup f hash with
      | .works, some data => (true, (v.write s data).after)
      | .halfway, _ => (false, (v.write s []).after)
      | _, _ => (false, v.after)

/-- What the file system answers. A blob transfer asks for nothing else, and gets nothing else. -/
def fsAnswer (f : StoreFormat) (o : FsOp) (v : StoreTree) : o.Answer × StoreTree :=
  match o with
  | .pathMissing p => (v.probe p, v.after)
  | .createDirAll p =>
      if v.blob.next = .works then
        ((makeDirs v.dirMode v.nodes [] p.parts).1,
          { v.after with nodes := (makeDirs v.dirMode v.nodes [] p.parts).2 })
      else (false, v.after)
  | .exportBlob hash p => v.exportBlob f hash p
  | .readBlob hash => ((v.blob.answerFs f (.readBlob hash)).1, v.after)
  | .loadCollection hash => ((v.blob.answerFs f (.loadCollection hash)).1, v.after)
  | .now => (⟨[], slash_notMem_nil⟩, v.after)
  | .createFile _ | .writeAll _ _ | .finish _ | .rename _ _ | .copy _ _ | .removeFile _
  | .setMode _ _ | .reply => (false, v.after)

/-- The names of the regular files below a place, sorted. -/
def filesBelow (v : StoreTree) (s : Spot) : List (List Char) :=
  sortNames (((v.listing s).filter fun q => (fileAt v.nodes (s ++ q)).isSome).map fun q =>
    Path.display ⟨.plain, q.map .normal⟩)

/-- The length of a directory is not that of a file; nobody asks for it. -/
def length : FileNode → Nat
  | .file _ data => data.length
  | .dir _ => 0

def answer (f : StoreFormat) (o : BlobOp) (v : StoreTree) : o.Answer × StoreTree :=
  match o with
  | .fs o => fsAnswer f o v
  | .walk p =>
      (match v.find p with
        | some (s, some (.dir _)) => if v.blob.next = .works then some (v.filesBelow s) else none
        -- a file is its own walk
        | some (_, some (.file _ _)) => if v.blob.next = .works then some [[]] else none
        | _ => none, v.after)
  | .metadata p =>
      (match v.find p with
        | some (_, some node) => if v.blob.next = .works then some (length node) else none
        | _ => none, v.after)
  | .readFile p =>
      (match v.find p with
        | some (_, some (.file _ data)) => if v.blob.next = .works then some data else none
        | _ => none, v.after)
  | o => ((v.blob.answer f o).1, { v with blob := (v.blob.answer f o).2 })

def run (f : StoreFormat) {α : Type} (p : BlobProg α) (v : StoreTree) : α × StoreTree :=
  p.eval (answer f) v

end StoreTree

end Irosh
