import Irosh.Lib.FileTree
import Irosh.Transfer.Serve

/-!
# Uploading a directory

`upload_dir_with_progress`: a request, the walk of the local directory, a header for
every entry with the contents behind it, and a completion that the server has to answer
with the same number of bytes.

The file system of the client is asked for the walk as a whole, as the source collects it
before it sends the first entry, and for the reads of a file when it is opened. The
frames that the server sends are the list of those that can be read.
-/

namespace Irosh

open UnixPath Wire FileTree

/-- `std::fs::FileType`. -/
inductive FileType where
  | dir
  | file
  | symlink
  | other
  deriving DecidableEq, Repr

/-- What `metadata()` tells. -/
structure FileMeta where
  len : UInt64
  mode : UInt32
  deriving DecidableEq, Repr

/-- `walkdir::DirEntry`, with its path below the root of the walk. -/
structure WalkDirEntry where
  relative : Path
  fileType : FileType
  metadata : Option FileMeta
  deriving DecidableEq

/-- The path of an entry below the root. -/
def relPath (q : Spot) : Path := ⟨.plain, q.map .normal⟩

/-- What the client's upload asks of its surroundings. -/
inductive ClientOp where
  | send (frame : TransferFrame)
  /-- `WalkDir::new(root)`, to its end. An entry that cannot be read is `none`. -/
  | walkDir (root : Path)
  /-- `File::open`, with all that reading it will give. -/
  | openFile (p : Path)

def ClientOp.Answer : ClientOp → Type
  | .send _ => Bool
  | .walkDir _ => List (Option WalkDirEntry)
  | .openFile _ => Option Source

abbrev ClientProg := Prog ClientOp ClientOp.Answer

abbrev ClientOp.perform (o : ClientOp) : ClientProg o.Answer := Prog.perform o

namespace Client

/-- A frame whose failure to be written is passed on. -/
def send (frame : TransferFrame) : ClientProg (Except String Unit) := do
  let sent : Bool ← (ClientOp.send frame).perform
  pure (if sent then .ok () else .error "stream write failed")

/-! ## The walk -/

/-- What becomes of one entry of the walk. The root itself is passed over. -/
def walkEntry (root : Path) (entry : WalkDirEntry) : Except String (Option WalkEntry) :=
  -- `reject_recursive_symlink`
  if entry.fileType = .symlink then
    .error ("recursive upload does not support symbolic links: "
      ++ String.ofList (root.join entry.relative).display)
  else if entry.relative.display = [] then .ok none
  else
    match entry.metadata with
    | none => .error "read entry metadata"
    | some metadata =>
        .ok (some
          { relative := entry.relative.display
            fullPath := root.join entry.relative
            isDir := entry.fileType = .dir
            size := if entry.fileType = .dir then 0 else metadata.len
            mode := some (metadata.mode &&& 0o777) })

/-- The entries that are going to be sent. -/
def collectWalk (root : Path) : List (Option WalkDirEntry) → Except String (List WalkEntry)
  | [] => .ok []
  | none :: _ => .error "walk local directory"
  | some entry :: rest =>
      match walkEntry root entry with
      | .error e => .error e
      | .ok found =>
          match collectWalk root rest with
          | .error e => .error e
          | .ok entries => .ok (found.toList ++ entries)

/-! ## Sending -/

/-- The loop that reads a file and writes chunks. It returns the bytes sent so far. -/
def sendReads (broken : Bool) (totalSent : Nat) : List (List UInt8) → ClientProg (Except String Nat)
  | [] => pure (if broken then .error "read file chunk" else .ok totalSent)
  | chunk :: rest =>
      if chunk.length = 0 then pure (.ok totalSent)
      else do
        match ← send (.putChunk chunk) with
        | .error e => pure (.error e)
        | .ok _ => sendReads broken (totalSent + chunk.length) rest

/-- A file, behind its header. -/
def sendFile (path : Path) (totalSent : Nat) : ClientProg (Except String Nat) := do
  let opened : Option Source ← (ClientOp.openFile path).perform
  match opened with
  | none => pure (.error "open file for streaming")
  | some source =>
      match ← sendReads source.broken totalSent source.reads with
      | .error e => pure (.error e)
      | .ok totalSent =>
          match ← send (.entryComplete ⟨⟩) with
          | .error e => pure (.error e)
          | .ok _ => pure (.ok totalSent)

/-- The header of an entry. On Unix the separators stay as they are. -/
def entryHeader (entry : WalkEntry) : Wire.EntryHeader :=
  ⟨String.ofList entry.relative, entry.size, entry.mode, entry.isDir⟩

/-- The loop over entries. -/
def sendWalked (totalSent : Nat) : List WalkEntry → ClientProg (Except String Nat)
  | [] => pure (.ok totalSent)
  | entry :: rest => do
      match ← send (.newEntry (entryHeader entry)) with
      | .error e => pure (.error e)
      | .ok _ =>
          if entry.isDir then sendWalked totalSent rest
          else
            match ← sendFile entry.fullPath totalSent with
            | .error e => pure (.error e)
            | .ok totalSent => sendWalked totalSent rest

/-- The last frame of the server. -/
def confirm (totalSent : Nat) : List TransferFrame → Except String Unit
  | [] => .error "stream read failed"
  | .putComplete complete :: _ =>
      if complete.size = UInt64.ofNat totalSent then .ok ()
      else .error ("remote reported " ++ toString complete.size.toNat ++ " bytes saved, expected "
        ++ toString totalSent)
  | .error failure :: _ => .error failure.detail
  | _ :: _ => .error "unexpected completion frame"

/-- Everything after `PutReady`. -/
def uploadTree (localRoot : Path) (replies : List TransferFrame) : ClientProg (Except String Unit) := do
  let walked : List (Option WalkDirEntry) ← (ClientOp.walkDir localRoot).perform
  match collectWalk localRoot walked with
  | .error e => pure (.error e)
  | .ok entries =>
      match ← sendWalked 0 entries with
      | .error e => pure (.error e)
      | .ok totalSent =>
          match ← send (.putComplete ⟨UInt64.ofNat totalSent⟩) with
          | .error e => pure (.error e)
          | .ok _ => pure (confirm totalSent replies)

/-- The request. -/
def uploadDirRequest (remoteRoot : Path) : PutRequest :=
  ⟨String.ofList remoteRoot.display, 0, none, true⟩

/-- `upload_dir_with_progress`. `opened` is whether there is a stream. -/
def uploadDirWithProgress (localRoot remoteRoot : Path) (opened : Bool)
    (replies : List TransferFrame) : ClientProg (Except String Unit) :=
  if opened then do
    match ← send (.putRequest (uploadDirRequest remoteRoot)) with
    | .error e => pure (.error e)
    | .ok _ =>
        match replies with
        | [] => pure (.error "stream read failed")
        | .putReady _ :: rest => uploadTree localRoot rest
        | .error failure :: _ => pure (.error failure.detail)
        | _ :: _ => pure (.error "unexpected preflight frame")
  else pure (.error "recursive upload unavailable")

end Client

/-! ## The client's surroundings -/

/-- The walk of the local directory, its files, and the frames that were written. -/
structure LocalWorld where
  walked : List (Option WalkDirEntry)
  files : Path → Option Source
  writes : TransferFrame → Bool
  sent : List TransferFrame

namespace LocalWorld

def answer (o : ClientOp) (w : LocalWorld) : o.Answer × LocalWorld :=
  match o with
  | .send frame =>
      (w.writes frame, if w.writes frame then { w with sent := w.sent ++ [frame] } else w)
  | .walkDir _ => (w.walked, w)
  | .openFile p => (w.files p, w)

def run {α : Type} (p : ClientProg α) (w : LocalWorld) : α × LocalWorld := p.eval answer w

end LocalWorld

/-! ## The server's surroundings -/

/-- A file system in which everything works that can, and the frames that were written. -/
structure TreeWorld where
  nodes : Nodes
  /-- The modes of new directories and files. -/
  dirMode : UInt32
  fileMode : UInt32
  /-- The time, whenever it is asked for. -/
  stamps : Nat → Stamp
  ticks : Nat
  writes : TransferFrame → Bool
  sent : List TransferFrame

namespace TreeWorld

/-- Where an absolute path leads. -/
def look (w : TreeWorld) (p : Path) : Led := lead w.nodes [] p.parts

def set (w : TreeWorld) (s : Spot) (node : Option FileNode) : TreeWorld :=
  { w with nodes := Function.update w.nodes s node }

/-- What is found at a path. -/
def find (w : TreeWorld) (p : Path) : Option (Spot × Option FileNode) :=
  match w.look p with
  | .at s => some (s, w.nodes s)
  | .missing | .blocked => none

def fsAnswer (o : FsOp) (w : TreeWorld) : o.Answer × TreeWorld :=
  match o with
  | .now => (w.stamps w.ticks, { w with ticks := w.ticks + 1 })
  | .pathMissing p =>
      (match w.look p with
        | .at s => .ok (w.nodes s).isNone
        | .missing => .ok true
        | .blocked => .error (), w)
  | .createDirAll p =>
      ((makeDirs w.dirMode w.nodes [] p.parts).1,
        { w with nodes := (makeDirs w.dirMode w.nodes [] p.parts).2 })
  | .createFile p =>
      match w.find p with
      | some (_, some (.dir _)) => (false, w)
      | some (s, _) => (true, w.set s (some (.file w.fileMode [])))
      | none => (false, w)
  | .writeAll p chunk =>
      match w.find p with
      | some (s, some (.file mode data)) => (true, w.set s (some (.file mode (data ++ chunk))))
      | _ => (false, w)
  | .finish _ => (true, w)
  | .rename src dst =>
      match w.find src, w.find dst with
      | some _, some (_, some (.dir _)) => (false, w)
      | some (s, some (.file mode data)), some (t, _) =>
          (true, (w.set s none).set t (some (.file mode data)))
      | _, _ => (false, w)
  | .copy src dst =>
      match w.find src, w.find dst with
      | some _, some (_, some (.dir _)) => (false, w)
      | some (_, some (.file mode data)), some (t, _) => (true, w.set t (some (.file mode data)))
      | _, _ => (false, w)
  | .removeFile p =>
      match w.find p with
      | some (s, some (.file _ _)) => (true, w.set s none)
      | _ => (false, w)
  | .setMode p mode =>
      match w.find p with
      | some (s, some node) => (true, w.set s (some (node.withMode (UInt32.ofNat mode))))
      | _ => (false, w)
  | .readBlob _ => (true, w)
  | .loadCollection _ => (true, w)
  | .exportBlob _ _ => (true, w)
  | .reply => (true, w)

def answer (o : ServeOp) (w : TreeWorld) : o.Answer × TreeWorld :=
  match o with
  | .blob (.fs o) => fsAnswer o w
  | .blob (.send frame) =>
      (w.writes frame, if w.writes frame then { w with sent := w.sent ++ [frame] } else w)
  | o => (o.idle, w)

def run {α : Type} (p : ServeProg α) (w : TreeWorld) : α × TreeWorld := p.eval answer w

end TreeWorld

end Irosh
