import Irosh.Transfer.DownloadDir
import Irosh.Transfer.UploadFile

/-!
# A tree that does not hold still

What a recursive download meets where things go wrong on the server's side. The walk may
fail. `find` may not start, it may be killed anywhere, so that its output ends in the
middle of a record, and reading its output may fail. What is read of a file afterwards need
not have the length it was listed with: the file may have changed, and a helper that fails
gives what it gives, since nobody looks at its exit.

A path is bytes here, and what the client is told of it is `from_utf8_lossy`.

The stream is not among these. Where it breaks off, the client has read some of the frames
only.
-/

namespace Irosh

open UnixPath Wire

/-- `%y`. Sockets, fifos and devices have a letter each, and none of them matters. -/
def FileType.letter : FileType → Char
  | dir => 'd'
  | file => 'f'
  | symlink => 'l'
  | other => 's'

/-- Something below the directory. -/
structure RemoteEntry where
  path : List UInt8
  fileType : FileType
  metadata : FileMeta
  named : path ≠ []
  noNul : (0 : UInt8) ∉ path
  /-- Names with single slashes between them. -/
  normal : (parse (Utf8.decodeLossy path)).display = Utf8.decodeLossy path

namespace RemoteEntry

def shown (e : RemoteEntry) : List Char := Utf8.decodeLossy e.path

/-- How `WalkDir` shows it. -/
def walked (e : RemoteEntry) : WalkDirEntry := ⟨parse e.shown, e.fileType, some e.metadata⟩

/-- `%s`. -/
def sizeField (e : RemoteEntry) : List UInt8 := Utf8.encode (Nat.toDigits 10 e.metadata.len.toNat)

/-- `%m`. -/
def modeField (e : RemoteEntry) : List UInt8 :=
  Utf8.encode (Nat.toDigits 8 (e.metadata.mode &&& 0o7777).toNat)

/-- What `find` prints for it. -/
def printed (e : RemoteEntry) : List UInt8 :=
  Utf8.encode [e.fileType.letter]
    ++ 0 :: (e.path ++ 0 :: (e.sizeField ++ 0 :: (e.modeField ++ [0])))

end RemoteEntry

/-- A tree, and what becomes of a download of it. -/
structure FaultyTree where
  /-- All that is there. -/
  entries : List RemoteEntry
  rootMeta : FileMeta
  /-- What `WalkDir` meets, and whether it gets through. -/
  walk : List RemoteEntry
  walks : ∀ e ∈ walk, e ∈ entries
  walkable : Bool
  /-- What `find` meets, and whether it starts. -/
  found : List RemoteEntry
  finds : ∀ e ∈ found, e ∈ entries
  spawns : Bool
  /-- How much of its output there is, and whether a read fails behind that. -/
  cut : Nat
  broken : Bool
  /-- What there is to be read where a file is opened, for the first file, the second and so on. -/
  sources : Nat → Option Source
  /-- A read fills the buffer at most. -/
  bounded : ∀ n source, sources n = some source → ∀ chunk ∈ source.reads, chunk.length ≤ maxChunkBytes

namespace FaultyTree

/-- `find`'s output. -/
def output (w : FaultyTree) : List UInt8 := (w.found.flatMap RemoteEntry.printed).take w.cut

/-- How many files have been opened, and the frames that were written. -/
structure Progress where
  opened : Nat
  sent : List TransferFrame

def answer (w : FaultyTree) (json : SerdeJson) (o : ServeOp) (s : Progress) : o.Answer × Progress :=
  match o with
  | .walkTree root =>
      (if w.walkable then
        Serve.collectTree root
          (some ⟨⟨.plain, []⟩, .dir, some w.rootMeta⟩ :: w.walk.map fun e => some e.walked)
      else none, s)
  | .find _ => (if w.spawns then some (w.output, w.broken) else none, s)
  | .openSource _ => (w.sources s.opened, { s with opened := s.opened + 1 })
  | .blob (.send frame) =>
      if sendable json frame then (true, { s with sent := s.sent ++ [frame] }) else (false, s)
  | o => (o.idle, s)

/-- The frames that a recursive download writes. -/
def served (w : FaultyTree) (json : SerdeJson) (context : ShellContext) (request : GetRequest) :
    List TransferFrame :=
  ((Serve.handleRecursiveGet context request).eval (w.answer json) ⟨0, []⟩).2.sent

end FaultyTree

end Irosh
