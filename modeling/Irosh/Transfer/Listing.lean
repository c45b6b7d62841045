import Irosh.Transport.Codec
import Irosh.Transfer.UploadDir

/-!
# Listing a tree for a download

A recursive download goes through the tree in one of two ways. Without a live shell the
server walks it itself. With one it lets `find` walk, which sees the tree from where the
shell is, and reads four fields for every entry from its output.

`DirTree` is the tree both of them see. `find` prints what `find_cmd` asks it to print,
`%y\0%P\0%s\0%m\0`: a letter for the kind, the path below the starting point, the length
in decimal and the permission bits in octal.
-/

namespace Irosh

open UnixPath Wire FileTree

namespace Serve

/-- What the native walk makes of one entry; `none` is an error. The root itself and links are passed
over. -/
def walkedEntry (root : Path) (entry : WalkDirEntry) : Option (Option WalkEntry) :=
  if entry.relative.display = [] then some none
  else if entry.fileType = .symlink then some none
  else
    match entry.metadata with
    | none => none
    | some metadata =>
        some (some
          { relative := entry.relative.display
            fullPath := root.join entry.relative
            isDir := entry.fileType = .dir
            size := if entry.fileType = .dir then 0 else metadata.len
            mode := some (metadata.mode &&& 0o777) })

/-- The native walk, of all that `WalkDir` meets. -/
def collectTree (root : Path) : List (Option WalkDirEntry) → Option (List WalkEntry)
  | [] => some []
  | none :: _ => none
  | some entry :: rest =>
      match walkedEntry root entry with
      | none => none
      | some found =>
          match collectTree root rest with
          | none => none
          | some entries => some (found.toList ++ entries)

end Serve

/-! ## A tree -/

inductive NodeKind where
  | dir
  | file
  | symlink
  deriving DecidableEq, Repr

namespace NodeKind

def fileType : NodeKind → FileType
  | dir => .dir
  | file => .file
  | symlink => .symlink

/-- `%y`. -/
def letter : NodeKind → Char
  | dir => 'd'
  | file => 'f'
  | symlink => 'l'

end NodeKind

/-- What is below a directory, with what `lstat` says of it. -/
structure DirTree where
  stat : Spot → Option (NodeKind × FileMeta)
  /-- Whatever is there is in a directory. -/
  grounded : ∀ q n, stat (q ++ [n]) ≠ none → q ≠ [] → ∃ m, stat q = some (.dir, m)
  /-- There is no NUL in a name. -/
  named : ∀ q, stat q ≠ none → ∀ n ∈ q, '\x00' ∉ n.1

namespace DirTree

/-- Every place below the root once, directories before what is in them. -/
structure Lists (t : DirTree) (walk : List Spot) : Prop where
  nodup : walk.Nodup
  mem : ∀ q, q ∈ walk ↔ q ≠ [] ∧ t.stat q ≠ none
  parentFirst : ∀ before q n after, walk = before ++ (q ++ [n]) :: after → q ≠ [] → q ∈ before

/-- How `WalkDir` shows an entry. -/
def shown (t : DirTree) (q : Spot) : Option WalkDirEntry :=
  match t.stat q with
  | some (kind, metadata) => some ⟨relPath q, kind.fileType, some metadata⟩
  | none => none

/-- What `find` prints for an entry. -/
def printed (t : DirTree) (q : Spot) : List UInt8 :=
  match t.stat q with
  | some (kind, metadata) =>
      Utf8.encode [kind.letter] ++ 0 :: (Utf8.encode (relPath q).display
        ++ 0 :: (Utf8.encode (Nat.toDigits 10 metadata.len.toNat)
          ++ 0 :: (Utf8.encode (Nat.toDigits 8 (metadata.mode &&& 0o7777).toNat) ++ [0])))
  | none => []

end DirTree

/-! ## The surroundings of a download -/

/-- A tree that can be read, and the frames that were written. A read fills the buffer at most. -/
structure ListingWorld where
  tree : DirTree
  rootMeta : FileMeta
  /-- The order of `WalkDir`, and that of `find`. -/
  walk : List Spot
  found : List Spot
  walks : tree.Lists walk
  finds : tree.Lists found
  contents : Path → List (List UInt8)
  bounded : ∀ p, ∀ chunk ∈ contents p, chunk.length ≤ maxChunkBytes
  sent : List TransferFrame

/-- The stream takes what it is given, so that a frame is written unless the codec refuses it. -/
def sendable (json : SerdeJson) (frame : TransferFrame) : Bool :=
  match (frame.write json).run [] with
  | .ok _ _ => true
  | .error _ _ => false

namespace ListingWorld

def answer (json : SerdeJson) (o : ServeOp) (w : ListingWorld) : o.Answer × ListingWorld :=
  match o with
  | .walkTree root =>
      (Serve.collectTree root
        (some ⟨⟨.plain, []⟩, .dir, some w.rootMeta⟩ :: w.walk.map w.tree.shown), w)
  | .find _ => (some (w.found.flatMap w.tree.printed, false), w)
  | .openSource p => (some ⟨w.contents p, false⟩, w)
  | .blob (.send frame) =>
      if sendable json frame then (true, { w with sent := w.sent ++ [frame] }) else (false, w)
  | o => (o.idle, w)

def run {α : Type} (json : SerdeJson) (p : ServeProg α) (w : ListingWorld) : α × ListingWorld :=
  p.eval (answer json) w

end ListingWorld

end Irosh
