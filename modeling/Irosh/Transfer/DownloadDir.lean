import Irosh.Transfer.Listing

/-!
# Downloading a directory

The server answers the request with `GetReady`, goes through its tree, and sends a header
for every entry with the contents of a file behind it. What the client does with these
frames is `downloadDirWithProgress`. Its loops tell fewer kinds of frames apart than there
are on the wire, and of a header they use neither the size nor more than nine bits of the
mode.
-/

namespace Irosh

open UnixPath Wire FileTree

/-- A frame as the loops of `download_dir_with_progress` see it. -/
def Frame.ofWire : TransferFrame → Frame
  | .getReady _ => .getReady
  | .newEntry header =>
      .newEntry ⟨header.path.toList, header.isDir, header.size.toNat, header.mode.map UInt32.toNat⟩
  | .putChunk chunk => .putChunk chunk
  | .getChunk chunk => .getChunk chunk
  | .entryComplete _ => .entryComplete
  | .putComplete _ => .putComplete
  | .getComplete _ => .getComplete
  | .error e => .failure e.detail
  | _ => .other

namespace ListingWorld

/-- The bytes of a file below the directory that is listed. -/
def dataAt (w : ListingWorld) (remoteRoot : Path) (q : Spot) : List UInt8 :=
  (w.contents (remoteRoot.join (relPath q))).flatten

end ListingWorld

end Irosh
