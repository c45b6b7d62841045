import Irosh.Lib.Prog
import Irosh.Transfer.Sanitize

/-!
# Receiving files

Four functions write files whose names a peer has chosen: the server's recursive
upload and its collection export, the client's recursive download and its blob
download. Each is a program over the file system: what it does next depends on
the frames it reads and on the answers it gets, and the answers may be anything.

A frame stream is the list of frames that can still be read; where it ends, the
next read fails. The loop over entries and the loop over the chunks of one entry
are two functions that call each other.
-/

namespace Irosh

open UnixPath

/-- The number that makes a temporary name unique, written out. -/
abbrev Stamp := { s : List Char // '/' ∉ s }

/-- The digest a blob is stored under. -/
abbrev Hash := List UInt8

/-- What the functions below ask of their surroundings. -/
inductive FsOp where
  | now
  | pathMissing (p : Path)
  | createDirAll (p : Path)
  | createFile (p : Path)
  | writeAll (p : Path) (chunk : List UInt8)
  /-- The last flush, and the end of the helper process if there is one. -/
  | finish (p : Path)
  | rename (src dst : Path)
  | copy (src dst : Path)
  | removeFile (p : Path)
  | setMode (p : Path) (mode : Nat)
  | readBlob (hash : Hash)
  | loadCollection (hash : Hash)
  | exportBlob (hash : Hash) (p : Path)
  /-- A frame sent back to the peer. -/
  | reply

/-- The answers. `pathMissing` may fail, `now` gives a number, and everything else succeeds or
does not. -/
def FsOp.Answer : FsOp → Type
  | .now => Stamp
  | .pathMissing _ => Except Unit Bool
  | _ => Bool

abbrev FsProg := Prog FsOp FsOp.Answer

abbrev FsOp.perform (o : FsOp) : FsProg o.Answer := Prog.perform o

/-- The last frame of a conversation. -/
def sendReply : FsProg (Except String Unit) := do
  let sent : Bool ← FsOp.reply.perform
  pure (if sent then .ok () else .error "stream write failed")

/-- `EntryHeader`. -/
structure EntryHeader where
  path : List Char
  isDir : Bool
  size : Nat
  mode : Option Nat
  deriving DecidableEq, Repr

/-- The frames of a recursive transfer. -/
inductive Frame where
  | getReady
  | newEntry (header : EntryHeader)
  | putChunk (chunk : List UInt8)
  | getChunk (chunk : List UInt8)
  | entryComplete
  | putComplete
  | getComplete
  | failure (message : String)
  | other
  deriving DecidableEq, Repr

/-- The entry names a peer sends in a stream. -/
def entryPaths (frames : List Frame) : List (List Char) :=
  frames.filterMap fun
    | .newEntry header => some header.path
    | _ => none

/-- The entries of a collection. -/
abbrev Collection := List (List Char × Hash)

/-! ## Temporary names -/

/-- `.{file_name}.{unique}.irosh_part`, with "transfer" where there is no file name. -/
def partChars (file : Option Name) (stamp : Stamp) : List Char :=
  '.' :: (file.elim ['t', 'r', 'a', 'n', 's', 'f', 'e', 'r'] (·.1)) ++ '.' :: stamp.1
    ++ ['.', 'i', 'r', 'o', 's', 'h', '_', 'p', 'a', 'r', 't']

theorem length_partChars (file : Option Name) (stamp : Stamp) :
    (file.elim ['t', 'r', 'a', 'n', 's', 'f', 'e', 'r'] (·.1)).length + 12
      ≤ (partChars file stamp).length := by
  simp only [partChars, List.length_cons, List.length_append, List.length_nil]
  omega

theorem partChars_valid (file : Option Name) (stamp : Stamp) : ValidName (partChars file stamp) := by
  have hfile : '/' ∉ file.elim ['t', 'r', 'a', 'n', 's', 'f', 'e', 'r'] (·.1) := by
    cases file with
    | none => decide
    | some n => exact n.2.2.2.2
  have hlen : ∀ l : List Char, l.length < 12 → partChars file stamp ≠ l := by
    intro l hl he
    have := length_partChars file stamp
    rw [he] at this
    omega
  refine ⟨hlen _ (by decide), hlen _ (by decide), hlen _ (by decide), ?_⟩
  simp only [partChars, List.mem_append, not_or]
  refine ⟨⟨?_, ?_⟩, by decide⟩
  · rw [List.mem_cons, not_or]
    exact ⟨by decide, hfile⟩
  · rw [List.mem_cons, not_or]
    exact ⟨by decide, stamp.2⟩

def partName (file : Option Name) (stamp : Stamp) : Name :=
  ⟨partChars file stamp, partChars_valid file stamp⟩

/-- A temporary name is longer than the name it stands for. -/
theorem partName_ne (n : Name) (stamp : Stamp) : partName (some n) stamp ≠ n := by
  intro h
  have hlen := length_partChars (some n) stamp
  have heq : partChars (some n) stamp = n.1 := congrArg Subtype.val h
  rw [heq] at hlen
  simp only [Option.elim_some] at hlen
  omega

/-- `temp_transfer_path`. -/
def tempTransferPath (dest : Path) (stamp : Stamp) : Path :=
  (dest.parent.getD .dot).join (.ofName (partName dest.fileName stamp))

/-! ## The server's file operations

A live context runs a helper and reports whether it succeeded; a stateless one calls
the file system and passes errors on. -/

def ShellContext.isLive : ShellContext → Bool
  | .live _ _ _ => true
  | .stateless _ => false

/-- `Ok(status.success())` or `..await?; Ok(true)`. -/
def ShellContext.report (context : ShellContext) (what : String) (ok : Bool) :
    Except String Bool :=
  if context.isLive then .ok ok else if ok then .ok true else .error what

/-- `ShellContext::create_dir_all`. -/
def ShellContext.createDirAll (context : ShellContext) (p : Path) :
    FsProg (Except String Bool) := do
  let ok : Bool ← (FsOp.createDirAll p).perform
  pure (context.report "create_dir_all" ok)

/-- `ShellContext::rename`. -/
def ShellContext.rename (context : ShellContext) (src dst : Path) :
    FsProg (Except String Bool) := do
  let ok : Bool ← (FsOp.rename src dst).perform
  pure (context.report "rename" ok)

/-- `chmod` and `set_permissions`, where a mode is given. A failure is logged and forgotten. -/
def chmod (p : Path) : Option Nat → FsProg Unit
  | none => pure ()
  | some mode => do
      let _ : Bool ← (FsOp.setMode p mode).perform
      pure ()

/-- `PreparedPutDestination`. -/
structure PreparedPutDestination where
  final : Path
  part : Path

/-- `prepare_put_destination`. The process and the time make the part's name unique. -/
def preparePutDestination (context : ShellContext) (rawPath : List Char) :
    FsProg (Except String (Option PreparedPutDestination)) :=
  match context.resolvePath rawPath with
  | .error e => pure (.error e.text)
  | .ok dest => do
      let missing : Except Unit Bool ← (FsOp.pathMissing dest).perform
      match missing with
      | .error _ => pure (.error "failed to probe remote path existence")
      | .ok false => pure (.ok none)
      | .ok true =>
          match ← context.createDirAll (dest.parent.getD .dot) with
          | .error e => pure (.error e)
          | .ok false => pure (.error "failed to create destination directory")
          | .ok true =>
              let stamp : Stamp ← FsOp.now.perform
              pure (.ok (some ⟨dest, dest.setFileName (partName dest.fileName stamp)⟩))

/-- The name the part file of a destination gets. -/
def partOf (dest : Path) (stamp : Stamp) : Path := dest.setFileName (partName dest.fileName stamp)

theorem partOf_ne (dest : Path) (stamp : Stamp) : partOf dest stamp ≠ dest := by
  intro h
  have hname : dest.fileName = some (partName dest.fileName stamp) := by
    conv_lhs => rw [← h, partOf, Path.setFileName]
    split_ifs <;> rw [Path.join_ofName, Path.fileName_child]
  cases hn : dest.fileName with
  | none =>
      rw [hn] at hname
      cases hname
  | some n =>
      rw [hn] at hname
      exact partName_ne n stamp (Option.some.inj hname).symm

/-! ## `handle_recursive_put_request` -/

/-- What `spawn_upload_helper` fails with: a live shell has a helper to be spawned, and without one the
file is created here. -/
def ShellContext.createFailure (context : ShellContext) : String :=
  if context.isLive then "failed to spawn upload helper" else "failed to create upload file"

/-- An entry that did not go well: the helper is waited for and the part file removed. A size that
does not match is answered, everything else is an error. -/
def dropEntry (prepared : PreparedPutDestination) (sizeMismatch : Bool) :
    FsProg (Except String Unit) := do
  let _ : Bool ← (FsOp.finish prepared.part).perform
  let _ : Bool ← (FsOp.removeFile prepared.part).perform
  if sizeMismatch then sendReply else pure (.error "recursive entry upload failed")

mutual

/-- The loop over entries. -/
def putLoop (context : ShellContext) (root : Path) :
    List Frame → FsProg (Except String Unit)
  | [] => pure (.error "stream read failed")
  | .newEntry header :: rest =>
      match sanitizeRelativePath header.path with
      | .error reason =>
          pure (.error ("unsafe entry path '" ++ String.ofList header.path ++ "': " ++ reason))
      | .ok entryPath =>
          if header.isDir then do
            match ← context.createDirAll (root.join (parse entryPath)) with
            | .error e => pure (.error e)
            -- whether the helper succeeded is not looked at
            | .ok _ =>
                chmod (root.join (parse entryPath)) header.mode
                putLoop context root rest
          else do
            match ← preparePutDestination context (root.join (parse entryPath)).display with
            | .error e => pure (.error e)
            -- the target exists: the peer is told, and the whole upload ends
            | .ok none => sendReply
            | .ok (some prepared) =>
                let created : Bool ← (FsOp.createFile prepared.part).perform
                if created then putEntry context root header prepared 0 rest
                else pure (.error context.createFailure)
  | .putComplete :: _ => sendReply
  | .failure message :: _ => pure (.error message)
  | .putChunk _ :: _ => pure (.error "unexpected chunk frame at recursive upload top level")
  | .getChunk _ :: _ => pure (.error "unexpected chunk frame at recursive upload top level")
  | .getReady :: _ => pure (.error "unexpected frame during recursive upload")
  | .entryComplete :: _ => pure (.error "unexpected frame during recursive upload")
  | .getComplete :: _ => pure (.error "unexpected frame during recursive upload")
  | .other :: _ => pure (.error "unexpected frame during recursive upload")

/-- The loop over the chunks of one entry, and what follows it. -/
def putEntry (context : ShellContext) (root : Path) (header : EntryHeader)
    (prepared : PreparedPutDestination) (received : Nat) :
    List Frame → FsProg (Except String Unit)
  | .putChunk chunk :: rest =>
      if header.size < received + chunk.length then dropEntry prepared true
      else do
        let written : Bool ← (FsOp.writeAll prepared.part chunk).perform
        if written then
          putEntry context root header prepared (received + chunk.length) rest
        else dropEntry prepared false
  | .entryComplete :: rest =>
      if received ≠ header.size then dropEntry prepared true
      else do
        let finished : Bool ← (FsOp.finish prepared.part).perform
        if finished then
          match ← context.rename prepared.part prepared.final with
          | .error e => pure (.error e)
          | .ok false => pure (.error "atomic rename failed")
          | .ok true =>
              chmod prepared.final header.mode
              putLoop context root rest
        else
          let _ : Bool ← (FsOp.removeFile prepared.part).perform
          pure (.error "recursive entry upload failed")
  | _ => dropEntry prepared false

end

/-- `handle_recursive_put_request`. -/
def handleRecursivePutRequest (context : ShellContext) (path : List Char) (frames : List Frame) :
    FsProg (Except String Unit) :=
  match context.resolvePath path with
  | .error e => pure (.error e.text)
  | .ok root => do
      match ← context.createDirAll root with
      | .error e => pure (.error e)
      | .ok _ =>
          let ready : Bool ← FsOp.reply.perform
          if ready then putLoop context root frames else pure (.error "stream write failed")

/-! ## `export_collection` -/

/-- `if let Some(parent) = path.parent() { create_dir_all(parent) }`. -/
def createParent (p : Path) : FsProg Bool :=
  match p.parent with
  | some parent => (FsOp.createDirAll parent).perform
  | none => pure true

def exportItems (target : Path) : Collection → FsProg (Except String Unit)
  | [] => pure (.ok ())
  | (name, hash) :: rest =>
      match sanitizeRelativePath name with
      | .error reason =>
          pure (.error ("unsafe collection entry '" ++ String.ofList name ++ "': " ++ reason))
      | .ok safeName => do
          let made ← createParent (target.join (parse safeName))
          if made then
            let exported : Bool ← (FsOp.exportBlob hash (target.join (parse safeName))).perform
            if exported then exportItems target rest
            else pure (.error ("failed to export collection item " ++ String.ofList name))
          else pure (.error "create_dir_all")

/-- `export_collection`. -/
def exportCollection (hash : Hash) (target : Path) (collection : Collection) :
    FsProg (Except String Unit) := do
  let made : Bool ← (FsOp.createDirAll target).perform
  if made then
    let read : Bool ← (FsOp.readBlob hash).perform
    if read then
      let loaded : Bool ← (FsOp.loadCollection hash).perform
      if loaded then exportItems target collection
      else pure (.error "failed to load collection")
    else pure (.error "failed to read collection blob")
  else pure (.error "create_dir_all")

/-! ## `download_dir_with_progress` -/

/-- `persist_temp_file`. -/
def persistTempFile (temp final : Path) : FsProg (Except String Unit) := do
  let made ← createParent final
  if made then
    let renamed : Bool ← (FsOp.rename temp final).perform
    if renamed then pure (.ok ())
    else
      -- another file system: copy instead
      let copied : Bool ← (FsOp.copy temp final).perform
      if copied then
        let _ : Bool ← (FsOp.removeFile temp).perform
        pure (.ok ())
      else pure (.error "persist temp file")
  else pure (.error "create destination directory")

/-- An entry that did not go well: the temporary file is removed. -/
def dropTemp (temp : Path) (message : String) : FsProg (Except String Unit) := do
  let _ : Bool ← (FsOp.removeFile temp).perform
  pure (.error message)

mutual

/-- The loop over entries. -/
def dirLoop (localRoot : Path) : List Frame → FsProg (Except String Unit)
  | [] => pure (.error "stream read failed")
  | .newEntry header :: rest =>
      match sanitizeRemotePath header.path with
      | .error e => pure (.error e.text)
      | .ok rel =>
          if header.isDir then do
            let made : Bool ← (FsOp.createDirAll (localRoot.join rel)).perform
            if made then dirLoop localRoot rest else pure (.error "create local directory")
          else do
            -- a failure shows when the file is created
            let _ ← createParent (localRoot.join rel)
            let stamp : Stamp ← FsOp.now.perform
            let created : Bool ←
              (FsOp.createFile (tempTransferPath (localRoot.join rel) stamp)).perform
            if created then
              dirEntry localRoot header (localRoot.join rel)
                (tempTransferPath (localRoot.join rel) stamp) rest
            else pure (.error "create temp download file")
  | .getComplete :: _ => pure (.ok ())
  | .failure message :: _ => pure (.error message)
  | .putChunk _ :: _ => pure (.error "unexpected upload chunk during recursive download")
  | .getChunk _ :: _ =>
      pure (.error "unexpected chunk outside entry stream during recursive download")
  | .getReady :: _ => pure (.error "unexpected frame during recursive download")
  | .entryComplete :: _ => pure (.error "unexpected frame during recursive download")
  | .putComplete :: _ => pure (.error "unexpected frame during recursive download")
  | .other :: _ => pure (.error "unexpected frame during recursive download")

/-- The loop over the chunks of one entry, and what follows it. -/
def dirEntry (localRoot : Path) (header : EntryHeader) (final temp : Path) :
    List Frame → FsProg (Except String Unit)
  | .getChunk chunk :: rest => do
      let written : Bool ← (FsOp.writeAll temp chunk).perform
      if written then dirEntry localRoot header final temp rest
      else dropTemp temp "write to temp download file"
  | .entryComplete :: rest => do
      let flushed : Bool ← (FsOp.finish temp).perform
      if flushed then
        match ← persistTempFile temp final with
        | .error e => pure (.error e)
        | .ok _ =>
            chmod final (header.mode.map (· &&& 0o777))
            dirLoop localRoot rest
      else dropTemp temp "flush temp download file"
  | .putChunk _ :: _ => dropTemp temp "unexpected upload chunk during recursive download"
  | [] => dropTemp temp "stream read failed"
  | _ :: _ => dropTemp temp "unexpected frame during recursive download stream"

end

/-- `download_dir_with_progress`, from the answer to its request on. -/
def downloadDirWithProgress (localRoot : Path) : List Frame → FsProg (Except String Unit)
  | .getReady :: rest => dirLoop localRoot rest
  | .failure message :: _ => pure (.error message)
  | _ => pure (.error "unexpected preflight frame")

/-! ## `download_blob` -/

def downloadItems (localRoot : Path) : Collection → FsProg (Except String Unit)
  | [] => pure (.ok ())
  | (name, hash) :: rest => do
      -- the name is joined as it comes
      let made ← createParent (localRoot.join (parse name))
      if made then
        let exported : Bool ← (FsOp.exportBlob hash (localRoot.join (parse name))).perform
        if exported then downloadItems localRoot rest
        else pure (.error "export collection item")
      else pure (.error "create_dir_all")

/-- `download_blob`, once the blobs have been fetched. -/
def downloadBlob (hash : Hash) (hashSeq : Bool) (localRoot : Path) (collection : Collection) :
    FsProg (Except String Unit) := do
  if hashSeq then
    let made : Bool ← (FsOp.createDirAll localRoot).perform
    if made then
      let loaded : Bool ← (FsOp.loadCollection hash).perform
      if loaded then downloadItems localRoot collection
      else pure (.error "failed to parse collection")
    else pure (.error "create_dir_all")
  else
    let exported : Bool ← (FsOp.exportBlob hash localRoot).perform
    if exported then pure (.ok ()) else pure (.error "export blob to local file")

end Irosh
