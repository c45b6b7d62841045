import Irosh.Lib.Utf8
import Irosh.Transfer.Blob

/-!
# The server's side of a transfer

The handlers of `put`, `get` and `blob get` requests, with every frame they write. How
a frame is written matters: an answer whose `?` passes a failure on is a `send`, and
one whose result is thrown away, `let _ = write_transfer_error(..)`, is a `tell`.

A handler ends with `Ok`, which says nothing about whether the transfer worked, or with
an error, which its caller reports. The text of such an error may repeat what a peer,
a helper or the system said; `explain` asks for it.

As before, a stream is the list of frames that can still be read. The source of a
download is opened once and then read to its end, so opening it answers with all its
reads will give.
-/

namespace Irosh

open UnixPath Wire

/-- What reading a file or the output of a process gives: bytes, read by read, and whether the last
read fails. -/
structure Source where
  reads : List (List UInt8)
  broken : Bool
  deriving DecidableEq, Repr

/-- `WalkEntry`. -/
structure WalkEntry where
  relative : List Char
  fullPath : Path
  isDir : Bool
  size : UInt64
  mode : Option UInt32

/-- The counters of `Metrics` that transfers use. -/
inductive Counter where
  | initiated
  | completed
  | failed
  | errors
  deriving DecidableEq, Repr

/-- What the transfer handlers ask of their surroundings. -/
inductive ServeOp where
  | blob (o : BlobOp)
  /-- `metrics.record_..()`. -/
  | record (counter : Counter)
  /-- What the data loop of an upload has read; `none` is a read that failed (ghost). -/
  | took (frame : Option TransferFrame)
  /-- `let _ = write_transfer_error(..)`. -/
  | tell (failure : TransferFailure)
  /-- `sink.stdin()`. -/
  | stdin
  /-- `let _ = stdin.flush()`. -/
  | flush (p : Path)
  /-- How an error is reported: its code and its text. -/
  | explain (what : String)
  /-- `probe_download_size`. -/
  | probeSize (p : Path)
  /-- `spawn_download_helper`. -/
  | openSource (p : Path)
  /-- `source.stdout()`. -/
  | stdout
  /-- `child.wait_with_output()`. -/
  | waitSource
  /-- The walk of a stateless recursive download. -/
  | walkTree (root : Path)
  /-- The output of the `find` of a live one, and whether reading it fails at the end. -/
  | find (root : Path)
  /-- `find`'s own exit, which nobody looks at. -/
  | reap
  /-- `ShellContext::path_exists`. -/
  | pathExists (p : List Char)
  /-- `ShellContext::is_dir`. -/
  | isDir (p : List Char)
  /-- `add_path_with_opts`. -/
  | addPath (p : Path)
  /-- The entries of a directory, and which of them are directories. -/
  | readDir (dir : Path)
  /-- The output of the `find` of a completion, for a pattern. -/
  | findNames (dir : Path) (pattern : List Char)

/-- The answers. -/
def ServeOp.Answer : ServeOp → Type
  | .blob o => o.Answer
  | .record _ => Unit
  | .took _ => Unit
  | .tell _ => Bool
  | .stdin => Bool
  | .flush _ => Bool
  | .explain _ => TransferFailure
  | .probeSize _ => Except Unit (Except TransferFailure UInt64)
  | .openSource _ => Option Source
  | .stdout => Bool
  | .waitSource => Except Unit Bool
  | .walkTree _ => Option (List WalkEntry)
  | .find _ => Option (List UInt8 × Bool)
  | .reap => Bool
  | .pathExists _ => Except Unit Bool
  | .isDir _ => Except Unit Bool
  | .addPath _ => Except Unit (Option Hash × Nat)
  | .readDir _ => List (List Char × Bool)
  | .findNames _ _ => Option (List UInt8)

/-- An answer to every operation, for surroundings that care for some of them only. -/
def ServeOp.idle : (o : ServeOp) → o.Answer
  | .blob (.fs .now) => ⟨['1'], slash_notMem_one⟩
  | .blob (.fs (.pathMissing _)) => .ok true
  | .blob (.fs (.createDirAll _)) => true
  | .blob (.fs (.createFile _)) => true
  | .blob (.fs (.writeAll _ _)) => true
  | .blob (.fs (.finish _)) => true
  | .blob (.fs (.rename _ _)) => true
  | .blob (.fs (.copy _ _)) => true
  | .blob (.fs (.removeFile _)) => true
  | .blob (.fs (.setMode _ _)) => true
  | .blob (.fs (.readBlob _)) => true
  | .blob (.fs (.loadCollection _)) => true
  | .blob (.fs (.exportBlob _ _)) => true
  | .blob (.fs .reply) => true
  | .blob (.send _) => true
  | .blob (.acquire _) => true
  | .blob .release => ()
  | .blob (.reserve _) => true
  | .blob (.accepted _) => ()
  | .blob .leave => ()
  | .blob (.addBytes _) => .ok none
  | .blob (.status _) => .ok true
  | .blob (.load _) => none
  | .blob (.walk _) => none
  | .blob (.metadata _) => none
  | .blob (.readFile _) => none
  | .record _ => ()
  | .took _ => ()
  | .tell _ => true
  | .stdin => true
  | .flush _ => true
  | .explain what => ⟨.internal, what⟩
  | .probeSize _ => .error ()
  | .openSource _ => none
  | .stdout => true
  | .waitSource => .ok true
  | .walkTree _ => none
  | .find _ => none
  | .reap => true
  | .pathExists _ => .ok true
  | .isDir _ => .ok false
  | .addPath _ => .error ()
  | .readDir _ => []
  | .findNames _ _ => none

abbrev ServeProg := Prog ServeOp ServeOp.Answer

abbrev ServeOp.perform (o : ServeOp) : ServeProg o.Answer := Prog.perform o

/-- A blob program among the handlers. -/
def BlobProg.lift {α : Type} (p : BlobProg α) : ServeProg α := Prog.lift ServeOp.blob (fun _ r => r) p

/-- A file system program among the handlers. -/
def FsProg.serve {α : Type} (p : FsProg α) : ServeProg α :=
  Prog.lift (fun o => ServeOp.blob (.fs o)) (fun _ r => r) p

namespace Serve

/-- A frame whose failure to be written is passed on. -/
def send (frame : TransferFrame) : ServeProg (Except String Unit) := do
  let sent : Bool ← (ServeOp.blob (.send frame)).perform
  pure (if sent then .ok () else .error "stream write failed")

/-- `write_transfer_error(..)?; return Ok(())`. -/
def refuse (failure : TransferFailure) : ServeProg (Except String Unit) := send (.error failure)

/-- `let _ = context.remove_file_if_present(..)`. -/
def discard (p : Path) : ServeProg Unit := do
  let _ : Bool ← (ServeOp.blob (.fs (.removeFile p))).perform
  pure ()

/-- `atomic_rename_failure`. -/
def atomicRenameFailure (p : Path) : TransferFailure :=
  ⟨.atomicRenameFailed, String.ofList p.display⟩

/-! ## `handle_put_request` -/

variable (debug : TransferFrame → String)

/-- The data loop of an upload. It ends with the bytes received, or with `none` where
`transfer_failed` is set; an error is a reply that could not be written. `debug` is `{other:?}`. -/
def uploadLoop (part : Path) (size received : Nat) :
    List TransferFrame → ServeProg (Except String (Option Nat))
  | [] => do
      let _ : Unit ← (ServeOp.took none).perform
      pure (.ok none)
  | .putChunk chunk :: rest => do
      let _ : Unit ← (ServeOp.took (some (.putChunk chunk))).perform
      if size < received + chunk.length then
        match ← refuse ⟨.sizeMismatch, "received " ++ toString (received + chunk.length)
            ++ " bytes, exceeding the declared size of " ++ toString size⟩ with
        | .error e => pure (.error e)
        | .ok _ => pure (.ok none)
      else
        let written : Bool ← (ServeOp.blob (.fs (.writeAll part chunk))).perform
        if written then uploadLoop part size (received + chunk.length) rest else pure (.ok none)
  | .putComplete complete :: _ => do
      let _ : Unit ← (ServeOp.took (some (.putComplete complete))).perform
      if complete.size.toNat ≠ received ∨ received ≠ size then
        match ← refuse ⟨.sizeMismatch, "received " ++ toString received ++ " bytes, declared "
            ++ toString size ++ ", client reported " ++ toString complete.size.toNat⟩ with
        | .error e => pure (.error e)
        | .ok _ => pure (.ok none)
      else pure (.ok (some received))
  | .error failure :: _ => do
      let _ : Unit ← (ServeOp.took (some (.error failure))).perform
      pure (.ok none)
  | .getChunk chunk :: _ => do
      let _ : Unit ← (ServeOp.took (some (.getChunk chunk))).perform
      let _ : Bool ←
        (ServeOp.tell ⟨.unexpectedFrame, "unexpected get chunk frame during upload"⟩).perform
      pure (.ok none)
  | other :: _ => do
      let _ : Unit ← (ServeOp.took (some other)).perform
      let _ : Bool ← (ServeOp.tell ⟨.unexpectedFrame, debug other⟩).perform
      pure (.ok none)

/-- What follows the data loop, the flush and the end of the helper. -/
def settleUpload (context : ShellContext) (request : PutRequest)
    (prepared : PreparedPutDestination) (finished : Bool) :
    Option Nat → ServeProg (Except String Unit)
  | none => do
      discard prepared.part
      pure (.ok ())
  | some received =>
      if finished then do
        match ← FsProg.serve (context.rename prepared.part prepared.final) with
        | .error e =>
            discard prepared.part
            pure (.error e)
        | .ok false =>
            discard prepared.part
            refuse (atomicRenameFailure prepared.final)
        | .ok true =>
            FsProg.serve (chmod prepared.final (request.mode.map UInt32.toNat))
            send (.putComplete ⟨UInt64.ofNat received⟩)
      else do
        discard prepared.part
        let failure : TransferFailure ← (ServeOp.explain "upload helper failed").perform
        refuse ⟨.helperFailed, failure.detail⟩

/-- The upload, once its part file is open. -/
def receiveUpload (context : ShellContext) (request : PutRequest)
    (prepared : PreparedPutDestination) (frames : List TransferFrame) :
    ServeProg (Except String Unit) := do
  let available : Bool ← ServeOp.stdin.perform
  if available then
    match ← send (.putReady ⟨request.size, request.mode⟩) with
    | .error e =>
        discard prepared.part
        pure (.error e)
    | .ok _ =>
        match ← uploadLoop debug prepared.part request.size.toNat 0 frames with
        -- the part file stays
        | .error e => pure (.error e)
        | .ok outcome =>
            let _ : Bool ← (ServeOp.flush prepared.part).perform
            let finished : Bool ← (ServeOp.blob (.fs (.finish prepared.part))).perform
            settleUpload context request prepared finished outcome
  else
    discard prepared.part
    pure (.error "upload helper sink unavailable")

/-- `handle_put_request` of a single file. -/
def handleSinglePut (context : ShellContext) (request : PutRequest)
    (frames : List TransferFrame) : ServeProg (Except String Unit) := do
  match ← FsProg.serve (preparePutDestination context request.path.toList) with
  | .error e => pure (.error e)
  | .ok none =>
      match context.resolvePath request.path.toList with
      | .error e => pure (.error e.text)
      | .ok dest => refuse (targetExistsFailure dest)
  | .ok (some prepared) =>
      let created : Bool ← (ServeOp.blob (.fs (.createFile prepared.part))).perform
      if created then receiveUpload debug context request prepared frames
      else pure (.error context.createFailure)

/-! ## `handle_recursive_put_request` -/

/-- An entry that did not go well. A size that does not match is answered, everything else is an
error. -/
def dropEntry (prepared : PreparedPutDestination) (mismatch : Option TransferFailure) :
    ServeProg (Except String Unit) := do
  let _ : Bool ← (ServeOp.flush prepared.part).perform
  let _ : Bool ← (ServeOp.blob (.fs (.finish prepared.part))).perform
  discard prepared.part
  match mismatch with
  | some failure => refuse failure
  | none => pure (.error "recursive entry upload failed")

/-- The answer to an entry whose size is not the declared one. -/
def entryMismatch (header : Wire.EntryHeader) (received : Nat) : TransferFailure :=
  ⟨.sizeMismatch, "entry '" ++ header.path ++ "' declared " ++ toString header.size.toNat
    ++ " bytes, received " ++ toString received⟩

mutual

/-- The loop over entries. -/
def putLoop (context : ShellContext) (root : Path) (total : Nat) :
    List TransferFrame → ServeProg (Except String Unit)
  | [] => pure (.error "stream read failed")
  | .newEntry header :: rest =>
      match sanitizeRelativePath header.path.toList with
      | .error reason => pure (.error ("unsafe entry path '" ++ header.path ++ "': " ++ reason))
      | .ok entryPath =>
          if header.isDir then do
            match ← FsProg.serve (context.createDirAll (root.join (parse entryPath))) with
            | .error e => pure (.error e)
            -- whether the helper succeeded is not looked at
            | .ok _ =>
                FsProg.serve (chmod (root.join (parse entryPath)) (header.mode.map UInt32.toNat))
                putLoop context root total rest
          else do
            match ← FsProg.serve
                (preparePutDestination context (root.join (parse entryPath)).display) with
            | .error e => pure (.error e)
            | .ok none => refuse (targetExistsFailure (root.join (parse entryPath)))
            | .ok (some prepared) =>
                let created : Bool ← (ServeOp.blob (.fs (.createFile prepared.part))).perform
                if created then
                  let available : Bool ← ServeOp.stdin.perform
                  if available then putEntry context root total header prepared 0 rest
                  else pure (.error "upload helper sink unavailable")
                else pure (.error context.createFailure)
  | .putComplete _ :: _ => send (.putComplete ⟨UInt64.ofNat total⟩)
  | .error failure :: _ => pure (.error failure.detail)
  | .putChunk _ :: _ => pure (.error "unexpected chunk frame at recursive upload top level")
  | .getChunk _ :: _ => pure (.error "unexpected chunk frame at recursive upload top level")
  | _ :: _ => pure (.error "unexpected frame during recursive upload")

/-- The loop over the chunks of one entry, and what follows it. -/
def putEntry (context : ShellContext) (root : Path) (total : Nat) (header : Wire.EntryHeader)
    (prepared : PreparedPutDestination) (received : Nat) :
    List TransferFrame → ServeProg (Except String Unit)
  | .putChunk chunk :: rest =>
      if header.size.toNat < received + chunk.length then
        dropEntry prepared (some (entryMismatch header (received + chunk.length)))
      else do
        let written : Bool ← (ServeOp.blob (.fs (.writeAll prepared.part chunk))).perform
        if written then
          putEntry context root total header prepared (received + chunk.length) rest
        else dropEntry prepared none
  | .entryComplete _ :: rest =>
      if received ≠ header.size.toNat then
        dropEntry prepared (some (entryMismatch header received))
      else do
        let _ : Bool ← (ServeOp.flush prepared.part).perform
        let finished : Bool ← (ServeOp.blob (.fs (.finish prepared.part))).perform
        if finished then
          match ← FsProg.serve (context.rename prepared.part prepared.final) with
          | .error e => pure (.error e)
          | .ok false => pure (.error "atomic rename failed")
          | .ok true =>
              FsProg.serve (chmod prepared.final (header.mode.map UInt32.toNat))
              putLoop context root (total + received) rest
        else
          discard prepared.part
          pure (.error "recursive entry upload failed")
  | _ => dropEntry prepared none

end

/-- `handle_recursive_put_request`. -/
def handleRecursivePut (context : ShellContext) (request : PutRequest)
    (frames : List TransferFrame) : ServeProg (Except String Unit) :=
  match context.resolvePath request.path.toList with
  | .error e => pure (.error e.text)
  | .ok root => do
      match ← FsProg.serve (context.createDirAll root) with
      | .error e => pure (.error e)
      | .ok _ =>
          match ← send (.putReady ⟨0, none⟩) with
          | .error e => pure (.error e)
          | .ok _ => putLoop context root 0 frames

/-- `handle_put_request`. -/
def handlePutRequest (context : ShellContext) (request : PutRequest)
    (frames : List TransferFrame) : ServeProg (Except String Unit) :=
  if request.recursive then handleRecursivePut context request frames
  else handleSinglePut debug context request frames

/-! ## `handle_get_request` -/

/-- The loop that reads a source and writes chunks. It returns the bytes sent so far. -/
def streamReads (broken : Bool) (totalSent : Nat) :
    List (List UInt8) → ServeProg (Except String Nat)
  | [] => pure (if broken then .error "reading download source failed" else .ok totalSent)
  | chunk :: rest =>
      if chunk.length = 0 then pure (.ok totalSent)
      else do
        match ← send (.getChunk chunk) with
        | .error e => pure (.error e)
        | .ok _ => streamReads broken (totalSent + chunk.length) rest

/-- The exit of the helper, where there is one, and the last frame. -/
def finishGet (context : ShellContext) (size : UInt64) : ServeProg (Except String Unit) :=
  if context.isLive then do
    let exited : Except Unit Bool ← ServeOp.waitSource.perform
    match exited with
    | .error _ => pure (.error "waiting for download helper failed")
    | .ok false =>
        let failure : TransferFailure ← (ServeOp.explain "download helper failed").perform
        refuse ⟨.helperFailed, failure.detail⟩
    | .ok true => send (.getComplete ⟨size⟩)
  else send (.getComplete ⟨size⟩)

/-- `handle_get_request` of a single file. -/
def handleSingleGet (context : ShellContext) (request : GetRequest) :
    ServeProg (Except String Unit) :=
  match context.resolvePath request.path.toList with
  | .error e => pure (.error e.text)
  | .ok path => do
      let probed : Except Unit (Except TransferFailure UInt64) ← (ServeOp.probeSize path).perform
      match probed with
      | .error _ => pure (.error "failed to probe download source size")
      | .ok (.error failure) => refuse failure
      | .ok (.ok size) =>
          let opened : Option Source ← (ServeOp.openSource path).perform
          match opened with
          | none => pure (.error "failed to spawn download helper")
          | some source =>
              let available : Bool ← ServeOp.stdout.perform
              if available then
                match ← send (.getReady ⟨size, none⟩) with
                | .error e => pure (.error e)
                | .ok _ =>
                    match ← streamReads source.broken 0 source.reads with
                    | .error e => pure (.error e)
                    | .ok _ => finishGet context size
              else pure (.error "download source pipe unavailable")

/-! ## `handle_recursive_get_request` -/

/-- `stream_file_content`. Nobody waits for the helper. -/
def streamFileContent (path : Path) (totalSent : Nat) : ServeProg (Except String Nat) := do
  let opened : Option Source ← (ServeOp.openSource path).perform
  match opened with
  | none => pure (.error "failed to spawn download helper")
  | some source =>
      let available : Bool ← ServeOp.stdout.perform
      if available then
        match ← streamReads source.broken totalSent source.reads with
        | .error e => pure (.error e)
        | .ok totalSent =>
            match ← send (.entryComplete ⟨⟩) with
            | .error e => pure (.error e)
            | .ok _ => pure (.ok totalSent)
      else pure (.error "download source pipe unavailable")

/-- The loop over entries, walked or listed. -/
def sendEntries (totalSent : Nat) : List WalkEntry → ServeProg (Except String Nat)
  | [] => pure (.ok totalSent)
  | entry :: rest => do
      match ← send (.newEntry ⟨String.ofList entry.relative, entry.size, entry.mode, entry.isDir⟩) with
      | .error e => pure (.error e)
      | .ok _ =>
          if entry.isDir then sendEntries totalSent rest
          else
            match ← streamFileContent entry.fullPath totalSent with
            | .error e => pure (.error e)
            | .ok totalSent => sendEntries totalSent rest

/-- `reader.read_until(0, ..)`: the bytes up to a NUL and with it, or those that are left. -/
def readUntil (broken : Bool) (bytes : List UInt8) : Option (List UInt8 × List UInt8) :=
  match bytes.dropWhile (· ≠ 0) with
  | _ :: rest => some (bytes.takeWhile (· ≠ 0) ++ [0], rest)
  | [] => if broken then none else some (bytes, [])

/-- A field without its last byte, which is taken to be the NUL. -/
def field (buf : List UInt8) : List Char := Utf8.decodeLossy (buf.take (buf.length - 1))

/-- `parse` and `from_str_radix` of an unsigned number below `bound`. -/
def parseUnsigned (radix bound : Nat) (s : List Char) : Option Nat :=
  let digits := match s with
    | '+' :: rest => rest
    | _ => s
  if digits = [] then none
  else
    match digits.mapM fun c => if c.isDigit ∧ c.toNat - 48 < radix then some (c.toNat - 48) else none with
    | none => none
    | some ds =>
        if ds.foldl (fun n d => n * radix + d) 0 < bound then
          some (ds.foldl (fun n d => n * radix + d) 0)
        else none

/-- One record of `find`: what it announces, or `none` where it is a symbolic link. -/
def findEntry (root : Path) (type path size mode : List UInt8) : Option WalkEntry :=
  if field type = ['l'] then none
  else
    some
      { relative := field path
        fullPath := root.join (parse (field path))
        isDir := field type = ['d']
        size := UInt64.ofNat ((parseUnsigned 10 (2 ^ 64) (field size)).getD 0)
        mode := (parseUnsigned 8 (2 ^ 32) (field mode)).map UInt32.ofNat }

/-- The records of `find`'s output, and whether a read failed. Each begins with at least one byte,
so there are no more of them than bytes. -/
def findEntries (root : Path) (broken : Bool) : Nat → List UInt8 → List WalkEntry × Bool
  | 0, _ => ([], false)
  | fuel + 1, bytes =>
      match readUntil broken bytes with
      | none => ([], true)
      | some ([], _) => ([], false)
      | some (type, bytes) =>
          match readUntil broken bytes with
          | none => ([], true)
          | some (path, bytes) =>
              match readUntil broken bytes with
              | none => ([], true)
              | some (size, bytes) =>
                  match readUntil broken bytes with
                  | none => ([], true)
                  | some (mode, bytes) =>
                      let (entries, failed) := findEntries root broken fuel bytes
                      ((findEntry root type path size mode).toList ++ entries, failed)

/-- The live walk: each record is announced as soon as it has been read. -/
def sendListed (root : Path) (bytes : List UInt8) (broken : Bool) :
    ServeProg (Except String Nat) := do
  match ← sendEntries 0 (findEntries root broken (bytes.length + 1) bytes).1 with
  | .error e => pure (.error e)
  | .ok totalSent =>
      if (findEntries root broken (bytes.length + 1) bytes).2 then pure (.error "read find output")
      else
        let _ : Bool ← ServeOp.reap.perform
        pure (.ok totalSent)

/-- The entries and their contents. -/
def sendTree (context : ShellContext) (root : Path) : ServeProg (Except String Nat) :=
  if context.isLive then do
    let listed : Option (List UInt8 × Bool) ← (ServeOp.find root).perform
    match listed with
    | none => pure (.error "failed to spawn find for recursive walk")
    | some (bytes, broken) => sendListed root bytes broken
  else do
    let walked : Option (List WalkEntry) ← (ServeOp.walkTree root).perform
    match walked with
    | none => pure (.error "failed to walk remote directory")
    | some entries => sendEntries 0 entries

/-- `handle_recursive_get_request`. -/
def handleRecursiveGet (context : ShellContext) (request : GetRequest) :
    ServeProg (Except String Unit) :=
  match context.resolvePath request.path.toList with
  | .error e => pure (.error e.text)
  | .ok root => do
      match ← send (.getReady ⟨0, none⟩) with
      | .error e => pure (.error e)
      | .ok _ =>
          match ← sendTree context root with
          | .error e => pure (.error e)
          | .ok totalSent => send (.getComplete ⟨UInt64.ofNat totalSent⟩)

/-- `handle_get_request`. -/
def handleGetRequest (context : ShellContext) (request : GetRequest) :
    ServeProg (Except String Unit) :=
  if request.recursive then handleRecursiveGet context request else handleSingleGet context request

/-! ## `handle_blob_get_request` -/

variable (toBlobs : Collection → List (List UInt8)) (hashText : Hash → String)

/-- A file is added to the store as it is. -/
def offerFile (target : Path) : ServeProg (Except String Unit) := do
  let added : Except Unit (Option Hash × Nat) ← (ServeOp.addPath target).perform
  match added with
  | .error _ => pure (.error "failed to add file to server blobs")
  | .ok (none, _) => pure (.error "add_path finished without hash")
  | .ok (some hash, size) => send (.blobGetReady ⟨hashText hash, "raw", UInt64.ofNat size⟩)

/-- A directory is added as a collection. -/
def offerDirectory (target : Path) : ServeProg (Except String Unit) := do
  match ← BlobProg.lift (addDirectoryToStore toBlobs target) with
  | .error e => pure (.error e)
  | .ok (hash, total) => send (.blobGetReady ⟨hashText hash, "hashseq", UInt64.ofNat total⟩)

/-- `handle_blob_get_request`. It is the path as it came that is looked up. -/
def handleBlobGetRequest (context : ShellContext) (request : BlobGetRequest) :
    ServeProg (Except String Unit) :=
  match context.resolvePath request.path.toList with
  | .error e => pure (.error e.text)
  | .ok target => do
      let found : Except Unit Bool ← (ServeOp.pathExists request.path.toList).perform
      match found with
      | .error _ => pure (.error "failed to probe remote path existence")
      | .ok false => pure (.error ("file not found: " ++ request.path))
      | .ok true =>
          let directory : Except Unit Bool ← (ServeOp.isDir request.path.toList).perform
          match directory with
          | .error _ => pure (.error "failed to probe remote path directory status")
          | .ok true => offerDirectory toBlobs hashText target
          | .ok false => offerFile hashText target

end Serve

end Irosh
