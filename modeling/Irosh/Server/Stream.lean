import Irosh.Transfer.Serve

/-!
# One transfer stream

`handle_transfer_stream`: the first frame says what is asked for, and one handler
answers it. Of the handler's result only two things are used. An error is counted as a
failed transfer and reported to the peer, without looking whether the report could be
written; everything else is counted as a completed one. A handler that unwinds takes the
task of its stream with it, and is neither.

The handlers of the three control requests are here as well.
-/

namespace Irosh

open UnixPath Wire

namespace Serve

/-! ## Control requests -/

/-- `handle_exists_request`. -/
def handleExistsRequest (context : ShellContext) (request : ExistsRequest) :
    ServeProg (Except String Unit) :=
  match context.resolvePath request.path.toList with
  | .error e => pure (.error e.text)
  | .ok resolved => do
      let found : Except Unit Bool ← (ServeOp.pathExists resolved.display).perform
      match found with
      | .error _ => pure (.error "failed to probe remote path existence")
      | .ok found =>
          let directory : Except Unit Bool ← (ServeOp.isDir resolved.display).perform
          match directory with
          | .error _ => pure (.error "failed to probe remote path directory status")
          | .ok directory => send (.existsResponse ⟨found, directory⟩)

/-- `handle_cwd_request`. -/
def handleCwdRequest (context : ShellContext) : ServeProg (Except String Unit) :=
  match context.cwd with
  | .error e => pure (.error e.text)
  | .ok cwd => send (.cwdResponse ⟨String.ofList cwd.1.display⟩)

/-- `glob_escape`. -/
def globEscape (input : List Char) : List Char :=
  input.flatMap fun c =>
    if c = '*' ∨ c = '?' ∨ c = '[' ∨ c = ']' ∨ c = '\\' then ['[', c, ']'] else [c]

/-- `replace('\'', "'\\''")`. -/
def quoteEscape (input : List Char) : List Char :=
  input.flatMap fun c => if c = '\'' then ['\'', '\\', '\'', '\''] else [c]

/-- `parse_find_type_entries`, from the fields between NULs on. -/
def findTypeEntries : List (List UInt8) → List (List Char)
  | name :: kind :: rest =>
      if name = [] then findTypeEntries rest
      else (Utf8.decodeLossy name ++ if kind = [100] then ['/'] else []) :: findTypeEntries rest
  | _ => []

/-- `parse_find_type_entries`. -/
def parseFindTypeEntries (bytes : List UInt8) : List (List Char) :=
  findTypeEntries (bytes.splitOn 0)

/-- Where a completion searches, and what a match begins with. -/
def searchIn (path : List Char) (resolved : Path) : Path × List Char :=
  if path.getLast? = some '/' ∨ path = [] then (resolved, [])
  else (resolved.parent.getD resolved, (resolved.fileName.map (·.1)).getD [])

/-- The names that match. -/
def completionMatches (context : ShellContext) (dir : Path) (start : List Char) :
    ServeProg (List (List Char)) :=
  if context.isLive then do
    let found : Option (List UInt8) ←
      (ServeOp.findNames dir (quoteEscape (globEscape start))).perform
    -- a `find` that fails finds nothing
    pure ((found.map parseFindTypeEntries).getD [])
  else do
    let entries : List (List Char × Bool) ← (ServeOp.readDir dir).perform
    pure (entries.filterMap fun entry =>
      if start.isPrefixOf entry.1 then some (if entry.2 then entry.1 ++ ['/'] else entry.1) else none)

/-- `handle_completion_request`. -/
def handleCompletionRequest (context : ShellContext) (request : CompletionRequest) :
    ServeProg (Except String Unit) :=
  match context.resolvePath request.path.toList with
  | .error e => pure (.error e.text)
  | .ok resolved => do
      let found ← completionMatches context (searchIn request.path.toList resolved).1
        (searchIn request.path.toList resolved).2
      send (.completionResponse
        ⟨(found.map String.ofList).mergeSort fun a b => decide (a ≤ b)⟩)

/-! ## `handle_transfer_stream` -/

/-- `let _ = write_transfer_error(&mut stream, &extract_transfer_failure(&err))`. -/
def report (what : String) : ServeProg Unit := do
  let failure : TransferFailure ← (ServeOp.explain what).perform
  let _ : Bool ← (ServeOp.tell failure).perform
  pure ()

def record (counter : Counter) : ServeProg Unit := do
  let _ : Unit ← (ServeOp.record counter).perform
  pure ()

/-- A transfer counts as completed unless its handler fails. -/
def serveTransfer (handler : ServeProg (Except String Unit)) : ServeProg (Except String Unit) := do
  match ← handler with
  | .error what =>
      record .failed
      report what
      pure (.ok ())
  | .ok _ =>
      record .completed
      pure (.ok ())

/-- A control request counts only where it fails, as an error. -/
def serveControl (handler : ServeProg (Except String Unit)) : ServeProg (Except String Unit) := do
  match ← handler with
  | .error what =>
      record .errors
      report what
      pure (.ok ())
  | .ok _ => pure (.ok ())

variable (debug : TransferFrame → String) (parseHash : String → HashText)
  (toBlobs : Collection → List (List UInt8)) (hashText : Hash → String)

/-- A handler that has returned. -/
def returned (serve : ServeProg (Except String Unit)) : ServeProg (Option (Except String Unit)) := do
  let result ← serve
  pure (some result)

/-- What the first frame asks for. -/
def serveFirst (context : ShellContext) (frames : List TransferFrame) :
    Except TransferError TransferFrame → ServeProg (Option (Except String Unit))
  | .ok (.putRequest request) => returned (serveTransfer (handlePutRequest debug context request frames))
  | .ok (.blobPutRequest request) => do
      match ← BlobProg.lift (handleBlobPutRequest parseHash context request frames) with
      | some result => returned (serveTransfer (pure result))
      -- the task is gone: nothing is counted, and nobody is told
      | none => pure none
  | .ok (.blobGetRequest request) =>
      returned (serveTransfer (handleBlobGetRequest toBlobs hashText context request))
  | .ok (.getRequest request) => returned (serveTransfer (handleGetRequest context request))
  | .ok (.cwdRequest _) => returned (serveControl (handleCwdRequest context))
  | .ok (.existsRequest request) => returned (serveControl (handleExistsRequest context request))
  | .ok (.completionRequest request) =>
      returned (serveControl (handleCompletionRequest context request))
  | .ok other => do
      record .errors
      returned (refuse ⟨.unexpectedFrame, debug other⟩)
  -- nothing is written
  | .error _ => do
      record .errors
      pure (some (.ok ()))

/-- `handle_transfer_stream`, of what `read_next_frame` returns and the frames after it. There is no
result where it unwinds. -/
def handleTransferStream (context : ShellContext) (first : Except TransferError TransferFrame)
    (frames : List TransferFrame) : ServeProg (Option (Except String Unit)) := do
  record .initiated
  serveFirst debug parseHash toBlobs hashText context frames first

end Serve

end Irosh
