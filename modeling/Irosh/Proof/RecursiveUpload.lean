import Irosh.Transfer.UploadDir

/-!
# A recursive upload reproduces the tree

What the client sends of a tree is a header for every entry of the walk, and behind the
header of a file its contents. The server meets a directory before what is in it, so
every entry finds its own directory there and its own place empty; what is there after
so many entries is what the client has walked so far.

The root of the upload may have `..` in it. Its directories are made as they are named,
and one that lies below the root would be there beside the tree.
-/

namespace Irosh

open UnixPath Wire FileTree

/-! ## What the client sends -/

theorem display_relPath_ne_nil {q : Spot} (hq : q ≠ []) : (relPath q).display ≠ [] := by
  intro hnil
  have hparse := parse_display_names hq
  have hempty : parse [] = ⟨.plain, []⟩ := by decide
  rw [← relPath, hnil, hempty] at hparse
  have hparts : [] = q.map Part.normal := congrArg Path.parts hparse
  exact hq (List.map_eq_nil_iff.mp hparts.symm)

section

variable (t : Tree) (reads : Spot → List (List UInt8))

/-- How the walk shows an entry. What a directory's length is does not matter. -/
def entryOf (dirLen : Spot → UInt64) (q : Spot) : Option WalkDirEntry :=
  match t.nodes q with
  | some (.dir mode) => some ⟨relPath q, .dir, some ⟨dirLen q, mode⟩⟩
  | some (.file mode data) => some ⟨relPath q, .file, some ⟨UInt64.ofNat data.length, mode⟩⟩
  | none => none

/-- The frames for an entry. -/
def entryFrames (q : Spot) : List TransferFrame :=
  match t.nodes q with
  | some (.dir mode) => [.newEntry ⟨String.ofList (relPath q).display, 0, some (mode &&& 0o777), true⟩]
  | some (.file mode data) =>
      .newEntry ⟨String.ofList (relPath q).display, UInt64.ofNat data.length, some (mode &&& 0o777), false⟩
        :: ((reads q).map .putChunk ++ [.entryComplete ⟨⟩])
  | none => []

def entrySize (q : Spot) : Nat :=
  match t.nodes q with
  | some (.file _ data) => data.length
  | _ => 0

/-- Everything between the request and the completion. -/
def treeFrames (walk : List Spot) : List TransferFrame := walk.flatMap (entryFrames t reads)

def treeSize (walk : List Spot) : Nat := (walk.map (entrySize t)).sum

end

/-- The local file system holds the tree: this is how `WalkDir` goes through it, and this is how the
files are read. -/
structure LocalWorld.Holds (w : LocalWorld) (root : Path) (t : Tree) (walk : List Spot)
    (reads : Spot → List (List UInt8)) : Prop where
  walks : Walks t walk
  walked : ∃ rootMeta dirLen,
    w.walked = some ⟨⟨.plain, []⟩, .dir, rootMeta⟩ :: walk.map (entryOf t dirLen)
  files : ∀ q mode data, t.nodes q = some (.file mode data) →
    data.length < 2 ^ 64 ∧ w.files (root.join (relPath q)) = some ⟨reads q, false⟩
      ∧ (reads q).flatten = data ∧ ∀ chunk ∈ reads q, chunk ≠ []

namespace LocalWorld

variable {α β : Type} {w : LocalWorld} {t : Tree} {reads : Spot → List (List UInt8)} {root : Path}
  {walk : List Spot}

@[simp] theorem run_pure (a : α) : run (pure a) w = (a, w) := rfl

theorem run_bind (p : ClientProg α) (k : α → ClientProg β) :
    run (p >>= k) w = run (k (run p w).1) (run p w).2 := Prog.eval_bind p k w

/-- Frames that have been written. -/
def wrote (w : LocalWorld) (frames : List TransferFrame) : LocalWorld :=
  { w with sent := w.sent ++ frames }

@[simp] theorem wrote_wrote (w : LocalWorld) (a b : List TransferFrame) :
    (w.wrote a).wrote b = w.wrote (a ++ b) := by
  simp only [wrote, List.append_assoc]

@[simp] theorem wrote_nil (w : LocalWorld) : w.wrote [] = w := by
  simp only [wrote, List.append_nil]

theorem run_send {frame : TransferFrame} (h : w.writes frame = true) :
    run (Client.send frame) w = (.ok (), w.wrote [frame]) := by
  show ((if w.writes frame then Except.ok () else .error "stream write failed"),
    if w.writes frame then w.wrote [frame] else w) = _
  rw [h]
  rfl

/-- The contents of a file, however it is read. -/
theorem run_sendReads {chunks : List (List UInt8)} (hne : ∀ chunk ∈ chunks, chunk ≠ [])
    (hw : ∀ chunk ∈ chunks, w.writes (.putChunk chunk) = true) (total : Nat) :
    run (Client.sendReads false total chunks) w
      = (.ok (total + chunks.flatten.length), w.wrote (chunks.map .putChunk)) := by
  induction chunks generalizing w total with
  | nil => simp [Client.sendReads]
  | cons chunk rest ih =>
      have hlen : chunk.length ≠ 0 := by
        have := hne chunk List.mem_cons_self
        rwa [Ne, List.length_eq_zero_iff]
      rw [Client.sendReads, if_neg hlen, run_bind, run_send (hw chunk List.mem_cons_self)]
      dsimp only
      rw [@ih (w.wrote [.putChunk chunk]) (fun c hc => hne c (List.mem_cons_of_mem _ hc))
        (fun c hc => hw c (List.mem_cons_of_mem _ hc)), wrote_wrote]
      simp only [List.flatten_cons, List.length_append, List.map_cons, List.singleton_append, Prod.mk.injEq,
        Except.ok.injEq, and_true]
      omega

theorem run_openFile (p : Path) (k : Option Source → ClientProg α) :
    run (do let opened : Option Source ← (ClientOp.openFile p).perform; k opened) w
      = run (k (w.files p)) w := rfl

theorem run_sendFile {p : Path} {chunks : List (List UInt8)} (hp : w.files p = some ⟨chunks, false⟩)
    (hne : ∀ chunk ∈ chunks, chunk ≠ []) (hw : ∀ chunk ∈ chunks, w.writes (.putChunk chunk) = true)
    (hend : w.writes (.entryComplete ⟨⟩) = true) (total : Nat) :
    run (Client.sendFile p total) w
      = (.ok (total + chunks.flatten.length), w.wrote (chunks.map .putChunk ++ [.entryComplete ⟨⟩])) := by
  have hend' : (w.wrote (chunks.map .putChunk)).writes (.entryComplete ⟨⟩) = true := hend
  rw [Client.sendFile, run_openFile, hp]
  dsimp only
  rw [run_bind, run_sendReads hne hw]
  dsimp only
  rw [run_bind, run_send hend']
  dsimp only
  rw [run_pure, wrote_wrote]

/-- What is collected of an entry. -/
def walkEntryOf (root : Path) (t : Tree) (q : Spot) : WalkEntry where
  relative := (relPath q).display
  fullPath := root.join (relPath q)
  isDir := match t.nodes q with
    | some (.dir _) => true
    | _ => false
  size := UInt64.ofNat (entrySize t q)
  mode := match t.nodes q with
    | some (.dir mode) => some (mode &&& 0o777)
    | some (.file mode _) => some (mode &&& 0o777)
    | none => none

theorem collectWalk_eq (dirLen : Spot → UInt64) (h : ∀ q ∈ walk, q ≠ [] ∧ t.nodes q ≠ none) :
    Client.collectWalk root (walk.map (entryOf t dirLen)) = .ok (walk.map (walkEntryOf root t)) := by
  induction walk with
  | nil => rfl
  | cons q walk ih =>
      obtain ⟨hne, hsome⟩ := h q List.mem_cons_self
      have hrest := ih fun r hr => h r (List.mem_cons_of_mem _ hr)
      have hdisplay := display_relPath_ne_nil hne
      rw [List.map_cons, List.map_cons]
      cases hn : t.nodes q with
      | none => exact absurd hn hsome
      | some node =>
          cases node with
          | dir mode =>
              simp only [entryOf, hn, Client.collectWalk, Client.walkEntry, hdisplay, hrest, walkEntryOf,
                entrySize]
              rfl
          | file mode data =>
              simp only [entryOf, hn, Client.collectWalk, Client.walkEntry, hdisplay, hrest, walkEntryOf,
                entrySize]
              rfl

/-- **What is sent of a walk.** -/
theorem run_sendWalked (h : ∀ q ∈ walk, t.nodes q ≠ none)
    (hfiles : ∀ q mode data, t.nodes q = some (.file mode data) →
      w.files (root.join (relPath q)) = some ⟨reads q, false⟩ ∧ (reads q).flatten = data
        ∧ ∀ chunk ∈ reads q, chunk ≠ [])
    (hw : ∀ frame ∈ treeFrames t reads walk, w.writes frame = true) (total : Nat) :
    run (Client.sendWalked total (walk.map (walkEntryOf root t))) w
      = (.ok (total + treeSize t walk), w.wrote (treeFrames t reads walk)) := by
  induction walk generalizing w total with
  | nil => simp [Client.sendWalked, treeSize, treeFrames]
  | cons q walk ih =>
      have hframes : treeFrames t reads (q :: walk)
          = entryFrames t reads q ++ treeFrames t reads walk := List.flatMap_cons
      have hsize : treeSize t (q :: walk) = entrySize t q + treeSize t walk := by
        rw [treeSize, List.map_cons, List.sum_cons]
        rfl
      rw [hframes] at hw ⊢
      have hfirst : ∀ frame ∈ entryFrames t reads q, w.writes frame = true :=
        fun frame hf => hw frame (List.mem_append_left _ hf)
      have hlast : ∀ frame ∈ treeFrames t reads walk, w.writes frame = true :=
        fun frame hf => hw frame (List.mem_append_right _ hf)
      have hrest := fun w' (hw' : w'.writes = w.writes) (hf' : w'.files = w.files) total =>
        @ih w' (fun r hr => h r (List.mem_cons_of_mem _ hr)) (by rw [hf']; exact hfiles)
          (by rw [hw']; exact hlast) total
      rw [List.map_cons, Client.sendWalked, hsize]
      cases hn : t.nodes q with
      | none => exact absurd hn (h q List.mem_cons_self)
      | some node =>
          cases node with
          | dir mode =>
              have hentry : Client.entryHeader (walkEntryOf root t q)
                  = ⟨String.ofList (relPath q).display, 0, some (mode &&& 0o777), true⟩ := by
                simp only [Client.entryHeader, walkEntryOf, hn, entrySize]
                rfl
              have hdir : (walkEntryOf root t q).isDir = true := by simp only [walkEntryOf, hn]
              rw [hentry]
              simp only [entryFrames, hn] at hfirst ⊢
              rw [run_bind, run_send (hfirst _ List.mem_cons_self)]
              dsimp only
              rw [hdir, if_pos rfl, hrest _ (by rfl) (by rfl), wrote_wrote]
              simp only [entrySize, hn, Nat.zero_add]
          | file mode data =>
              have hentry : Client.entryHeader (walkEntryOf root t q)
                  = ⟨String.ofList (relPath q).display, UInt64.ofNat data.length, some (mode &&& 0o777),
                    false⟩ := by
                simp only [Client.entryHeader, walkEntryOf, hn, entrySize]
              have hdir : (walkEntryOf root t q).isDir = false := by simp only [walkEntryOf, hn]
              obtain ⟨hopen, hdata, hne⟩ := hfiles q mode data hn
              rw [hentry]
              simp only [entryFrames, hn] at hfirst ⊢
              rw [run_bind, run_send (hfirst _ List.mem_cons_self)]
              dsimp only
              rw [hdir, if_neg Bool.false_ne_true, run_bind]
              have hsend := @run_sendFile (w.wrote [.newEntry ⟨String.ofList (relPath q).display,
                UInt64.ofNat data.length, some (mode &&& 0o777), false⟩]) (root.join (relPath q)) (reads q)
                hopen hne (fun c hc => hfirst _ (by simp [hc])) (hfirst _ (by simp)) total
              have hpath : (walkEntryOf root t q).fullPath = root.join (relPath q) := rfl
              rw [hpath, hsend]
              dsimp only
              rw [hrest _ (by rfl) (by rfl), wrote_wrote, wrote_wrote, hdata]
              simp only [entrySize, hn, Nat.add_assoc, List.append_assoc, List.cons_append, List.nil_append]

/-- **The client's side.** If the server answers with `PutReady` and then with the number of bytes that
was sent, the upload succeeds. -/
theorem run_uploadDir {remote : Path} {ready : TransferReady} (hw : w.Holds root t walk reads)
    (hwrites : ∀ frame ∈ TransferFrame.putRequest (Client.uploadDirRequest remote)
      :: (treeFrames t reads walk ++ [.putComplete ⟨UInt64.ofNat (treeSize t walk)⟩]),
      w.writes frame = true) :
    run (Client.uploadDirWithProgress root remote true
        [.putReady ready, .putComplete ⟨UInt64.ofNat (treeSize t walk)⟩]) w
      = (.ok (), w.wrote (.putRequest (Client.uploadDirRequest remote)
        :: (treeFrames t reads walk ++ [.putComplete ⟨UInt64.ofNat (treeSize t walk)⟩]))) := by
  obtain ⟨rootMeta, dirLen, hwalked⟩ := hw.walked
  have hmem : ∀ q ∈ walk, q ≠ [] ∧ t.nodes q ≠ none := fun q hq => (hw.walks.mem q).mp hq
  have hcollect : Client.collectWalk root w.walked = .ok (walk.map (walkEntryOf root t)) := by
    rw [hwalked, Client.collectWalk, collectWalk_eq dirLen hmem]
    rfl
  have hwalkDir : ∀ (w' : LocalWorld) (k : List (Option WalkDirEntry) → ClientProg (Except String Unit)),
      run (do let walked : List (Option WalkDirEntry) ← (ClientOp.walkDir root).perform; k walked) w'
        = run (k w'.walked) w' := fun _ _ => rfl
  have hsend := @run_sendWalked (w.wrote [.putRequest (Client.uploadDirRequest remote)]) t reads root walk
    (fun q hq => (hmem q hq).2) (fun q mode data hq => (hw.files q mode data hq).2)
    (fun f hf => hwrites f (by simp [hf])) 0
  have hlast : (((w.wrote [.putRequest (Client.uploadDirRequest remote)]).wrote
      (treeFrames t reads walk)).writes (.putComplete ⟨UInt64.ofNat (treeSize t walk)⟩)) = true :=
    hwrites _ (by simp)
  rw [Client.uploadDirWithProgress, if_pos rfl, run_bind, run_send (hwrites _ List.mem_cons_self)]
  dsimp only
  rw [Client.uploadTree, hwalkDir]
  have hcollect' : Client.collectWalk root (w.wrote [.putRequest (Client.uploadDirRequest remote)]).walked
      = .ok (walk.map (walkEntryOf root t)) := hcollect
  rw [hcollect']
  dsimp only
  rw [run_bind, hsend, Nat.zero_add]
  dsimp only
  rw [run_bind, run_send hlast]
  dsimp only
  rw [run_pure, wrote_wrote, wrote_wrote, Client.confirm, if_pos rfl]
  rfl

end LocalWorld

/-! ## What the server makes of it -/

namespace TreeWorld

variable {α β : Type} {w : TreeWorld} {dir : Path} {n m : Name} {context : ShellContext} {root : Path}

@[simp] theorem run_pure (a : α) : run (pure a) w = (a, w) := rfl

theorem run_bind (p : ServeProg α) (k : α → ServeProg β) :
    run (p >>= k) w = run (k (run p w).1) (run p w).2 := Prog.eval_bind p k w

theorem run_serve (p : FsProg α) : run (FsProg.serve p) w = p.eval fsAnswer w :=
  Prog.eval_lift _ _ p w

theorem run_send {frame : TransferFrame} (h : w.writes frame = true) :
    run (Serve.send frame) w = (.ok (), { w with sent := w.sent ++ [frame] }) := by
  show ((if w.writes frame then Except.ok () else .error "stream write failed"),
    if w.writes frame then { w with sent := w.sent ++ [frame] } else w) = _
  rw [h]
  rfl

/-- The directory a path names is there. -/
def Open (w : TreeWorld) (dir : Path) : Prop := Opens w.nodes [] dir.parts

theorem find_child (h : w.Open dir) (n : Name) :
    w.find (dir.child n) = some (spot dir.parts ++ [n], w.nodes (spot dir.parts ++ [n])) := by
  have hlook : w.look (dir.child n) = .at (spot dir.parts ++ [n]) := lead_snoc h (.normal n)
  rw [find, hlook]

/-- A file may be put into a directory, or taken out of it. -/
theorem Open.set (h : w.Open dir) {s : Spot} (hs : ¬ IsDir w.nodes s) (node : Option FileNode) :
    (w.set s node).Open dir := by
  refine Opens.congr h fun u _ hu => ?_
  obtain ⟨mode, hdir⟩ := hu
  have hne : u ≠ s := by
    intro he
    exact hs ⟨mode, by rw [← he, hdir]⟩
  refine ⟨mode, ?_⟩
  show Function.update w.nodes s node u = _
  rw [Function.update_of_ne hne, hdir]

theorem set_nodes_self (s : Spot) (node : Option FileNode) : (w.set s node).nodes s = node :=
  Function.update_self _ _ _

theorem set_nodes_ne {s u : Spot} (h : u ≠ s) (node : Option FileNode) :
    (w.set s node).nodes u = w.nodes u := Function.update_of_ne h _ _

@[simp] theorem set_set (s : Spot) (a b : Option FileNode) : (w.set s a).set s b = w.set s b := by
  simp only [set, Function.update_idem]

theorem set_same {s : Spot} {node : Option FileNode} (h : w.nodes s = node) : w.set s node = w := by
  simp only [set, ← h, Function.update_eq_self]

/-! ### One operation on something in an open directory -/

theorem fsAnswer_createFile (h : w.Open dir) (hn : w.nodes (spot dir.parts ++ [n]) = none) :
    fsAnswer (.createFile (dir.child n)) w
      = (true, w.set (spot dir.parts ++ [n]) (some (.file w.fileMode []))) := by
  simp only [fsAnswer, find_child h, hn]
  rfl

theorem fsAnswer_writeAll {mode : UInt32} {data : List UInt8} (h : w.Open dir)
    (hn : w.nodes (spot dir.parts ++ [n]) = some (.file mode data)) (chunk : List UInt8) :
    fsAnswer (.writeAll (dir.child n) chunk) w
      = (true, w.set (spot dir.parts ++ [n]) (some (.file mode (data ++ chunk)))) := by
  simp only [fsAnswer, find_child h, hn]
  rfl

theorem fsAnswer_rename {mode : UInt32} {data : List UInt8} (h : w.Open dir)
    (hm : w.nodes (spot dir.parts ++ [m]) = some (.file mode data))
    (hn : w.nodes (spot dir.parts ++ [n]) = none) :
    fsAnswer (.rename (dir.child m) (dir.child n)) w
      = (true, (w.set (spot dir.parts ++ [m]) none).set (spot dir.parts ++ [n])
        (some (.file mode data))) := by
  simp only [fsAnswer, find_child h, hm, hn]
  rfl

theorem fsAnswer_setMode {node : FileNode} (h : w.Open dir)
    (hn : w.nodes (spot dir.parts ++ [n]) = some node) (mode : Nat) :
    fsAnswer (.setMode (dir.child n) mode) w
      = (true, w.set (spot dir.parts ++ [n]) (some (node.withMode (UInt32.ofNat mode)))) := by
  simp only [fsAnswer, find_child h, hn]
  rfl

/-! ### A directory -/

theorem report_stateless (hc : context.isLive = false) (what : String) :
    context.report what true = .ok true := by
  rw [ShellContext.report, hc]
  rfl

theorem eval_createDirAll (p : Path) :
    (context.createDirAll p).eval fsAnswer w
      = (context.report "create_dir_all" (makeDirs w.dirMode w.nodes [] p.parts).1,
        { w with nodes := (makeDirs w.dirMode w.nodes [] p.parts).2 }) := rfl

theorem eval_chmod {node : FileNode} (h : w.Open dir)
    (hn : w.nodes (spot dir.parts ++ [n]) = some node) (mode : UInt32) :
    (chmod (dir.child n) (some mode.toNat)).eval fsAnswer w
      = ((), w.set (spot dir.parts ++ [n]) (some (node.withMode mode))) := by
  have hanswer := fsAnswer_setMode h hn mode.toNat
  rw [UInt32.ofNat_toNat] at hanswer
  show ((), (fsAnswer (.setMode (dir.child n) mode.toNat) w).2) = _
  rw [hanswer]

/-- Making a directory in one that is there, and its mode. -/
theorem eval_newDir (hc : context.isLive = false) (h : w.Open dir)
    (hn : w.nodes (spot dir.parts ++ [n]) = none) :
    (context.createDirAll (dir.child n)).eval fsAnswer w
      = (.ok true, w.set (spot dir.parts ++ [n]) (some (.dir w.dirMode))) := by
  have hmake := @makeDirs_snoc w.nodes [] dir.parts (.normal n) w.dirMode h hn
  have hparts : (dir.child n).parts = dir.parts ++ [.normal n] := rfl
  rw [eval_createDirAll, hparts, hmake, report_stateless hc]
  rfl

theorem run_newDir {rel : List Char} {header : Wire.EntryHeader} {mode : UInt32} {total : Nat}
    {rest : List TransferFrame} (hc : context.isLive = false)
    (hrel : sanitizeRelativePath header.path.toList = .ok rel) (hjoin : root.join (parse rel) = dir.child n)
    (hdir : header.isDir = true) (hmode : header.mode = some mode) (h : w.Open dir)
    (hn : w.nodes (spot dir.parts ++ [n]) = none) :
    run (Serve.putLoop context root total (.newEntry header :: rest)) w
      = run (Serve.putLoop context root total rest)
        (w.set (spot dir.parts ++ [n]) (some (.dir mode))) := by
  have hnotDir : ¬ IsDir w.nodes (spot dir.parts ++ [n]) := by
    rintro ⟨_, hsome⟩
    rw [hn] at hsome
    cases hsome
  have hchmod := eval_chmod (h.set hnotDir (some (.dir w.dirMode))) (set_nodes_self _ _) mode
  rw [Serve.putLoop, hrel]
  dsimp only
  rw [hdir, if_pos rfl, hjoin, run_bind, run_serve, eval_newDir hc h hn]
  dsimp only
  rw [run_bind, run_serve, hmode, Option.map_some, hchmod, set_set]
  rfl

/-! ### A file -/

theorem fsAnswer_pathMissing (h : w.Open dir) (hn : w.nodes (spot dir.parts ++ [n]) = none) :
    fsAnswer (.pathMissing (dir.child n)) w = (.ok true, w) := by
  have hlook : w.look (dir.child n) = .at (spot dir.parts ++ [n]) := lead_snoc h (.normal n)
  simp only [fsAnswer, hlook, hn]
  rfl

theorem eval_pathMissing (p : Path) (k : Except Unit Bool → FsProg α) :
    (do let missing : Except Unit Bool ← (FsOp.pathMissing p).perform; k missing).eval fsAnswer w
      = (k (fsAnswer (.pathMissing p) w).1).eval fsAnswer (fsAnswer (.pathMissing p) w).2 := rfl

theorem eval_now (k : Stamp → FsProg α) :
    (do let stamp : Stamp ← FsOp.now.perform; k stamp).eval fsAnswer w
      = (k (w.stamps w.ticks)).eval fsAnswer { w with ticks := w.ticks + 1 } := rfl

/-- The destination is missing and its directory is there. -/
theorem eval_prepare (hc : context.isLive = false) (habs : dir.head = .rootDir) (h : w.Open dir)
    (hn : w.nodes (spot dir.parts ++ [n]) = none) :
    (preparePutDestination context (dir.child n).display).eval fsAnswer w
      = (.ok (some ⟨dir.child n, dir.child (partName (some n) (w.stamps w.ticks))⟩),
        { w with ticks := w.ticks + 1 }) := by
  have hresolve := @resolvePath_display context (dir.child n) habs
  have hmake := @makeDirs_of_opens w.nodes [] dir.parts w.dirMode h
  rw [preparePutDestination, hresolve]
  dsimp only
  rw [eval_pathMissing, fsAnswer_pathMissing h hn]
  dsimp only
  rw [Path.parent_child, Option.getD_some, Prog.eval_bind, eval_createDirAll, hmake, report_stateless hc]
  dsimp only
  rw [eval_now, Path.setFileName_child, Path.fileName_child]
  rfl

section

variable {header : Wire.EntryHeader} {prepared : PreparedPutDestination} {total received : Nat}
  {fileMode mode : UInt32} {data : List UInt8} {rest : List TransferFrame}

theorem run_writeAll (p : Path) (chunk : List UInt8) (k : Bool → ServeProg α) :
    run (do let written : Bool ← (ServeOp.blob (.fs (.writeAll p chunk))).perform; k written) w
      = run (k (fsAnswer (.writeAll p chunk) w).1) (fsAnswer (.writeAll p chunk) w).2 := rfl

theorem run_createFile (p : Path) (k : Bool → ServeProg α) :
    run (do let created : Bool ← (ServeOp.blob (.fs (.createFile p))).perform; k created) w
      = run (k (fsAnswer (.createFile p) w).1) (fsAnswer (.createFile p) w).2 := rfl

theorem run_stdin (k : Bool → ServeProg α) :
    run (do let available : Bool ← ServeOp.stdin.perform; k available) w = run (k true) w := rfl

theorem run_flush (p : Path) (k : Bool → ServeProg α) :
    run (do let flushed : Bool ← (ServeOp.flush p).perform; k flushed) w = run (k true) w := rfl

theorem run_finish (p : Path) (k : Bool → ServeProg α) :
    run (do let finished : Bool ← (ServeOp.blob (.fs (.finish p))).perform; k finished) w
      = run (k true) w := rfl

/-- The chunks of a file, into its part file. -/
theorem run_putEntry_chunks {chunks : List (List UInt8)} (h : w.Open dir)
    (hpart : prepared.part = dir.child m)
    (hm : w.nodes (spot dir.parts ++ [m]) = some (.file fileMode data))
    (hsize : received + chunks.flatten.length ≤ header.size.toNat) :
    run (Serve.putEntry context root total header prepared received
        (chunks.map .putChunk ++ rest)) w
      = run (Serve.putEntry context root total header prepared (received + chunks.flatten.length) rest)
        (w.set (spot dir.parts ++ [m]) (some (.file fileMode (data ++ chunks.flatten)))) := by
  induction chunks generalizing w data received with
  | nil => simp [set_same hm]
  | cons chunk chunks ih =>
      rw [List.flatten_cons, List.length_append] at hsize
      have hfits : ¬ header.size.toNat < received + chunk.length := by omega
      have hnotDir : ¬ IsDir w.nodes (spot dir.parts ++ [m]) := by
        rintro ⟨_, hsome⟩
        rw [hm] at hsome
        cases hsome
      rw [List.map_cons, List.cons_append, Serve.putEntry, if_neg hfits, hpart, run_writeAll,
        fsAnswer_writeAll h hm]
      dsimp only
      rw [if_pos rfl, ih (h.set hnotDir _) (set_nodes_self _ _) (by omega), set_set]
      simp only [List.flatten_cons, List.length_append, List.append_assoc, Nat.add_assoc]

theorem eval_rename (hc : context.isLive = false) (src dst : Path)
    (hok : (fsAnswer (.rename src dst) w).1 = true) :
    (context.rename src dst).eval fsAnswer w = (.ok true, (fsAnswer (.rename src dst) w).2) := by
  show (context.report "rename" (fsAnswer (.rename src dst) w).1, _) = _
  rw [hok, report_stateless hc]

/-- The end of an entry: the part file takes its place and gets its mode. -/
theorem run_putEntry_complete (hc : context.isLive = false) (h : w.Open dir)
    (hpart : prepared.part = dir.child m) (hfinal : prepared.final = dir.child n) (hmn : m ≠ n)
    (hm : w.nodes (spot dir.parts ++ [m]) = some (.file fileMode data))
    (hn : w.nodes (spot dir.parts ++ [n]) = none) (hsize : received = header.size.toNat)
    (hmode : header.mode = some mode) :
    run (Serve.putEntry context root total header prepared received (.entryComplete ⟨⟩ :: rest)) w
      = run (Serve.putLoop context root (total + received) rest)
        ((w.set (spot dir.parts ++ [m]) none).set (spot dir.parts ++ [n]) (some (.file mode data))) := by
  have hne : spot dir.parts ++ [n] ≠ spot dir.parts ++ [m] := by
    intro he
    exact hmn (List.cons.inj (List.append_cancel_left he)).1.symm
  have hm' : ¬ IsDir w.nodes (spot dir.parts ++ [m]) := by
    rintro ⟨_, hsome⟩
    rw [hm] at hsome
    cases hsome
  have hn' : ¬ IsDir (w.set (spot dir.parts ++ [m]) none).nodes (spot dir.parts ++ [n]) := by
    rintro ⟨_, hsome⟩
    rw [set_nodes_ne hne, hn] at hsome
    cases hsome
  have hrename := fsAnswer_rename h hm hn
  have hchmod := eval_chmod ((h.set hm' none).set hn' (some (.file fileMode data)))
    (set_nodes_self _ _) mode
  rw [Serve.putEntry, if_neg (not_not.mpr hsize), run_flush, run_finish, if_pos rfl, run_bind, run_serve,
    hpart, hfinal, eval_rename hc _ _ (by rw [hrename]), hrename]
  dsimp only
  rw [run_bind, run_serve, hmode, Option.map_some, hchmod, set_set]
  rfl

/-- **A file.** -/
theorem run_newFile {rel : List Char} {chunks : List (List UInt8)} (hc : context.isLive = false)
    (hrel : sanitizeRelativePath header.path.toList = .ok rel) (hjoin : root.join (parse rel) = dir.child n)
    (habs : dir.head = .rootDir) (hdir : header.isDir = false) (hmode : header.mode = some mode)
    (hsize : chunks.flatten.length = header.size.toNat) (h : w.Open dir)
    (hn : w.nodes (spot dir.parts ++ [n]) = none)
    (hpart : w.nodes (spot dir.parts ++ [partName (some n) (w.stamps w.ticks)]) = none) :
    run (Serve.putLoop context root total
        (.newEntry header :: (chunks.map .putChunk ++ .entryComplete ⟨⟩ :: rest))) w
      = run (Serve.putLoop context root (total + chunks.flatten.length) rest)
        { w.set (spot dir.parts ++ [n]) (some (.file mode chunks.flatten)) with
          ticks := w.ticks + 1 } := by
  have hpn := partName_ne n (w.stamps w.ticks)
  have hopen : TreeWorld.Open { w with ticks := w.ticks + 1 } dir := h
  have hnotDir : ¬ IsDir w.nodes (spot dir.parts ++ [partName (some n) (w.stamps w.ticks)]) := by
    rintro ⟨_, hsome⟩
    rw [hpart] at hsome
    cases hsome
  have hne : spot dir.parts ++ [n] ≠ spot dir.parts ++ [partName (some n) (w.stamps w.ticks)] := by
    intro he
    exact hpn (List.cons.inj (List.append_cancel_left he)).1.symm
  rw [Serve.putLoop, hrel]
  dsimp only
  rw [hdir, if_neg Bool.false_ne_true, hjoin, run_bind, run_serve, eval_prepare hc habs h hn]
  dsimp only
  rw [run_createFile, @fsAnswer_createFile { w with ticks := w.ticks + 1 } _ _ hopen hpart]
  dsimp only
  rw [if_pos rfl, run_stdin, if_pos rfl,
    run_putEntry_chunks (hopen.set hnotDir _) rfl (set_nodes_self _ _) (by omega),
    List.nil_append, Nat.zero_add, set_set,
    run_putEntry_complete hc (hopen.set hnotDir _) rfl rfl hpn (set_nodes_self _ _) ?_ hsize hmode, set_set]
  · congr 1
    rw [@set_same { w with ticks := w.ticks + 1 } _ none hpart]
    rfl
  · rw [set_nodes_ne hne]
    exact hn

end

end TreeWorld

/-! ## The whole tree -/

/-- No directory on the way to the root lies below it. -/
def RootClear (root : Path) : Prop :=
  ∀ s ∈ visits [] root.parts, ∀ q, q ≠ [] → s ≠ spot root.parts ++ q

/-- A name that `prepare_put_destination` could give to a part file. -/
def IsPartName (n : Name) : Prop := ∃ file stamp, n = partName file stamp

/-- What the server needs of a tree: names it accepts, none of which looks like a part file's. -/
structure Acceptable (walk : List Spot) : Prop where
  names : ∀ q ∈ walk, ∃ p, sanitizeRelativePath (relPath q).display = .ok p
  parts : ∀ q ∈ walk, ∀ n ∈ q, ¬ IsPartName n

/-- Below the root there is what has been walked so far. -/
structure Built (nodes : Nodes) (root : Path) (t : Tree) (done : List Spot) : Prop where
  rootOpen : Opens nodes [] root.parts
  below : ∀ q, q ≠ [] →
    nodes (spot root.parts ++ q) = if q ∈ done then (t.nodes q).map FileNode.masked else none

section

variable {w : TreeWorld} {root : Path} {t : Tree} {walk before after : List Spot} {q : Spot} {n : Name}
  {reads : Spot → List (List UInt8)} {context : ShellContext}

/-- The directory of an entry. -/
def dirOf (root : Path) (q : Spot) : Path := { root with parts := root.parts ++ q.map .normal }

theorem spot_dirOf (root : Path) (q : Spot) : spot (dirOf root q).parts = spot root.parts ++ q := by
  show spotFrom [] (root.parts ++ q.map .normal) = spotFrom [] root.parts ++ q
  rw [spotFrom_append, spotFrom_names]

/-- The path that the server makes of an entry. -/
theorem join_relPath (habs : root.head = .rootDir) (q : Spot) (n : Name) :
    root.join (parse (relPath (q ++ [n])).display) = (dirOf root q).child n := by
  have hne : q ++ [n] ≠ [] := by simp
  have hparse : parse (relPath (q ++ [n])).display = relPath (q ++ [n]) := parse_display_names hne
  have hroot : root ≠ ⟨.plain, []⟩ := by
    intro he
    rw [he] at habs
    cases habs
  rw [hparse, Path.join, relPath]
  dsimp only
  rw [if_neg hroot, dirOf, Path.child, List.map_append, List.append_assoc]
  rfl

/-- The directory of the next entry is there. -/
theorem Built.openDir (h : Built w.nodes root t before) (hwalks : Walks t walk)
    (hsplit : walk = before ++ (q ++ [n]) :: after) : w.Open (dirOf root q) := by
  intro s hs
  have hin : t.nodes (q ++ [n]) ≠ none := by
    have hmem : q ++ [n] ∈ walk := by
      rw [hsplit]
      exact List.mem_append_right _ List.mem_cons_self
    exact ((hwalks.mem _).mp hmem).2
  rcases mem_visits_names hs with hroot | ⟨r, hr, hne, rfl⟩
  · exact h.rootOpen s hroot
  · have hq : q ∈ before := by
      refine hwalks.parentFirst before q n after hsplit fun hnil => ?_
      rw [hnil] at hr
      exact hne (List.prefix_nil.mp hr)
    have hrmem : r ∈ before := above_mem_of_parentFirst hwalks.parentFirst hsplit hq hr hne
    obtain ⟨u, hu⟩ := hr
    rw [← hu] at hin
    obtain ⟨mode, hdir⟩ := t.isDir_above hin
    refine ⟨mode &&& 0o777, ?_⟩
    show w.nodes (spot root.parts ++ r) = _
    rw [h.below r hne, if_pos hrmem, hdir]
    rfl

/-- Its place is empty, and so is that of a part file. -/
theorem Built.free (h : Built w.nodes root t before) {r : Spot} (hr : r ∉ before) (hne : r ≠ []) :
    w.nodes (spot root.parts ++ r) = none := by
  rw [h.below r hne, if_neg hr]

theorem Built.snoc (h : Built w.nodes root t before) (hclear : RootClear root) (hq : q ≠ [])
    {node : FileNode} (hnode : t.nodes q = some node) :
    Built (Function.update w.nodes (spot root.parts ++ q) (some node.masked)) root t (before ++ [q]) where
  rootOpen := by
    refine Opens.congr h.rootOpen fun s hs hdir => ?_
    obtain ⟨mode, hmode⟩ := hdir
    exact ⟨mode, by rw [Function.update_of_ne (hclear s hs q hq), hmode]⟩
  below := by
    intro r hr
    by_cases heq : r = q
    · rw [heq, Function.update_self, if_pos (List.mem_append_right _ List.mem_cons_self), hnode]
      rfl
    · have hne : spot root.parts ++ r ≠ spot root.parts ++ q := fun he => heq (List.append_cancel_left he)
      have hmem : r ∈ before ++ [q] ↔ r ∈ before := by simp [heq]
      rw [Function.update_of_ne hne, h.below r hr]
      simp only [hmem]

/-- **One entry.** -/
theorem run_entry {total : Nat} (hc : context.isLive = false)
    (habs : root.head = .rootDir) (hclear : RootClear root) (hwalks : Walks t walk)
    (hok : Acceptable walk) (hsplit : walk = before ++ q :: after) (h : Built w.nodes root t before)
    (hfile : ∀ mode data, t.nodes q = some (.file mode data) →
      data.length < 2 ^ 64 ∧ (reads q).flatten = data) :
    ∃ w', (∀ rest, TreeWorld.run (Serve.putLoop context root total (entryFrames t reads q ++ rest)) w
        = TreeWorld.run (Serve.putLoop context root (total + entrySize t q) rest) w')
      ∧ Built w'.nodes root t (before ++ [q]) ∧ w'.sent = w.sent ∧ w'.writes = w.writes := by
  have hmem : q ∈ walk := by
    rw [hsplit]
    exact List.mem_append_right _ List.mem_cons_self
  obtain ⟨hne, hsome⟩ := (hwalks.mem q).mp hmem
  obtain ⟨p, hp⟩ := hok.names q hmem
  obtain ⟨rfl, -, -⟩ := sanitizeRelativePath_ok hp
  have hnew : q ∉ before := by
    intro hold
    have hnodup := hwalks.nodup
    rw [hsplit] at hnodup
    exact (List.nodup_append.mp hnodup).2.2 q hold q List.mem_cons_self rfl
  obtain ⟨dir, n, rfl⟩ : ∃ dir n, q = dir ++ [n] :=
    ⟨q.dropLast, q.getLast hne, (List.dropLast_append_getLast hne).symm⟩
  have hopen := h.openDir hwalks hsplit
  have hspot : ∀ m, spot (dirOf root dir).parts ++ [m] = spot root.parts ++ (dir ++ [m]) := by
    intro m
    rw [spot_dirOf, List.append_assoc]
  have hfree : w.nodes (spot (dirOf root dir).parts ++ [n]) = none := by
    rw [hspot]
    exact h.free hnew hne
  have htext : (String.ofList (relPath (dir ++ [n])).display).toList = (relPath (dir ++ [n])).display :=
    String.toList_ofList
  have hrel : sanitizeRelativePath (String.ofList (relPath (dir ++ [n])).display).toList
      = .ok (relPath (dir ++ [n])).display := by
    rw [htext]
    exact hp
  cases hn : t.nodes (dir ++ [n]) with
  | none => exact absurd hn hsome
  | some node =>
      have hbuilt := h.snoc hclear hne hn
      cases node with
      | dir mode =>
          refine ⟨w.set (spot root.parts ++ (dir ++ [n])) (some (.dir (mode &&& 0o777))), fun rest => ?_,
            hbuilt, rfl, rfl⟩
          have hrun := @TreeWorld.run_newDir w _ n context root _
            ⟨String.ofList (relPath (dir ++ [n])).display, 0, some (mode &&& 0o777), true⟩ _ total rest
            hc hrel (join_relPath habs dir n) rfl rfl hopen hfree
          simp only [entryFrames, hn, entrySize, List.singleton_append, Nat.add_zero]
          rw [hrun, hspot]
      | file mode data =>
          obtain ⟨hlen, hdata⟩ := hfile mode data hn
          have hpart : w.nodes (spot (dirOf root dir).parts
              ++ [partName (some n) (w.stamps w.ticks)]) = none := by
            rw [hspot]
            refine h.free (fun hold => ?_) (by simp)
            have hold' : dir ++ [partName (some n) (w.stamps w.ticks)] ∈ walk := by
              rw [hsplit]
              exact List.mem_append_left _ hold
            exact hok.parts _ hold' _ (List.mem_append_right _ List.mem_cons_self) ⟨_, _, rfl⟩
          have hsize : (reads (dir ++ [n])).flatten.length = (UInt64.ofNat data.length).toNat := by
            rw [hdata, UInt64.toNat_ofNat_of_lt' hlen]
          refine ⟨{ w.set (spot root.parts ++ (dir ++ [n])) (some (.file (mode &&& 0o777) data)) with
            ticks := w.ticks + 1 }, fun rest => ?_, hbuilt, rfl, rfl⟩
          have hrun := @TreeWorld.run_newFile w _ n context root
            ⟨String.ofList (relPath (dir ++ [n])).display, UInt64.ofNat data.length, some (mode &&& 0o777),
              false⟩ total _ rest _ (reads (dir ++ [n])) hc hrel (join_relPath habs dir n) habs rfl rfl hsize
            hopen hfree hpart
          simp only [entryFrames, hn, entrySize, List.cons_append, List.append_assoc, List.nil_append]
          rw [hrun, hspot, hdata]

/-- **Entry after entry.** -/
theorem run_entries {total : Nat} {mid : List Spot} (hc : context.isLive = false)
    (habs : root.head = .rootDir) (hclear : RootClear root) (hwalks : Walks t walk)
    (hok : Acceptable walk)
    (hfiles : ∀ q mode data, t.nodes q = some (.file mode data) →
      data.length < 2 ^ 64 ∧ (reads q).flatten = data)
    (hsplit : walk = before ++ mid ++ after) (h : Built w.nodes root t before) :
    ∃ w', (∀ rest, TreeWorld.run (Serve.putLoop context root total (treeFrames t reads mid ++ rest)) w
        = TreeWorld.run (Serve.putLoop context root (total + treeSize t mid) rest) w')
      ∧ Built w'.nodes root t (before ++ mid) ∧ w'.sent = w.sent ∧ w'.writes = w.writes := by
  induction mid generalizing before w total with
  | nil =>
      refine ⟨w, fun rest => rfl, ?_, rfl, rfl⟩
      rw [List.append_nil]
      exact h
  | cons q mid ih =>
      have hframes : treeFrames t reads (q :: mid) = entryFrames t reads q ++ treeFrames t reads mid :=
        List.flatMap_cons
      have hsize : total + treeSize t (q :: mid) = total + entrySize t q + treeSize t mid := by
        rw [treeSize, List.map_cons, List.sum_cons, Nat.add_assoc]
        rfl
      have hthis : walk = before ++ q :: (mid ++ after) := by
        rw [hsplit, List.append_assoc]
        rfl
      have hnext : walk = before ++ [q] ++ mid ++ after := by
        rw [hthis, List.append_assoc, List.append_assoc]
        rfl
      obtain ⟨w₁, hrun, hbuilt, hsent, hwrites⟩ := run_entry hc habs hclear hwalks hok hthis h (hfiles q)
      obtain ⟨w₂, hruns, hdone, hsents, hwritten⟩ :=
        @ih w₁ (before ++ [q]) (total + entrySize t q) hnext hbuilt
      refine ⟨w₂, fun rest => ?_, ?_, hsents.trans hsent, hwritten.trans hwrites⟩
      · rw [hframes, List.append_assoc, hrun, hsize, hruns]
      · rw [List.append_assoc] at hdone
        exact hdone

/-- **All entries**, and the completion. -/
theorem run_tree {total : Nat} {complete : TransferComplete} (hc : context.isLive = false)
    (habs : root.head = .rootDir) (hclear : RootClear root) (hwalks : Walks t walk)
    (hok : Acceptable walk)
    (hfiles : ∀ q mode data, t.nodes q = some (.file mode data) →
      data.length < 2 ^ 64 ∧ (reads q).flatten = data)
    (hsplit : walk = before ++ after) (h : Built w.nodes root t before)
    (hw : w.writes (.putComplete ⟨UInt64.ofNat (total + treeSize t after)⟩) = true) :
    ∃ w', TreeWorld.run (Serve.putLoop context root total
          (treeFrames t reads after ++ [.putComplete complete])) w = (.ok (), w')
      ∧ Built w'.nodes root t walk
      ∧ w'.sent = w.sent ++ [.putComplete ⟨UInt64.ofNat (total + treeSize t after)⟩] := by
  have hsplit' : walk = before ++ after ++ [] := by rw [hsplit, List.append_nil]
  obtain ⟨w', hrun, hbuilt, hsent, hwrites⟩ :=
    @run_entries w root t walk before [] reads context total after hc habs hclear hwalks hok hfiles hsplit' h
  refine ⟨{ w' with sent := w'.sent ++ [.putComplete ⟨UInt64.ofNat (total + treeSize t after)⟩] }, ?_, ?_, ?_⟩
  · rw [hrun]
    exact TreeWorld.run_send (by rw [hwrites]; exact hw)
  · rw [hsplit]
    exact hbuilt
  · rw [← hsent]

end

/-- After the root has been made there is nothing below it, if there was nothing before. -/
theorem built_start {N : Nodes} {root : Path} {t : Tree} {mode : UInt32} (hclear : RootClear root)
    (hrooted : IsDir N []) (hnone : ∀ q, q ≠ [] → N (spot root.parts ++ q) = none)
    (hfile : ∀ s ∈ visits [] root.parts, ∀ m data, N s ≠ some (.file m data)) :
    (makeDirs mode N [] root.parts).1 = true ∧ Built (makeDirs mode N [] root.parts).2 root t [] := by
  obtain ⟨hmade, hopens⟩ := @makeDirs_works N [] root.parts mode hrooted hfile
  refine ⟨hmade, hopens, fun q hq => ?_⟩
  rw [if_neg List.not_mem_nil]
  rcases makeDirs_kept mode N [] root.parts (spot root.parts ++ q) with h | ⟨-, -, hvisit⟩
  · rw [h]
    exact hnone q hq
  · exact absurd rfl (hclear _ (List.mem_of_mem_tail hvisit) q hq)

/-- What comes before the first entry. -/
theorem TreeWorld.run_handleRecursivePut {v : TreeWorld} {context : ShellContext} {remote : Path}
    (hcontext : context.isLive = false) (habs : remote.head = .rootDir)
    (hmade : (makeDirs v.dirMode v.nodes [] remote.parts).1 = true)
    (hready : v.writes (.putReady ⟨0, none⟩) = true) (frames : List TransferFrame) :
    run (Serve.handleRecursivePut context (Client.uploadDirRequest remote) frames) v
      = run (Serve.putLoop context remote 0 frames)
        { v with
          nodes := (makeDirs v.dirMode v.nodes [] remote.parts).2
          sent := v.sent ++ [.putReady ⟨0, none⟩] } := by
  have hresolve : context.resolvePath (Client.uploadDirRequest remote).path.toList = .ok remote := by
    rw [Client.uploadDirRequest, String.toList_ofList]
    exact resolvePath_display context habs
  have hready' : writes { v with nodes := (makeDirs v.dirMode v.nodes [] remote.parts).2 }
    (.putReady ⟨0, none⟩) = true := hready
  rw [Serve.handleRecursivePut, hresolve]
  dsimp only
  rw [run_bind, run_serve, eval_createDirAll, hmade, report_stateless hcontext]
  dsimp only
  rw [run_bind, run_send hready']

/-- A path without `..` leads through nothing that is below its end. -/
theorem rootClear_of_no_parent {root : Path} (h : Part.parent ∉ root.parts) : RootClear root := by
  obtain ⟨names, hnames⟩ : ∃ names : Spot, root.parts = names.map .normal := by
    refine ⟨namesOf root.parts, ?_⟩
    revert h
    generalize root.parts = ps
    intro h
    induction ps with
    | nil => rfl
    | cons x ps ih =>
        cases x with
        | parent => exact absurd List.mem_cons_self h
        | normal n =>
            have hrest := ih fun hm => h (List.mem_cons_of_mem _ hm)
            show _ = Part.normal n :: (namesOf ps).map .normal
            rw [← hrest]
  intro s hs q hq he
  have hspot : spot root.parts = names := by
    rw [spot, hnames, spotFrom_names, List.nil_append]
  have hlen : s.length ≤ names.length := by
    rw [hnames, ← List.nil_append (names.map _)] at hs
    rcases mem_visits_names hs with hroot | ⟨r, hr, -, hs'⟩
    · rw [List.mem_singleton.mp hroot]
      exact Nat.zero_le _
    · rw [hs', spotFrom_nil, List.nil_append]
      exact hr.length_le
  have hpos : 0 < q.length := List.length_pos_iff.mpr hq
  rw [he, hspot, List.length_append] at hlen
  omega

namespace Proof

/-- A recursive upload to an absolute root that does not exist reproduces the tree, if no directory that
the root's path leads through lies below the root itself. -/
theorem recursive_upload_reproduces {w : LocalWorld} {v : TreeWorld} {t remoteTree : Tree}
    {walk : List Spot} {reads : Spot → List (List UInt8)} {localRoot remote : Path}
    {context : ShellContext} (hlocal : w.Holds localRoot t walk reads) (hok : Acceptable walk)
    (hcontext : context.isLive = false) (habs : remote.head = .rootDir)
    (hremote : v.nodes = remoteTree.nodes) (hmissing : v.nodes (spot remote.parts) = none)
    (hclear : RootClear remote)
    -- making the root's directories does not fail
    (hfile : ∀ s ∈ visits [] remote.parts, ∀ mode data, v.nodes s ≠ some (.file mode data))
    -- what is sent can be written
    (hwrites : ∀ frame ∈ TransferFrame.putRequest (Client.uploadDirRequest remote)
      :: (treeFrames t reads walk ++ [.putComplete ⟨UInt64.ofNat (treeSize t walk)⟩]),
      w.writes frame = true)
    (hready : v.writes (.putReady ⟨0, none⟩) = true)
    (hcomplete : v.writes (.putComplete ⟨UInt64.ofNat (treeSize t walk)⟩) = true)
    (hnone : w.sent = [] ∧ v.sent = []) :
    ∃ w' v' frames replies,
      LocalWorld.run (Client.uploadDirWithProgress localRoot remote true replies) w = (.ok (), w')
      ∧ w'.sent = .putRequest (Client.uploadDirRequest remote) :: frames
      ∧ TreeWorld.run (Serve.handleRecursivePut context (Client.uploadDirRequest remote) frames) v
        = (.ok (), v')
      ∧ v'.sent = replies
      ∧ replies = [.putReady ⟨0, none⟩, .putComplete ⟨UInt64.ofNat (treeSize t walk)⟩]
      -- the first of them does not wait for anything but the request
      ∧ (TreeWorld.run (Serve.handleRecursivePut context (Client.uploadDirRequest remote) []) v).2.sent
        = [.putReady ⟨0, none⟩]
      ∧ IsDir v'.nodes (spot remote.parts)
      ∧ ∀ q, q ≠ [] → v'.nodes (spot remote.parts ++ q) = (t.nodes q).map FileNode.masked := by
  obtain ⟨hmade, hbuilt⟩ := @built_start v.nodes remote t v.dirMode hclear
    (by rw [hremote]; exact remoteTree.rooted)
    (fun q _ => by rw [hremote]; exact remoteTree.none_below (by rw [← hremote]; exact hmissing) q) hfile
  -- the server's side, once the root is made and `PutReady` is sent
  obtain ⟨v', hrun, hdone, hsent⟩ := @run_tree
    { v with
      nodes := (makeDirs v.dirMode v.nodes [] remote.parts).2
      sent := v.sent ++ [.putReady ⟨0, none⟩] }
    remote t walk [] walk reads context 0 ⟨UInt64.ofNat (treeSize t walk)⟩ hcontext habs hclear
    hlocal.walks hok
      (fun q mode data hq => ⟨(hlocal.files q mode data hq).1, (hlocal.files q mode data hq).2.2.1⟩)
    rfl hbuilt (by rw [Nat.zero_add]; exact hcomplete)
  have hserver := @TreeWorld.run_handleRecursivePut v context remote hcontext habs hmade hready
  refine ⟨_, v', _, _, LocalWorld.run_uploadDir hlocal hwrites, ?_, (hserver _).trans hrun, ?_,
    rfl, ?_, ?_, ?_⟩
  · rw [LocalWorld.wrote, hnone.1, List.nil_append]
  · rw [hsent, hnone.2, Nat.zero_add]
    rfl
  · rw [hserver, Serve.putLoop, TreeWorld.run_pure, hnone.2]
    rfl
  · exact hdone.rootOpen.last
  · intro q hq
    rw [hdone.below q hq]
    by_cases hmem : q ∈ walk
    · rw [if_pos hmem]
    · have hgone : t.nodes q = none := by
        by_contra hsome
        exact hmem ((hlocal.walks.mem q).mpr ⟨hq, hsome⟩)
      rw [if_neg hmem, hgone]
      rfl

/-- A directory with one file in it. -/
def singleFile (n : Name) (data : List UInt8) : Tree where
  nodes := fun q => if q = [] then some (.dir 0o755) else if q = [n] then some (.file 0o644 data) else none
  rooted := ⟨0o755, rfl⟩
  grounded := by
    intro q m h
    have hne : q ++ [m] ≠ [] := by simp
    rw [if_neg hne] at h
    by_cases heq : q ++ [m] = [n]
    · have hq : q = [] := by
        cases q with
        | nil => rfl
        | cons x q => simp at heq
      rw [hq]
      exact ⟨0o755, rfl⟩
    · rw [if_neg heq] at h
      exact absurd rfl h

def nameA : Name := ⟨['a'], by decide⟩

def nameB : Name := ⟨['b'], by decide⟩

/-- The client's side of it: `/l` holds `b` with the byte 7. -/
def singleWorld : LocalWorld where
  walked := [some ⟨⟨.plain, []⟩, .dir, some ⟨0, 0o755⟩⟩, some ⟨relPath [nameB], .file, some ⟨1, 0o644⟩⟩]
  files := fun _ => some ⟨[[7]], false⟩
  writes := fun _ => true
  sent := []

/-- An empty file system. -/
def emptyWorld : TreeWorld where
  nodes := fun s => if s = [] then some (.dir 0o755) else none
  dirMode := 0o755
  fileMode := 0o600
  stamps := fun _ => ⟨['1'], slash_notMem_one⟩
  ticks := 0
  writes := fun _ => true
  sent := []

theorem singleWorld_holds (root : Path) :
    singleWorld.Holds root (singleFile nameB [7]) [[nameB]] (fun _ => [[7]]) where
  walks :=
    { nodup := List.nodup_singleton _
      mem := by
        intro q
        by_cases hnil : q = []
        · simp [hnil]
        · by_cases hb : q = [nameB]
          · simp [singleFile, hb]
          · simp [singleFile, hnil, hb]
      parentFirst := by
        intro before q n after h hq
        cases before with
        | nil =>
            have hlen := congrArg List.length (List.cons.inj h).1
            rw [List.length_append] at hlen
            have hpos := List.length_pos_iff.mpr hq
            simp only [List.length_cons, List.length_nil] at hlen
            omega
        | cons x before => simp at h }
  walked := ⟨some ⟨0, 0o755⟩, fun _ => 0, by
    simp only [singleWorld, List.map_cons, List.map_nil, entryOf, singleFile]
    rfl⟩
  files := by
    intro q mode data h
    simp only [singleFile] at h
    split_ifs at h
    · cases h
    · cases h
      exact ⟨by decide, rfl, rfl, by decide⟩

/-- `/a` is made and gets its `b`. -/
theorem recursive_upload_reproduces_one_file :
    ∃ v' : TreeWorld, v'.sent = [.putReady ⟨0, none⟩, .putComplete ⟨1⟩] ∧ IsDir v'.nodes [nameA]
      ∧ v'.nodes [nameA, nameB] = some (.file 0o644 [7]) := by
  have hplain : Part.parent ∉ (⟨.rootDir, [.normal nameA]⟩ : UnixPath.Path).parts := by decide
  have hpart : ¬ IsPartName nameB := by
    rintro ⟨file, stamp, h⟩
    have hlen := length_partChars file stamp
    have hchars : nameB.1 = partChars file stamp := congrArg Subtype.val h
    rw [← hchars] at hlen
    have hone : nameB.1.length = 1 := rfl
    omega
  obtain ⟨w', v', frames, replies, -, -, -, hsent, hreplies, -, hdir, hbelow⟩ :=
    @recursive_upload_reproduces singleWorld emptyWorld (singleFile nameB [7])
      ⟨emptyWorld.nodes, ⟨0o755, rfl⟩, fun q n h => absurd (if_neg (by simp)) h⟩ [[nameB]]
      (fun _ => [[7]]) ⟨.rootDir, [.normal nameA]⟩ ⟨.rootDir, [.normal nameA]⟩ (.stateless none)
      (singleWorld_holds _)
      ⟨fun q hq => ⟨['b'], by rw [List.mem_singleton.mp hq]; decide⟩, fun q hq n hn => by
        rw [List.mem_singleton.mp hq] at hn
        rw [List.mem_singleton.mp hn]
        exact hpart⟩
      rfl rfl rfl rfl (rootClear_of_no_parent hplain)
      (fun s _ mode data h => by
        simp only [emptyWorld] at h
        split_ifs at h
        cases h)
      (fun _ _ => rfl) rfl rfl ⟨rfl, rfl⟩
  refine ⟨v', hsent.trans hreplies, hdir, ?_⟩
  exact hbelow [nameB] (by simp)

/-- The root `/a/b/..` is missing. Making it makes `/a/b`, and the file `b` then finds its place
taken. -/
theorem upload_meets_own_root :
    emptyWorld.look ⟨.rootDir, [.normal nameA, .normal nameB, .parent]⟩ = .missing
      ∧ (TreeWorld.run (Serve.handleRecursivePut (.stateless none)
          (Client.uploadDirRequest ⟨.rootDir, [.normal nameA, .normal nameB, .parent]⟩)
          (treeFrames (singleFile nameB [7]) (fun _ => [[7]]) [[nameB]] ++ [.putComplete ⟨1⟩]))
          emptyWorld).2.sent
        = [.putReady ⟨0, none⟩, .error ⟨.targetAlreadyExists, "/a/b/../b"⟩]
      ∧ (LocalWorld.run (Client.uploadDirWithProgress ⟨.rootDir, [.normal nameA]⟩
          ⟨.rootDir, [.normal nameA, .normal nameB, .parent]⟩ true
          [.putReady ⟨0, none⟩, .error ⟨.targetAlreadyExists, "/a/b/../b"⟩]) singleWorld).2.sent
        = .putRequest (Client.uploadDirRequest ⟨.rootDir, [.normal nameA, .normal nameB, .parent]⟩)
          :: (treeFrames (singleFile nameB [7]) (fun _ => [[7]]) [[nameB]] ++ [.putComplete ⟨1⟩])
      ∧ ∃ e, (LocalWorld.run (Client.uploadDirWithProgress ⟨.rootDir, [.normal nameA]⟩
          ⟨.rootDir, [.normal nameA, .normal nameB, .parent]⟩ true
          [.putReady ⟨0, none⟩, .error ⟨.targetAlreadyExists, "/a/b/../b"⟩]) singleWorld).1 = .error e := by
  refine ⟨by decide +kernel, by decide +kernel, by decide +kernel, "/a/b/../b", ?_⟩
  rfl

end Proof

end Irosh
