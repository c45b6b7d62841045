import Irosh.Proof.Answers
import Irosh.Proof.ConfirmedUpload
import Irosh.Proof.CutListing
import Irosh.Proof.PlacedEntries

/-!
# Sizes that nobody compares

`download_file_with_progress` compares what it has received with the size that was announced.
`download_dir_with_progress` does not, for the files and for their sum, and on the server's
side nobody looks at the exit of a helper or of `find`. So a download of a tree that does not
hold still may report success.

The server announces a completion only after everything has been sent, and a client that
reports success has read the completion. So all that is announced has been received, and
what was received is what the server has read of the files, which is placed as it came.
Damage is then a matter of the listing alone: of files that do not give as many bytes as they
were listed with, and of names that are not there.
-/

namespace Irosh

open UnixPath Wire

/-! ## What the server sends -/

/-- An entry, and what there is to be read of it where it is a file. -/
structure Delivery where
  entry : WalkEntry
  source : Option Source

namespace Delivery

/-- The files are opened one after the other. -/
def supply (sources : Nat → Option Source) : Nat → List WalkEntry → List Delivery
  | _, [] => []
  | n, entry :: rest =>
      if entry.isDir then ⟨entry, none⟩ :: supply sources n rest
      else ⟨entry, sources n⟩ :: supply sources (n + 1) rest

theorem mem_of_mem_supply {sources : Nat → Option Source} {n : Nat} {entries : List WalkEntry} {d : Delivery}
    (h : d ∈ supply sources n entries) : d.entry ∈ entries := by
  induction entries generalizing n with
  | nil => exact absurd h List.not_mem_nil
  | cons entry rest ih =>
      rw [supply] at h
      split at h
      · rcases List.mem_cons.mp h with rfl | hrest
        · exact List.mem_cons_self
        · exact List.mem_cons_of_mem _ (ih hrest)
      · rcases List.mem_cons.mp h with rfl | hrest
        · exact List.mem_cons_self
        · exact List.mem_cons_of_mem _ (ih hrest)

/-- What is read of it. -/
def chunks (d : Delivery) : List (List UInt8) :=
  if d.entry.isDir then [] else (d.source.map Source.chunks).getD []

def bytes (d : Delivery) : List UInt8 := d.chunks.flatten

/-- The frames for it. -/
def frames (d : Delivery) : List TransferFrame :=
  .newEntry (Client.entryHeader d.entry)
    :: if d.entry.isDir then [] else d.chunks.map .getChunk ++ [.entryComplete ⟨⟩]

/-- The header is within the limit, and a file is read to its end. -/
structure GoesOut (json : SerdeJson) (d : Delivery) : Prop where
  fits : Fits json (.newEntry (Client.entryHeader d.entry))
  read : d.entry.isDir = false → ∃ source, d.source = some source ∧ source.ReadToEnd

section

variable {json : SerdeJson} {entry : WalkEntry} {source : Option Source}

theorem goesOut_dir (h : entry.isDir = true) :
    GoesOut json ⟨entry, source⟩ ↔ Fits json (.newEntry (Client.entryHeader entry)) := by
  refine ⟨fun hout => hout.fits, fun hfits => ⟨hfits, fun hfile => ?_⟩⟩
  rw [h] at hfile
  cases hfile

theorem goesOut_file (h : entry.isDir = false) :
    GoesOut json ⟨entry, source⟩ ↔ Fits json (.newEntry (Client.entryHeader entry))
      ∧ ∃ opened, source = some opened ∧ opened.ReadToEnd :=
  ⟨fun hout => ⟨hout.fits, hout.read h⟩, fun hout => ⟨hout.1, fun _ => hout.2⟩⟩

theorem bytes_dir (h : entry.isDir = true) : bytes ⟨entry, source⟩ = [] := by
  rw [bytes, chunks, if_pos h]
  rfl

end

end Delivery

namespace FaultyTree

/-- What is announced of the tree. -/
def listed (w : FaultyTree) (context : ShellContext) (root : Path) : List WalkEntry :=
  if context.isLive then RemoteEntry.listing root w.cut w.found
  else w.walk.filterMap (RemoteEntry.walkedAt root)

def deliveries (w : FaultyTree) (context : ShellContext) (root : Path) : List Delivery :=
  Delivery.supply w.sources 0 (w.listed context root)

/-- The tree is gone through to the end. -/
def GoneThrough (w : FaultyTree) (context : ShellContext) : Prop :=
  if context.isLive then w.spawns = true ∧ w.broken = false else w.walkable = true

namespace Progress

def wrote (s : Progress) (frames : List TransferFrame) : Progress := { s with sent := s.sent ++ frames }

theorem wrote_wrote (s : Progress) (a b : List TransferFrame) : (s.wrote a).wrote b = s.wrote (a ++ b) := by
  simp only [wrote, List.append_assoc]

theorem wrote_nil (s : Progress) : s.wrote [] = s := by
  simp only [wrote, List.append_nil]

/-- After a delivery. -/
def delivered (s : Progress) (d : Delivery) : Progress :=
  ⟨if d.entry.isDir then s.opened else s.opened + 1, s.sent ++ d.frames⟩

theorem delivered_dir (s : Progress) {entry : WalkEntry} (h : entry.isDir = true) :
    s.delivered ⟨entry, none⟩ = s.wrote [.newEntry (Client.entryHeader entry)] := by
  rw [delivered, if_pos h, Delivery.frames, if_pos h]
  rfl

theorem delivered_file (s : Progress) {entry : WalkEntry} (h : ¬ entry.isDir = true)
    (source : Option Source) :
    s.delivered ⟨entry, source⟩ = ⟨(s.wrote [.newEntry (Client.entryHeader entry)]).opened + 1,
      (s.wrote [.newEntry (Client.entryHeader entry)]).sent
        ++ ((Delivery.chunks ⟨entry, source⟩).map .getChunk ++ [.entryComplete ⟨⟩])⟩ := by
  rw [delivered, if_neg h, Delivery.frames, if_neg h, wrote, List.append_assoc]
  rfl

theorem sent_delivered (s : Progress) (ds : List Delivery) :
    (ds.foldl delivered s).sent = s.sent ++ ds.flatMap Delivery.frames := by
  induction ds generalizing s with
  | nil => exact (List.append_nil _).symm
  | cons d ds ih =>
      rw [List.foldl_cons, ih, List.flatMap_cons, delivered, List.append_assoc]

end Progress

/-- A program that ends well if and only if `C` holds, and then with `a` and in `s'`. -/
abbrev Yields {α : Type} (w : FaultyTree) (json : SerdeJson) (p : ServeProg (Except String α))
    (s : Progress) (C : Prop) (a : α) (s' : Progress) : Prop :=
  Prog.Yields (w.answer json) p s C a s'

section

variable {w : FaultyTree} {json : SerdeJson} {context : ShellContext} {request : GetRequest}
  {root : Path} {s : Progress}

theorem yields_send (frame : TransferFrame) :
    w.Yields json (Serve.send frame) s (Fits json frame) () (s.wrote [frame]) := by
  refine Prog.Yields.perform ?_
  by_cases hfits : Fits json frame
  · have hanswer : w.answer json (.blob (.send frame)) s = (true, s.wrote [frame]) :=
      if_pos (sendable_iff.mpr hfits)
    rw [hanswer]
    exact (Prog.yields_pure ()).congr (iff_of_true trivial hfits)
  · have hanswer : w.answer json (.blob (.send frame)) s = (false, s) :=
      if_neg fun hsend => hfits (sendable_iff.mp hsend)
    rw [hanswer]
    exact (Prog.yields_error "stream write failed" () _).congr (iff_of_false id hfits)

/-- The reads of a file. -/
theorem yields_streamReads {broken : Bool} {reads : List (List UInt8)}
    (hlen : ∀ chunk ∈ reads, chunk.length ≤ maxChunkBytes) (total : Nat) :
    w.Yields json (Serve.streamReads broken total reads) s (Source.ReadToEnd ⟨reads, broken⟩)
      (total + (Source.bytes ⟨reads, broken⟩).length)
      (s.wrote ((Source.chunks ⟨reads, broken⟩).map .getChunk)) := by
  induction reads generalizing s total with
  | nil =>
      rw [Serve.streamReads, Source.bytes, Source.chunks, List.takeWhile_nil, List.map_nil, s.wrote_nil]
      cases broken with
      | true => exact (Prog.yields_error _ _ _).congr (iff_of_false id (by simp [Source.ReadToEnd]))
      | false => exact (Prog.yields_pure total).congr (iff_of_true trivial (.inl rfl))
  | cons chunk rest ih =>
      rw [Serve.streamReads]
      by_cases hnil : chunk.length = 0
      · have hchunks : Source.chunks ⟨chunk :: rest, broken⟩ = [] :=
          List.takeWhile_cons_of_neg (by simpa using hnil)
        have hend : Source.ReadToEnd ⟨chunk :: rest, broken⟩ :=
          .inr ⟨chunk, List.mem_cons_self, List.length_eq_zero_iff.mp hnil⟩
        rw [if_pos hnil, Source.bytes, hchunks, List.map_nil, s.wrote_nil]
        exact (Prog.yields_pure total).congr (iff_of_true trivial hend)
      · have hchunks : Source.chunks ⟨chunk :: rest, broken⟩ = chunk :: Source.chunks ⟨rest, broken⟩ :=
          List.takeWhile_cons_of_pos (by simpa using hnil)
        have hne : chunk ≠ [] := fun h => hnil (List.length_eq_zero_iff.mpr h)
        have hend : Source.ReadToEnd ⟨rest, broken⟩ ↔ Source.ReadToEnd ⟨chunk :: rest, broken⟩ := by
          simp only [Source.ReadToEnd, List.mem_cons, exists_eq_or_imp, hne, false_or]
        have hfits : Fits json (.getChunk chunk) := ⟨chunk, rfl, hlen chunk List.mem_cons_self⟩
        have hrest := @ih (s.wrote [.getChunk chunk]) (fun c hc => hlen c (List.mem_cons_of_mem _ hc))
          (total + chunk.length)
        rw [Progress.wrote_wrote, Nat.add_assoc] at hrest
        rw [if_neg hnil, Source.bytes, hchunks, List.flatten_cons, List.length_append]
        refine Prog.Yields.congr (C := Fits json (.getChunk chunk) ∧ Source.ReadToEnd ⟨rest, broken⟩)
          (Prog.Yields.bind (yields_send _) hrest fun _ => rfl) ?_
        rw [and_iff_right hfits, hend]

/-- A file. -/
theorem yields_streamFileContent (hjson : Brief json) (p : Path) (total : Nat) {d : Delivery}
    (hfile : d.entry.isDir = false) (hsource : d.source = w.sources s.opened) :
    w.Yields json (Serve.streamFileContent p total) s
      (∃ source, d.source = some source ∧ source.ReadToEnd) (total + d.bytes.length)
      ⟨s.opened + 1, s.sent ++ (d.chunks.map .getChunk ++ [.entryComplete ⟨⟩])⟩ := by
  have hanswer : w.answer json (.openSource p) s = (d.source, ⟨s.opened + 1, s.sent⟩) := by
    rw [hsource]
    rfl
  refine Prog.Yields.perform ?_
  rw [hanswer]
  cases hopen : d.source with
  | none => exact (Prog.yields_error _ _ _).congr (by simp)
  | some source =>
      have hd : d.chunks = source.chunks := by
        rw [Delivery.chunks, hfile, hopen]
        rfl
      have hreads := @yields_streamReads w json ⟨s.opened + 1, s.sent⟩ source.broken source.reads
        (w.bounded s.opened source (hsource ▸ hopen)) total
      have hcomplete := hjson.entryComplete ⟨⟩
      rw [Delivery.bytes, hd, ← List.append_assoc]
      dsimp only
      refine Prog.Yields.perform ?_
      refine Prog.Yields.congr (C := source.ReadToEnd ∧ Fits json (.entryComplete ⟨⟩) ∧ True)
        (Prog.Yields.bind hreads ?_ fun _ => rfl) (by simp [hcomplete])
      exact Prog.Yields.bind (yields_send _) (Prog.yields_pure _) fun _ => rfl

/-- **The loop over entries.** -/
theorem yields_sendEntries (hjson : Brief json) (entries : List WalkEntry) (total : Nat) :
    w.Yields json (Serve.sendEntries total entries) s
      (∀ d ∈ Delivery.supply w.sources s.opened entries, d.GoesOut json)
      (total + ((Delivery.supply w.sources s.opened entries).map fun d => d.bytes.length).sum)
      ((Delivery.supply w.sources s.opened entries).foldl Progress.delivered s) := by
  induction entries generalizing s total with
  | nil => exact (Prog.yields_pure total).congr (by simp [Delivery.supply])
  | cons entry rest ih =>
      rw [Serve.sendEntries]
      by_cases hdir : entry.isDir = true
      · have hsupply : Delivery.supply w.sources s.opened (entry :: rest)
            = ⟨entry, none⟩ :: Delivery.supply w.sources s.opened rest := if_pos hdir
        have hrest := @ih (s.wrote [.newEntry (Client.entryHeader entry)]) total
        rw [hsupply, List.map_cons, List.sum_cons, List.foldl_cons, s.delivered_dir hdir,
          Delivery.bytes_dir hdir, List.length_nil, Nat.zero_add]
        refine Prog.Yields.congr (C := Fits json (.newEntry (Client.entryHeader entry))
            ∧ ∀ d ∈ Delivery.supply w.sources s.opened rest, d.GoesOut json)
          (Prog.Yields.bind (yields_send _) ?_ fun _ => rfl) ?_
        · dsimp only
          rw [if_pos hdir]
          exact hrest
        · rw [List.forall_mem_cons, Delivery.goesOut_dir hdir]
      · have hfile : entry.isDir = false := Bool.eq_false_iff.mpr hdir
        have hsupply : Delivery.supply w.sources s.opened (entry :: rest)
            = ⟨entry, w.sources s.opened⟩ :: Delivery.supply w.sources (s.opened + 1) rest := if_neg hdir
        have hcontents := @yields_streamFileContent w json
          (s.wrote [.newEntry (Client.entryHeader entry)]) hjson entry.fullPath total
          ⟨entry, w.sources s.opened⟩ hfile rfl
        have hrest := @ih (s.delivered ⟨entry, w.sources s.opened⟩)
          (total + (Delivery.bytes ⟨entry, w.sources s.opened⟩).length)
        have hopened : (s.delivered ⟨entry, w.sources s.opened⟩).opened = s.opened + 1 := if_neg hdir
        rw [hopened] at hrest
        rw [← s.delivered_file hdir] at hcontents
        rw [hsupply, List.map_cons, List.sum_cons, List.foldl_cons, ← Nat.add_assoc]
        refine Prog.Yields.congr (C := Fits json (.newEntry (Client.entryHeader entry))
            ∧ (∃ source, w.sources s.opened = some source ∧ source.ReadToEnd)
            ∧ ∀ d ∈ Delivery.supply w.sources (s.opened + 1) rest, d.GoesOut json)
          (Prog.Yields.bind (yields_send _) ?_ fun _ => rfl) ?_
        · dsimp only
          rw [if_neg hdir]
          exact Prog.Yields.bind hcontents hrest fun _ => rfl
        · rw [List.forall_mem_cons, Delivery.goesOut_file hfile, and_assoc]

/-- **Either walk.** -/
theorem yields_sendTree (hjson : Brief json) (context : ShellContext) (root : Path) (hs : s.opened = 0) :
    w.Yields json (Serve.sendTree context root) s
      (w.GoneThrough context ∧ ∀ d ∈ w.deliveries context root, d.GoesOut json)
      (((w.deliveries context root).map fun d => d.bytes.length).sum)
      ((w.deliveries context root).foldl Progress.delivered s) := by
  have hentries := fun entries => @yields_sendEntries w json s hjson entries 0
  rw [hs] at hentries
  simp only [Nat.zero_add] at hentries
  unfold Serve.sendTree deliveries listed GoneThrough
  by_cases hlive : context.isLive = true
  · simp only [if_pos hlive]
    refine Prog.Yields.perform ?_
    have hanswer : w.answer json (.find root) s
        = (if w.spawns then some (w.output, w.broken) else none, s) := rfl
    rw [hanswer]
    by_cases hspawns : w.spawns = true
    · rw [if_pos hspawns]
      dsimp only
      rw [Serve.sendListed]
      cases hbroken : w.broken with
      | true =>
          have hfailed := Serve.findEntries_broken root (Nat.lt_succ_self w.output.length)
          rw [hfailed]
          refine Prog.Yields.congr (C := (∀ d ∈ Delivery.supply w.sources 0
              (Serve.findEntries root true (w.output.length + 1) w.output).1, d.GoesOut json) ∧ False)
            (Prog.Yields.bind (hentries _) ?_ fun _ => rfl) (by simp)
          exact Prog.yields_error _ _ _
      | false =>
          have hlisting := RemoteEntry.findEntries_output root w.found w.cut
            (Nat.lt_succ_self w.output.length)
          rw [show (w.found.flatMap RemoteEntry.printed).take w.cut = w.output from rfl] at hlisting
          rw [hlisting]
          refine Prog.Yields.congr (C := (∀ d ∈ Delivery.supply w.sources 0
              (RemoteEntry.listing root w.cut w.found), d.GoesOut json) ∧ True)
            (Prog.Yields.bind (hentries _) ?_ fun _ => rfl) (by simp [hspawns])
          exact Prog.Yields.perform (Prog.yields_pure _)
    · rw [if_neg hspawns]
      exact (Prog.yields_error _ _ _).congr (by simp [hspawns])
  · simp only [if_neg hlive]
    refine Prog.Yields.perform ?_
    have hanswer : w.answer json (.walkTree root) s
        = (if w.walkable then some (w.walk.filterMap (RemoteEntry.walkedAt root)) else none, s) := by
      rw [answer, Serve.collectTree, RemoteEntry.collectTree_walked]
      rfl
    rw [hanswer]
    by_cases hwalkable : w.walkable = true
    · rw [if_pos hwalkable]
      exact (hentries _).congr (by simp [hwalkable])
    · rw [if_neg hwalkable]
      exact (Prog.yields_error _ _ _).congr (by simp [hwalkable])

/-- **A recursive download, from the server's side.** -/
theorem yields_handleRecursiveGet (hjson : Brief json)
    (hroot : context.resolvePath request.path.toList = .ok root) :
    w.Yields json (Serve.handleRecursiveGet context request) ⟨0, []⟩
      (w.GoneThrough context ∧ ∀ d ∈ w.deliveries context root, d.GoesOut json) ()
      (((w.deliveries context root).foldl Progress.delivered ⟨0, [.getReady ⟨0, none⟩]⟩).wrote
        [.getComplete ⟨UInt64.ofNat ((w.deliveries context root).map fun d => d.bytes.length).sum⟩]) := by
  have hready := hjson.ready ⟨0, none⟩
  have hcomplete := hjson.complete
    ⟨UInt64.ofNat ((w.deliveries context root).map fun d => d.bytes.length).sum⟩
  have htree := @yields_sendTree w json ⟨0, [.getReady ⟨0, none⟩]⟩ hjson context root rfl
  rw [Serve.handleRecursiveGet, hroot]
  refine Prog.Yields.congr (C := Fits json (.getReady ⟨0, none⟩)
      ∧ (w.GoneThrough context ∧ ∀ d ∈ w.deliveries context root, d.GoesOut json)
      ∧ Fits json (.getComplete
        ⟨UInt64.ofNat ((w.deliveries context root).map fun d => d.bytes.length).sum⟩))
    (Prog.Yields.bind (yields_send _) ?_ fun _ => rfl) (by simp [hready, hcomplete])
  exact Prog.Yields.bind htree (yields_send _) fun _ => rfl

/-! ## The last frame -/

theorem isFinal_of_plain {frame : TransferFrame} (h : Plain true (.blob (.send frame))) :
    isFinal frame = false := by
  have hclean := congrArg Tally.finals (h true)
  cases hfinal : isFinal frame with
  | false => rfl
  | true =>
      simp [Tally.next, Tally.clean, ServeOp.final, ServeOp.written, hfinal] at hclean

theorem sent_of_plain {o : ServeOp} (ho : Plain true o) (s : Progress)
    (hs : ∀ frame ∈ s.sent, isFinal frame = false) :
    ∀ frame ∈ (w.answer json o s).2.sent, isFinal frame = false := by
  unfold answer
  split
  · exact hs
  · exact hs
  · exact hs
  · rename_i frame
    split
    · intro f hf
      rcases List.mem_append.mp hf with hold | hnew
      · exact hs f hold
      · rw [List.mem_singleton.mp hnew]
        exact isFinal_of_plain ho
    · exact hs
  · exact hs

/-- **A download is completed only where everything has been sent.** -/
theorem complete_mem_served (hjson : Brief json) {complete : TransferComplete}
    (h : .getComplete complete ∈ w.served json context request) :
    ∃ root, context.resolvePath request.path.toList = .ok root ∧ w.GoneThrough context
      ∧ ∀ d ∈ w.deliveries context root, d.GoesOut json := by
  rw [served, Serve.handleRecursiveGet] at h
  cases hroot : context.resolvePath request.path.toList with
  | error e =>
      rw [hroot] at h
      cases h
  | ok root =>
      refine ⟨root, rfl, ?_⟩
      rw [hroot] at h
      by_contra hnot
      dsimp only at h
      have hready := (@yields_send w json ⟨0, []⟩ (.getReady ⟨0, none⟩)).ok (hjson.ready _)
      have htree := @yields_sendTree w json (Progress.wrote ⟨0, []⟩ [.getReady ⟨0, none⟩]) hjson context root
        rfl
      obtain ⟨e, t, hrun⟩ := htree.error hnot
      rw [Prog.eval_bind, hready] at h
      dsimp only at h
      rw [Prog.eval_bind, hrun] at h
      -- nothing after the tree is sent, and nothing final before
      have hplain : ∀ frame ∈ t.sent, isFinal frame = false := by
        have hquiet : (Serve.sendTree context root).Always (Plain true) := sendTree_plain context root
        have hsent := hquiet.eval_invariant (I := fun s => ∀ frame ∈ s.sent, isFinal frame = false)
          (fun o s ho hs => @sent_of_plain w json o ho s hs)
          (s := Progress.wrote ⟨0, []⟩ [.getReady ⟨0, none⟩])
          (by
            intro frame hframe
            rw [List.mem_singleton.mp hframe]
            rfl)
        rwa [hrun] at hsent
      have hfalse := hplain _ h
      cases hfalse

theorem served_eq (hjson : Brief json) (hroot : context.resolvePath request.path.toList = .ok root)
    (hwalk : w.GoneThrough context) (hout : ∀ d ∈ w.deliveries context root, d.GoesOut json) :
    w.served json context request
      = .getReady ⟨0, none⟩ :: ((w.deliveries context root).flatMap Delivery.frames
        ++ [.getComplete ⟨UInt64.ofNat ((w.deliveries context root).map fun d => d.bytes.length).sum⟩]) := by
  rw [served, (yields_handleRecursiveGet hjson hroot).ok ⟨hwalk, hout⟩]
  dsimp only
  rw [Progress.wrote, Progress.sent_delivered]
  rfl

end

end FaultyTree

/-! ## What is announced, and what is received -/

/-- The bytes before the next frame that is no chunk, and each header with the bytes behind it. -/
def gather : List Frame → List UInt8 × List (EntryHeader × List UInt8)
  | [] => ([], [])
  | .newEntry header :: rest => ([], (header, (gather rest).1) :: (gather rest).2)
  | .getChunk chunk :: rest => (chunk ++ (gather rest).1, (gather rest).2)
  | _ :: rest => ([], (gather rest).2)

/-- The entries that are announced, and what is received for each of them. -/
def announced (frames : List Frame) : List (EntryHeader × List UInt8) := (gather frames).2

theorem gather_append (front : List Frame) {back : List Frame} (h : (gather back).1 = []) :
    gather (front ++ back) = ((gather front).1, (gather front).2 ++ (gather back).2) := by
  induction front with
  | nil => exact Prod.ext h rfl
  | cons frame front ih =>
      rw [List.cons_append]
      cases frame <;> simp only [gather, ih, List.cons_append]

theorem gather_file (header : EntryHeader) (chunks : List (List UInt8)) :
    gather (.newEntry header :: (chunks.map .getChunk ++ [.entryComplete]))
      = ([], [(header, chunks.flatten)]) := by
  have hchunks : gather (chunks.map .getChunk ++ [.entryComplete]) = (chunks.flatten, []) := by
    induction chunks with
    | nil => rfl
    | cons chunk chunks ih =>
        rw [List.map_cons, List.cons_append, gather, ih, List.flatten_cons]
  rw [gather, hchunks]

/-- A file where the client puts it. -/
def PlacedAs (localRoot : Path) (p : EntryHeader × List UInt8) (q : Path × List UInt8) : Prop :=
  ∃ rel, sanitizeRemotePath p.1.path = .ok rel ∧ q = (localRoot.join rel, p.2)

theorem Tells.gathered {localRoot : Path} {frames : List Frame} {files : List (Path × List UInt8)}
    (h : Tells localRoot frames files) :
    (∀ p ∈ announced frames, ∃ rel, sanitizeRemotePath p.1.path = .ok rel)
      ∧ List.Forall₂ (PlacedAs localRoot) ((announced frames).filter fun p => !p.1.isDir) files := by
  induction h with
  | none => exact ⟨fun _ hp => absurd hp List.not_mem_nil, .nil⟩
  | @dir frames files header rel _ hdir hrel ih =>
      have hone : gather [.newEntry header] = ([], [(header, [])]) := rfl
      rw [announced, gather_append frames (by rw [hone]), hone]
      refine ⟨?_, ?_⟩
      · intro p hp
        rcases List.mem_append.mp hp with hold | hnew
        · exact ih.1 p hold
        · rw [List.mem_singleton.mp hnew]
          exact ⟨rel, hrel⟩
      · have hfilter : [(header, ([] : List UInt8))].filter (fun p => !p.1.isDir) = [] := by
          simp [hdir]
        rw [List.filter_append, hfilter, List.append_nil]
        exact ih.2
  | @file frames files header rel chunks _ hfile hrel ih =>
      rw [announced, gather_append frames (by rw [gather_file]), gather_file]
      refine ⟨?_, ?_⟩
      · intro p hp
        rcases List.mem_append.mp hp with hold | hnew
        · exact ih.1 p hold
        · rw [List.mem_singleton.mp hnew]
          exact ⟨rel, hrel⟩
      · have hfilter : [(header, chunks.flatten)].filter (fun p => !p.1.isDir)
            = [(header, chunks.flatten)] := by
          simp [hfile]
        rw [List.filter_append, hfilter]
        exact List.rel_append ih.2 (.cons ⟨rel, hrel, rfl⟩ .nil)

theorem ofWire_getComplete {frame : TransferFrame} (h : Frame.ofWire frame = .getComplete) :
    ∃ complete, frame = .getComplete complete := by
  cases frame with
  | getComplete complete => exact ⟨complete, rfl⟩
  | _ => cases h

/-- What ends where the other one does is all of it. -/
theorem eq_of_isPrefix {α : Type} {a : α} {front back all : List α} (hnot : a ∉ all)
    (h : front ++ a :: back <+: all ++ [a]) : front = all ∧ back = [] := by
  obtain ⟨more, hmore⟩ := h
  rw [List.append_assoc, List.cons_append] at hmore
  rcases List.append_eq_append_iff.mp hmore with ⟨between, rfl, hrest⟩ | ⟨between, rfl, hrest⟩
  · cases between with
    | nil => exact ⟨(List.append_nil _).symm, (List.append_eq_nil_iff.mp (List.cons.inj hrest).2).1⟩
    | cons b between =>
        rw [(List.cons.inj hrest).1] at hnot
        exact absurd (List.mem_append_right _ List.mem_cons_self) hnot
  · cases between with
    | nil => exact ⟨List.append_nil _, (List.append_eq_nil_iff.mp (List.cons.inj hrest).2.symm).1⟩
    | cons b between =>
        have hnil := (List.cons.inj hrest).2
        simp at hnil

namespace Delivery

/-- The header as the client sees it. -/
def header (d : Delivery) : EntryHeader :=
  ⟨d.entry.relative, d.entry.isDir, d.entry.size.toNat, d.entry.mode.map UInt32.toNat⟩

theorem ofWire_frames (d : Delivery) : d.frames.map Frame.ofWire
    = .newEntry d.header :: if d.entry.isDir then [] else d.chunks.map .getChunk ++ [.entryComplete] := by
  have htext : (String.ofList d.entry.relative).toList = d.entry.relative := String.toList_ofList
  rw [frames, List.map_cons, Frame.ofWire, Client.entryHeader]
  dsimp only
  rw [htext]
  split
  · rfl
  · rw [List.map_append, List.map_map]
    rfl

theorem gather_frames (d : Delivery) : gather (d.frames.map Frame.ofWire) = ([], [(d.header, d.bytes)]) := by
  rw [ofWire_frames]
  by_cases hdir : d.entry.isDir = true
  · rw [if_pos hdir, bytes, chunks, if_pos hdir]
    rfl
  · rw [if_neg hdir]
    exact gather_file _ _

theorem gather_deliveries (ds : List Delivery) :
    gather ((ds.flatMap frames).map Frame.ofWire) = ([], ds.map fun d => (d.header, d.bytes)) := by
  induction ds with
  | nil => rfl
  | cons d ds ih =>
      rw [List.flatMap_cons, List.map_append, gather_append _ (by rw [ih]), gather_frames, ih]
      rfl

theorem getComplete_notMem_frames {ds : List Delivery} :
    Frame.getComplete ∉ (ds.flatMap frames).map Frame.ofWire := by
  intro hmem
  obtain ⟨frame, hframe, hcomplete⟩ := List.mem_map.mp hmem
  obtain ⟨d, -, hd⟩ := List.mem_flatMap.mp hframe
  obtain ⟨complete, rfl⟩ := ofWire_getComplete hcomplete
  rw [frames] at hd
  rcases List.mem_cons.mp hd with hheader | hd
  · cases hheader
  · split at hd
    · exact absurd hd List.not_mem_nil
    · rcases List.mem_append.mp hd with hchunk | hlast
      · obtain ⟨chunk, -, hchunk⟩ := List.mem_map.mp hchunk
        cases hchunk
      · cases List.mem_singleton.mp hlast

end Delivery

/-! ## A client in whose way there is nothing -/

/-- Every operation succeeds. -/
def FsOp.granted (o : FsOp) : o.Answer := ServeOp.idle (.blob (.fs o))

/-- What a program then returns. -/
abbrev grants {α : Type} (p : FsProg α) : α := (p.eval (fun o (_ : Unit) => (o.granted, ())) ()).1

section

variable {localRoot final temp : Path} {header : EntryHeader} {rest : List Frame}

theorem grants_bind {α β : Type} (p : FsProg α) (k : α → FsProg β) :
    grants (p >>= k) = grants (k (grants p)) :=
  congrArg Prod.fst (Prog.eval_bind p k ())

theorem grants_dirEntry (chunks : List (List UInt8)) :
    grants (dirEntry localRoot header final temp (chunks.map .getChunk ++ .entryComplete :: rest))
      = grants (dirLoop localRoot rest) := by
  induction chunks with
  | nil =>
      have hpersist : ∃ u, grants (persistTempFile temp final) = .ok u := by
        unfold persistTempFile createParent
        cases final.parent with
        | none => exact ⟨_, rfl⟩
        | some parent => exact ⟨_, rfl⟩
      obtain ⟨u, hpersist⟩ := hpersist
      rw [List.map_nil, List.nil_append, dirEntry]
      show grants (persistTempFile temp final >>= _) = _
      rw [grants_bind, hpersist]
      exact grants_bind _ _
  | cons chunk chunks ih => exact ih

theorem grants_dirLoop (ds : List Delivery)
    (h : ∀ d ∈ ds, ∃ rel, sanitizeRemotePath d.entry.relative = .ok rel) :
    grants (dirLoop localRoot ((ds.flatMap Delivery.frames).map Frame.ofWire ++ rest))
      = grants (dirLoop localRoot rest) := by
  induction ds with
  | nil => rfl
  | cons d ds ih =>
      obtain ⟨rel, hrel⟩ := h d List.mem_cons_self
      have hrest := ih fun d' hd' => h d' (List.mem_cons_of_mem _ hd')
      rw [List.flatMap_cons, List.map_append, d.ofWire_frames, List.append_assoc, List.cons_append, dirLoop,
        show sanitizeRemotePath d.header.path = .ok rel from hrel]
      dsimp only
      by_cases hdir : d.entry.isDir = true
      · have hheader : d.header.isDir = true := hdir
        rw [if_pos hdir, if_pos hheader]
        exact hrest
      · have hheader : ¬ d.header.isDir = true := hdir
        rw [if_neg hdir, if_neg hheader, List.append_assoc, List.singleton_append, grants_bind]
        exact (grants_dirEntry _).trans hrest

end

/-! ## Damage -/

/-- The files that a run has placed. -/
def placedBy (steps : List (Σ o : FsOp, o.Answer)) : List (Path × List UInt8) :=
  (steps.foldl (fun g step => g.next step.1 step.2) Placement.start).placed

/-- Nothing is damaged: every file has the size that was announced, and is placed so; the sum is that of
the completion; and every path that was announced is there. -/
structure Intact (w : FaultyTree) (localRoot : Path) (received : List TransferFrame)
    (placed : List (Path × List UInt8)) : Prop where
  sizes : ∀ p ∈ announced (received.map Frame.ofWire), p.1.isDir = false → p.2.length = p.1.size
  written : List.Forall₂ (PlacedAs localRoot)
    ((announced (received.map Frame.ofWire)).filter fun p => !p.1.isDir) placed
  total : ∃ complete, .getComplete complete ∈ received
    ∧ complete.size = UInt64.ofNat ((announced (received.map Frame.ofWire)).map fun p => p.2.length).sum
  existing : ∀ p ∈ announced (received.map Frame.ofWire), ∃ e ∈ w.entries, e.path = Utf8.encode p.1.path

namespace FaultyTree

variable {w : FaultyTree} {json : SerdeJson} {context : ShellContext} {request : GetRequest} {root : Path}

/-- Whatever the client has read when the stream ends, and whatever its disk answers. -/
def NeverDamaged (w : FaultyTree) (json : SerdeJson) (context : ShellContext) (request : GetRequest) : Prop :=
  ∀ (localRoot : Path) (received : List TransferFrame) (disk : Nat → (o : FsOp) → o.Answer),
    received <+: w.served json context request →
    (downloadDirWithProgress localRoot (received.map Frame.ofWire)).outcome disk 0 = .ok () →
    Intact w localRoot received
      (placedBy ((downloadDirWithProgress localRoot (received.map Frame.ofWire)).steps disk 0))

/-- Nothing ends the download with an error: the tree is gone through, the headers are within the limit,
the files are opened and read to their end, and the client takes the paths. -/
structure Completes (w : FaultyTree) (json : SerdeJson) (context : ShellContext) (root : Path) : Prop where
  through : w.GoneThrough context
  out : ∀ d ∈ w.deliveries context root, d.GoesOut json
  accepted : ∀ d ∈ w.deliveries context root, ∃ rel, sanitizeRemotePath d.entry.relative = .ok rel

/-- A file is as long as it was listed, and what is listed is there. -/
structure Faithful (w : FaultyTree) (d : Delivery) : Prop where
  size : d.entry.isDir = false → d.bytes.length = d.entry.size.toNat
  existing : ∃ e ∈ w.entries, e.path = Utf8.encode d.entry.relative

theorem announced_served (hjson : Brief json) (hroot : context.resolvePath request.path.toList = .ok root)
    (hwalk : w.GoneThrough context) (hout : ∀ d ∈ w.deliveries context root, d.GoesOut json) :
    announced ((w.served json context request).map Frame.ofWire)
      = (w.deliveries context root).map fun d => (d.header, d.bytes) := by
  rw [served_eq hjson hroot hwalk hout, List.map_cons, List.map_append, announced]
  have hlast (complete : TransferComplete) :
      (gather ((([.getComplete complete] : List TransferFrame)).map Frame.ofWire)) = ([], []) := rfl
  show (gather (_ ++ _)).2 = _
  rw [gather_append _ (by rw [hlast]), hlast, Delivery.gather_deliveries, List.append_nil]

/-- The client gets to its end with what was sent. -/
theorem outcome_served (hjson : Brief json) (hroot : context.resolvePath request.path.toList = .ok root)
    (h : w.Completes json context root) (localRoot : Path) :
    (downloadDirWithProgress localRoot ((w.served json context request).map Frame.ofWire)).outcome
      (fun _ o => o.granted) 0 = .ok () := by
  rw [Prog.outcome_const, served_eq hjson hroot h.through h.out, List.map_cons, List.map_append]
  exact grants_dirLoop _ h.accepted

/-- **A client that got to its end has read all that was sent.** -/
theorem received_all (hjson : Brief json) {localRoot : Path} {received : List TransferFrame}
    {disk : Nat → (o : FsOp) → o.Answer} (hreceived : received <+: w.served json context request)
    (hok : (downloadDirWithProgress localRoot (received.map Frame.ofWire)).outcome disk 0 = .ok ()) :
    ∃ root, context.resolvePath request.path.toList = .ok root ∧ received = w.served json context request
      ∧ w.Completes json context root
      ∧ List.Forall₂ (PlacedAs localRoot)
        (((w.deliveries context root).map fun d => (d.header, d.bytes)).filter fun p => !p.1.isDir)
        (placedBy ((downloadDirWithProgress localRoot (received.map Frame.ofWire)).steps disk 0)) := by
  have hstart : ∃ frames, received.map Frame.ofWire = .getReady :: frames
      ∧ (dirLoop localRoot frames).outcome disk 0 = .ok ()
      ∧ (downloadDirWithProgress localRoot (received.map Frame.ofWire)).steps disk 0
        = (dirLoop localRoot frames).steps disk 0 := by
    cases hframes : received.map Frame.ofWire with
    | nil =>
        rw [hframes] at hok
        cases hok
    | cons frame frames =>
        rw [hframes] at hok
        cases frame with
        | getReady => exact ⟨frames, rfl, hok, rfl⟩
        | _ => cases hok
  obtain ⟨frames, hframes, hloop, hsteps⟩ := hstart
  have hplaces := (places_loops localRoot frames).1 .start [] rfl rfl
    (fun _ hp => absurd hp List.not_mem_nil) .none
  have hends := @Prog.Tracks.outcome _ _ _ _ _ _ _ _ disk _ hplaces 0
  rw [List.nil_append] at hends
  obtain ⟨told, rest, rfl, htells, -, -, hdone⟩ := hends
  obtain ⟨-, -, after, rfl⟩ := hdone hloop
  obtain ⟨frame, hmem, hframe⟩ : ∃ frame ∈ received, Frame.ofWire frame = .getComplete := by
    refine List.mem_map.mp ?_
    rw [hframes]
    exact List.mem_cons_of_mem _ (List.mem_append_right _ List.mem_cons_self)
  obtain ⟨complete, rfl⟩ := ofWire_getComplete hframe
  obtain ⟨root, hroot, hwalk, hout⟩ := complete_mem_served hjson (hreceived.subset hmem)
  have hserved := served_eq hjson hroot hwalk hout
  -- the completion is the last frame, so what was told are all the entries
  have hwritten := hreceived.map Frame.ofWire
  rw [hserved, hframes, List.map_cons, List.map_append] at hwritten
  obtain ⟨rfl, rfl⟩ := eq_of_isPrefix Delivery.getComplete_notMem_frames (List.cons_prefix_cons.mp hwritten).2
  have hall : received = w.served json context request := by
    refine hreceived.eq_of_length ?_
    have hlen := congrArg List.length hframes
    rw [List.length_map] at hlen
    rw [hlen, hserved]
    simp
  obtain ⟨haccepted, hplaced⟩ := htells.gathered
  rw [announced, Delivery.gather_deliveries] at haccepted hplaced
  refine ⟨root, hroot, hall, ⟨hwalk, hout, fun d hd => haccepted _ (List.mem_map_of_mem hd)⟩, ?_⟩
  rw [hsteps]
  exact hplaced

/-- Names that are UTF-8 are announced as they are, unless `find` is cut off. -/
theorem existing_of_whole
    (hwhole : context.isLive = true → (w.found.flatMap RemoteEntry.printed).length ≤ w.cut)
    (hutf : ∀ e ∈ w.entries, Utf8.encode e.shown = e.path) {d : Delivery}
    (hd : d ∈ w.deliveries context root) :
    ∃ e ∈ w.entries, e.path = Utf8.encode d.entry.relative := by
  obtain ⟨e, he, hshown⟩ : ∃ e ∈ w.entries, d.entry.relative = e.shown := by
    have hentry := Delivery.mem_of_mem_supply hd
    unfold listed at hentry
    split at hentry
    · rename_i hlive
      obtain ⟨e, he, hshown⟩ := RemoteEntry.listing_shown (hwhole hlive) hentry
      exact ⟨e, w.finds e he, hshown⟩
    · obtain ⟨e, he, hwalked⟩ := List.mem_filterMap.mp hentry
      refine ⟨e, w.walks e he, ?_⟩
      rw [RemoteEntry.walkedAt] at hwalked
      split at hwalked
      · cases hwalked
      · exact (congrArg WalkEntry.relative (Option.some.inj hwalked)).symm
  exact ⟨e, he, by rw [hshown, hutf e he]⟩

/-- A client in whose way there is nothing shows what is damaged. -/
theorem NeverDamaged.faithful (hjson : Brief json) (h : w.NeverDamaged json context request)
    (hroot : context.resolvePath request.path.toList = .ok root) (hcompletes : w.Completes json context root)
    {d : Delivery} (hd : d ∈ w.deliveries context root) : w.Faithful d := by
  have hintact := h .dot _ _ List.prefix_rfl (outcome_served hjson hroot hcompletes .dot)
  have hmem : (d.header, d.bytes) ∈ announced ((w.served json context request).map Frame.ofWire) := by
    rw [announced_served hjson hroot hcompletes.through hcompletes.out]
    exact List.mem_map_of_mem hd
  exact ⟨hintact.sizes _ hmem, hintact.existing _ hmem⟩

/-- What a client that got to its end has, where nothing is damaged. -/
theorem intact_of_faithful (hjson : Brief json) (hroot : context.resolvePath request.path.toList = .ok root)
    (hcompletes : w.Completes json context root) (h : ∀ d ∈ w.deliveries context root, w.Faithful d)
    {localRoot : Path} {placed : List (Path × List UInt8)}
    (hplaced : List.Forall₂ (PlacedAs localRoot)
      (((w.deliveries context root).map fun d => (d.header, d.bytes)).filter fun p => !p.1.isDir) placed) :
    Intact w localRoot (w.served json context request) placed := by
  have hannounced := announced_served hjson hroot hcompletes.through hcompletes.out
  refine ⟨?_, ?_, ⟨⟨UInt64.ofNat ((w.deliveries context root).map fun d => d.bytes.length).sum⟩, ?_, ?_⟩, ?_⟩
  · rw [hannounced]
    intro p hp
    obtain ⟨d, hd, rfl⟩ := List.mem_map.mp hp
    exact (h d hd).size
  · rw [hannounced]
    exact hplaced
  · rw [served_eq hjson hroot hcompletes.through hcompletes.out]
    exact List.mem_cons_of_mem _ (List.mem_append_right _ (List.mem_singleton_self _))
  · rw [hannounced, List.map_map]
    rfl
  · rw [hannounced]
    intro p hp
    obtain ⟨d, hd, rfl⟩ := List.mem_map.mp hp
    exact (h d hd).existing

end FaultyTree

namespace Proof

open FaultyTree

/-- **A download that reports success is not damaged** if and only if every file gives as many bytes as it
was listed with and every path that is announced is there, or something ends it with an error. -/
theorem never_damaged_iff {json : SerdeJson} (hjson : Brief json) (w : FaultyTree) (context : ShellContext)
    (request : GetRequest) :
    w.NeverDamaged json context request
      ↔ ∀ root, context.resolvePath request.path.toList = .ok root → w.Completes json context root →
        ∀ d ∈ w.deliveries context root, w.Faithful d := by
  refine ⟨fun h root hroot hcompletes d hd => h.faithful hjson hroot hcompletes hd, ?_⟩
  intro h localRoot received disk hreceived hok
  obtain ⟨root, hroot, rfl, hcompletes, hplaced⟩ := received_all hjson hreceived hok
  exact intact_of_faithful hjson hroot hcompletes (h root hroot hcompletes) hplaced

/-! ### Runs of it -/

/-- A file of five bytes. -/
def fiveBytes : RemoteEntry where
  path := [97, 98]
  fileType := .file
  metadata := ⟨5, 0o100644⟩
  named := by decide
  noNul := by decide
  normal := by decide

/-- The file, of which these chunks are read; `cut` bytes of `find`'s output are left. -/
def servedFile (cut : Nat) (reads : List (List UInt8)) (h : ∀ chunk ∈ reads, chunk.length ≤ maxChunkBytes) :
    FaultyTree where
  entries := [fiveBytes]
  rootMeta := ⟨4096, 0o40755⟩
  walk := [fiveBytes]
  walks := fun _ he => he
  walkable := true
  found := [fiveBytes]
  finds := fun _ he => he
  spawns := true
  cut := cut
  broken := false
  sources := fun _ => some ⟨reads, false⟩
  bounded := by
    rintro n source hsource
    cases hsource
    exact h

/-- What becomes of it on the way. -/
theorem servedFile_completes {cut : Nat} {reads : List (List UInt8)}
    {h : ∀ chunk ∈ reads, chunk.length ≤ maxChunkBytes} {context : ShellContext} {root : Path} {d : Delivery}
    (hd : (servedFile cut reads h).deliveries context root = [d]) (hsource : d.source = some ⟨reads, false⟩)
    (hfits : (d.entry.relative.flatMap jsonChar).length ≤ 1024)
    (haccepted : ∃ rel, sanitizeRemotePath d.entry.relative = .ok rel) :
    (servedFile cut reads h).Completes downloadJson context root where
  through := by
    unfold GoneThrough
    split
    · exact ⟨rfl, rfl⟩
    · rfl
  out := by
    intro d' hd'
    rw [hd, List.mem_singleton] at hd'
    rw [hd']
    refine ⟨fits_newEntry ?_, fun _ => ⟨_, hsource, .inl rfl⟩⟩
    rw [Client.entryHeader, String.toList_ofList]
    exact hfits
  accepted := by
    intro d' hd'
    rw [hd, List.mem_singleton] at hd'
    rw [hd']
    exact haccepted

/-- The file as it is announced. -/
def announcedFile (root : Path) (reads : List (List UInt8)) : Delivery :=
  ⟨⟨['a', 'b'], root.join (parse ['a', 'b']), false, 5, some 0o644⟩, some ⟨reads, false⟩⟩

/-- And where `find` is cut off in its name. -/
def cutFile (root : Path) (reads : List (List UInt8)) : Delivery :=
  ⟨⟨['a'], root.join (parse ['a']), false, 0, none⟩, some ⟨reads, false⟩⟩

/-- **The file gives five bytes.** -/
theorem never_damaged_unchanged :
    (servedFile 100 [[1, 2, 3, 4, 5]] (by decide)).NeverDamaged downloadJson (.live 1 none none)
      ⟨"/l", true⟩ := by
  refine (never_damaged_iff downloadJson_brief _ _ _).mpr fun root hroot _ d hd => ?_
  have hdeliveries : (servedFile 100 [[1, 2, 3, 4, 5]] (by decide)).deliveries (.live 1 none none) root
      = [announcedFile root [[1, 2, 3, 4, 5]]] := rfl
  rw [hdeliveries, List.mem_singleton] at hd
  rw [hd]
  exact ⟨fun _ => rfl, fiveBytes, List.mem_singleton_self _, rfl⟩

/-- **It gives nothing**, walked or listed, or `find` is cut off in the middle of its name. -/
theorem damage_unnoticed :
    ¬ (servedFile 100 [] (by decide)).NeverDamaged downloadJson (.stateless none) ⟨"/l", true⟩
      ∧ ¬ (servedFile 100 [] (by decide)).NeverDamaged downloadJson (.live 1 none none) ⟨"/l", true⟩
      ∧ ¬ (servedFile 4 [] (by decide)).NeverDamaged downloadJson (.live 1 none none) ⟨"/l", true⟩ := by
  have hstateless : (ShellContext.stateless none).resolvePath ['/', 'l'] = .ok (parse ['/', 'l']) := rfl
  have hlive : (ShellContext.live 1 none none).resolvePath ['/', 'l'] = .ok (parse ['/', 'l']) := rfl
  refine ⟨fun h => ?_, fun h => ?_, fun h => ?_⟩
  · have hd : (servedFile 100 [] (by decide)).deliveries (.stateless none) (parse ['/', 'l'])
        = [announcedFile (parse ['/', 'l']) []] := rfl
    have hfaithful := h.faithful downloadJson_brief hstateless
      (servedFile_completes hd rfl (by decide) ⟨_, rfl⟩) (hd ▸ List.mem_singleton_self _)
    have hsize : (0 : Nat) = 5 := hfaithful.size rfl
    cases hsize
  · have hd : (servedFile 100 [] (by decide)).deliveries (.live 1 none none) (parse ['/', 'l'])
        = [announcedFile (parse ['/', 'l']) []] := rfl
    have hfaithful := h.faithful downloadJson_brief hlive
      (servedFile_completes hd rfl (by decide) ⟨_, rfl⟩) (hd ▸ List.mem_singleton_self _)
    have hsize : (0 : Nat) = 5 := hfaithful.size rfl
    cases hsize
  · have hd : (servedFile 4 [] (by decide)).deliveries (.live 1 none none) (parse ['/', 'l'])
        = [cutFile (parse ['/', 'l']) []] := rfl
    have hfaithful := h.faithful downloadJson_brief hlive
      (servedFile_completes hd rfl (by decide) ⟨_, rfl⟩) (hd ▸ List.mem_singleton_self _)
    obtain ⟨e, he, hpath⟩ := hfaithful.existing
    rw [List.mem_singleton.mp he] at hpath
    exact absurd hpath (by decide)

end Proof

end Irosh
