import Mathlib.Algebra.Order.BigOperators.Group.List
import Mathlib.Algebra.Order.Group.Nat
import Irosh.Transfer.UploadBlob
import Irosh.Proof.BlobPut
import Irosh.Proof.RecursiveUpload

/-!
# A directory has one hash

`upload_blob_dir` and `add_directory_to_store` both make a collection of a directory: the
regular files below it, sorted by name, each with the hash of its contents. The client
makes it of the local directory, and the server makes it of the target once it has
exported the client's collection there.

The two collections are the same if the target has nothing but the exported files in it.
The upload refuses a target that exists. But it asks for the path, and a path that leads
through a missing directory and back by `..` does not exist until the export makes that
directory; what the target had before is then there beside the exported files.
-/

namespace Irosh

open UnixPath Wire FileTree BlobWorld

variable {f : StoreFormat}

/-! ## Collections -/

/-- What is relied on: a collection can be loaded from its blobs. Its hashes are hashes of
something. -/
def LoadsBack (f : StoreFormat) (toBlobs : Collection → List (List UInt8)) : Prop :=
  ∀ lookup collection root, (∀ entry ∈ collection, ∃ data, f.hashOf data = entry.2) →
    ((toBlobs collection).map f.hashOf).getLast? = some root →
    (∀ blob ∈ toBlobs collection, lookup (f.hashOf blob) = some blob) →
    f.load lookup root = some collection

/-- Names with the hashes of their contents. -/
def manifest (f : StoreFormat) (content : List Char → List UInt8) (names : List (List Char)) :
    Collection :=
  names.map fun name => (name, f.hashOf (content name))

theorem manifest_hashes {content : List Char → List UInt8} {names : List (List Char)}
    {entry : List Char × Hash} (h : entry ∈ manifest f content names) :
    ∃ data, f.hashOf data = entry.2 := by
  obtain ⟨name, -, rfl⟩ := List.mem_map.mp h
  exact ⟨content name, rfl⟩

/-- Different collections have different root hashes. -/
theorem LoadsBack.root_injective {toBlobs : Collection → List (List UInt8)}
    (h : LoadsBack f toBlobs) (hhash : Function.Injective f.hashOf) {c c' : Collection}
    (hc : ∀ entry ∈ c, ∃ data, f.hashOf data = entry.2)
    (hc' : ∀ entry ∈ c', ∃ data, f.hashOf data = entry.2) {root : Hash}
    (hroot : ((toBlobs c).map f.hashOf).getLast? = some root)
    (hroot' : ((toBlobs c').map f.hashOf).getLast? = some root) : c = c' := by
  -- in a store that has the blobs of both
  have hfind : ∀ blob ∈ toBlobs c ++ toBlobs c',
      (toBlobs c ++ toBlobs c').find? (fun b => f.hashOf b = f.hashOf blob) = some blob := by
    intro blob hblob
    cases hf : (toBlobs c ++ toBlobs c').find? fun b => f.hashOf b = f.hashOf blob with
    | none =>
        have hnot := List.find?_eq_none.mp hf blob hblob
        simp at hnot
    | some found =>
        have heq : f.hashOf found = f.hashOf blob := by simpa using List.find?_some hf
        rw [hhash heq]
  have hload := h (fun hash => (toBlobs c ++ toBlobs c').find? fun b => f.hashOf b = hash) c root hc
    hroot fun blob hblob => hfind blob (List.mem_append_left _ hblob)
  have hload' := h (fun hash => (toBlobs c ++ toBlobs c').find? fun b => f.hashOf b = hash) c' root hc'
    hroot' fun blob hblob => hfind blob (List.mem_append_right _ hblob)
  exact Option.some.inj (hload.symm.trans hload')

/-- What a blob of the store is found under. -/
theorem lookup_hashOf (hhash : Function.Injective f.hashOf) {w : BlobWorld} {blob : List UInt8}
    (h : blob ∈ w.store) : w.lookup f (f.hashOf blob) = some blob := by
  have hsome : (w.lookup f (f.hashOf blob)).isSome := lookup_isSome_iff.mpr ⟨blob, h, rfl⟩
  obtain ⟨found, hfound⟩ := Option.isSome_iff_exists.mp hsome
  have heq : f.hashOf found = f.hashOf blob := by simpa using List.find?_some hfound
  rw [hfound, hhash heq]

/-! ## The stream -/

theorem leadingChunks_append (chunks : List (List UInt8)) (complete : TransferComplete) :
    leadingChunks (chunks.map .putChunk ++ [.putComplete complete]) = chunks := by
  induction chunks with
  | nil => rfl
  | cons chunk chunks ih => exact congrArg (List.cons chunk) ih

theorem flatten_splitChunks (data : List UInt8) : (splitChunks data).flatten = data := by
  induction data using splitChunks.induct with
  | case1 data h0 =>
      rw [splitChunks, if_pos h0, List.length_eq_zero_iff.mp h0]
      rfl
  | case2 data h0 ih =>
      rw [splitChunks, if_neg h0, List.flatten_cons, ih, List.take_append_drop]

theorem length_flatten_sendRawBlob (blobs : List (List UInt8)) :
    (blobs.flatMap sendRawBlob).flatten.length = (blobs.map sentBytes).sum := by
  induction blobs with
  | nil => rfl
  | cons data blobs ih =>
      rw [List.flatMap_cons, List.flatten_append, List.length_append, ih, List.map_cons,
        List.sum_cons, sendRawBlob, List.flatten_cons, flatten_splitChunks, List.length_append,
        BigEndian.length_beEncode, sentBytes]

/-- The blobs that the client's frames carry, if they are within the cap. -/
theorem carried_sendBlobs {blobs : List (List UInt8)}
    (hcap : (leadingChunks (sendBlobs blobs)).flatten.length ≤ maxInMemoryTransferBytes) :
    (blobs.map sentBytes).sum ≤ maxInMemoryTransferBytes
      ∧ HashSeq.init.carried (leadingChunks (sendBlobs blobs)) = blobs := by
  have hsum : (blobs.map sentBytes).sum ≤ maxInMemoryTransferBytes := by
    rw [sendBlobs, leadingChunks_append, length_flatten_sendRawBlob] at hcap
    exact hcap
  refine ⟨hsum, ?_⟩
  -- a server on which everything works stores them
  obtain ⟨w', he, hs⟩ := @recv_blobs ⟨id, fun _ _ => none, fun _ => []⟩ blobs 0 0
    ⟨[], [], [], [], fun _ => .works, 0⟩ (fun _ => rfl) (by omega)
    [.putComplete ⟨UInt64.ofNat (blobs.map sentBytes).sum⟩]
  have hstores := (recvHashSeq_stores he).store
  rw [hs.store, List.nil_append, List.nil_append] at hstores
  exact hstores.symm

/-! ## The client -/

/-- The store's adds end with a hash, or fail. -/
def Settles (w : BlobWorld) : Prop := ∀ n, w.fate n ≠ .halfway

theorem addCollectionBlobs_ofStore (root : Option Hash) (total : Nat) (blobs : List (List UInt8)) :
    (addCollectionBlobs root total blobs).Always BlobOp.OfStore := by
  induction blobs generalizing root total with
  | nil =>
      cases root with
      | none => exact Prog.always_pure _
      | some root => exact Prog.always_pure _
  | cons data blobs ih =>
      refine ⟨trivial, fun added => ?_⟩
      rcases added with _ | _ | hash
      · exact Prog.always_pure _
      · exact ih root _
      · exact ih (some hash) _

/-- The root is the last hash. -/
theorem addCollectionBlobs_ok_inv {root : Option Hash} {total n : Nat} {blobs : List (List UInt8)}
    {w w' : BlobWorld} {h : Hash} (hw : Settles w)
    (hrun : run f (addCollectionBlobs root total blobs) w = (.ok (h, n), w')) :
    (blobs.map f.hashOf).getLast?.or root = some h ∧ OnlyStores w w' blobs := by
  induction blobs generalizing root total w with
  | nil =>
      cases root with
      | none => cases hrun
      | some root =>
          cases hrun
          exact ⟨rfl, OnlyStores.refl _⟩
  | cons data blobs ih =>
      rw [addCollectionBlobs, run_addBytes] at hrun
      cases hn : w.next with
      | fails =>
          rw [hn] at hrun
          cases hrun
      | halfway => exact absurd hn (hw w.tick)
      | works =>
          rw [hn] at hrun
          obtain ⟨hroot, hs⟩ := ih
            (w := { w.after with store := w.store ++ [data], added := w.added ++ [data] }) hw hrun
          refine ⟨?_, (OnlyStores.one w data).trans hs⟩
          rw [List.map_cons, List.getLast?_cons]
          cases hlast : (blobs.map f.hashOf).getLast? with
          | none =>
              rw [hlast] at hroot
              exact hroot
          | some last =>
              rw [hlast] at hroot
              exact hroot

theorem addCollectionBlobs_lucky {root : Option Hash} {total : Nat} {blobs : List (List UInt8)}
    {w : BlobWorld} {h : Hash} (hw : Lucky w)
    (hroot : (blobs.map f.hashOf).getLast?.or root = some h) :
    ∃ n w', run f (addCollectionBlobs root total blobs) w = (.ok (h, n), w') := by
  induction blobs generalizing root total w with
  | nil =>
      have hsome : root = some h := hroot
      rw [hsome]
      exact ⟨total, w, rfl⟩
  | cons data blobs ih =>
      have hn : w.next = .works := hw w.tick
      rw [addCollectionBlobs, run_addBytes, hn]
      refine ih hw ?_
      rw [List.map_cons, List.getLast?_cons] at hroot
      cases hlast : (blobs.map f.hashOf).getLast? with
      | none =>
          rw [hlast] at hroot
          exact hroot
      | some last =>
          rw [hlast] at hroot
          exact hroot

namespace BlobClient

/-- What a part of the upload has added to the store and sent. -/
structure Goes (w w' : BlobClient) (blobs : List (List UInt8)) (frames : List TransferFrame) :
    Prop where
  files : w'.files = w.files
  store : w'.blob.store = w.blob.store ++ blobs
  sent : w'.blob.sent = w.blob.sent ++ frames
  fate : w'.blob.fate = w.blob.fate

theorem Goes.refl (w : BlobClient) : Goes w w [] [] := ⟨rfl, by simp, by simp, rfl⟩

theorem Goes.trans {w w₁ w₂ : BlobClient} {bs cs : List (List UInt8)}
    {fs gs : List TransferFrame} (h : Goes w w₁ bs fs) (h' : Goes w₁ w₂ cs gs) :
    Goes w w₂ (bs ++ cs) (fs ++ gs) where
  files := h'.files.trans h.files
  store := by rw [h'.store, h.store, List.append_assoc]
  sent := by rw [h'.sent, h.sent, List.append_assoc]
  fate := h'.fate.trans h.fate

theorem Goes.settles {w w' : BlobClient} {bs : List (List UInt8)} {fs : List TransferFrame}
    (h : Goes w w' bs fs) (hw : Settles w.blob) : Settles w'.blob := by
  intro n
  rw [h.fate]
  exact hw n

variable {w w' : BlobClient} {localRoot : Path}

/-- A program on the store, run by the client. -/
theorem run_upload {α : Type} {p : BlobProg α} (hp : p.Always BlobOp.OfStore) :
    run f (BlobProg.upload p) w
      = ((BlobWorld.run f p w.blob).1, { w with blob := (BlobWorld.run f p w.blob).2 }) := by
  have hlift : run f (BlobProg.upload p) w
      = p.eval (fun o s => ((answer f (.blob o) s).1, (answer f (.blob o) s).2)) w :=
    Prog.eval_lift _ _ p w
  rw [hlift]
  refine hp.eval_part blob (fun w b => { w with blob := b }) (fun _ => rfl)
    (fun _ _ => rfl) (fun _ _ _ => rfl) ?_ w
  intro o w ho
  cases o with
  | readFile p => exact absurd ho id
  | _ => rfl

variable {α : Type}

theorem run_walkDir (p : Path) (k : List (Option WalkDirEntry) → UploadProg α) :
    run f (do let walked : List (Option WalkDirEntry) ← (UploadOp.walkDir p).perform; k walked) w
      = run f (k w.walked) w.after := rfl

theorem run_readFile (p : Path) (k : Option (List UInt8) → UploadProg α) :
    run f (do let data : Option (List UInt8) ← (UploadOp.blob (.readFile p)).perform; k data) w
      = run f (k (if w.blob.next = .works then w.files p else none)) w.after := rfl

theorem run_readBlob (hash : Hash) (k : Option (List UInt8) → UploadProg α) :
    run f (do let data : Option (List UInt8) ← (UploadOp.readBlob hash).perform; k data) w
      = run f (k (if w.blob.next = .works then w.blob.lookup f hash else none)) w.after := rfl

theorem run_openStream (k : Bool → UploadProg α) :
    run f (do let opened : Bool ← UploadOp.openStream.perform; k opened) w
      = run f (k (decide (w.blob.next = .works))) w.after := rfl

theorem run_addBytes (blob : List UInt8) (k : Except Unit (Option Hash) → UploadProg α) :
    run f (do let added : Except Unit (Option Hash) ← (UploadOp.blob (.addBytes blob)).perform; k added) w
      = run f (k (w.blob.answer f (.addBytes blob)).1)
        { w with blob := (w.blob.answer f (.addBytes blob)).2 } := rfl

theorem Goes.of_after {bs : List (List UInt8)} {fs : List TransferFrame} (h : Goes w.after w' bs fs) :
    Goes w w' bs fs := ⟨h.files, h.store, h.sent, h.fate⟩

/-- The contents of a local file. -/
def content (w : BlobClient) (localRoot : Path) (name : List Char) : List UInt8 :=
  (w.files (localRoot.join (parse name))).getD []

theorem addLocalFiles_ok_inv {names : List (List Char)} {c c' : Collection} (hw : Settles w.blob)
    (h : run f (Client.addLocalFiles localRoot c names) w = (.ok c', w')) :
    c' = c ++ manifest f (w.content localRoot) names
      ∧ Goes w w' (names.map (w.content localRoot)) [] := by
  induction names generalizing c w with
  | nil =>
      cases h
      refine ⟨?_, Goes.refl _⟩
      rw [manifest, List.map_nil, List.append_nil]
  | cons name names ih =>
      rw [Client.addLocalFiles, run_readFile] at h
      by_cases hn : w.blob.next = .works
      · rw [if_pos hn] at h
        cases hdata : w.files (localRoot.join (parse name)) with
        | none =>
            rw [hdata] at h
            cases h
        | some data =>
            rw [hdata] at h
            dsimp only at h
            rw [run_addBytes, BlobWorld.answer] at h
            cases hadd : w.after.blob.next with
            | fails =>
                rw [hadd] at h
                cases h
            | halfway => exact absurd hadd (hw (w.blob.tick + 1))
            | works =>
                rw [hadd] at h
                obtain ⟨hc, hgoes⟩ := ih (w := { w.after with
                  blob := { w.after.blob.after with
                    store := w.blob.store ++ [data]
                    added := w.blob.added ++ [data] } }) hw h
                have hcontent : w.content localRoot name = data := by rw [content, hdata]; rfl
                have hone : Goes w { w.after with
                    blob := { w.after.blob.after with
                      store := w.blob.store ++ [data]
                      added := w.blob.added ++ [data] } } [data] [] :=
                  ⟨rfl, rfl, (List.append_nil _).symm, rfl⟩
                refine ⟨?_, ?_⟩
                · rw [hc, List.append_assoc, manifest, manifest, List.map_cons, hcontent]
                  rfl
                · rw [List.map_cons, hcontent]
                  exact hone.trans hgoes
      · rw [if_neg hn] at h
        cases h

theorem run_send (frame : TransferFrame) (k : Bool → UploadProg α) :
    run f (do let sent : Bool ← (UploadOp.blob (.send frame)).perform; k sent) w
      = if w.blob.next = .works then
          run f (k true) { w with blob := { w.blob.after with sent := w.blob.sent ++ [frame] } }
        else run f (k false) w.after := by
  by_cases hn : w.blob.next = .works
  all_goals
    simp only [run, Bind.bind, Prog.bind, UploadOp.perform, Prog.perform, Prog.eval, answer,
      BlobWorld.answer, hn, if_true, if_false, after]

theorem sendFrame_ok_inv {frame : TransferFrame} {u : Unit}
    (h : run f (Client.sendFrame frame) w = (.ok u, w')) : Goes w w' [] [frame] := by
  rw [Client.sendFrame, run_send] at h
  by_cases hn : w.blob.next = .works
  · rw [if_pos hn] at h
    cases h
    exact ⟨rfl, (List.append_nil _).symm, rfl, rfl⟩
  · rw [if_neg hn] at h
    cases h

theorem sendChunks_ok_inv {chunks : List (List UInt8)} {u : Unit}
    (h : run f (Client.sendChunks chunks) w = (.ok u, w')) :
    Goes w w' [] (chunks.map .putChunk) := by
  induction chunks generalizing w with
  | nil =>
      cases h
      exact Goes.refl _
  | cons chunk chunks ih =>
      obtain ⟨u₁, w₁, hfirst, hrest⟩ := Prog.eval_bind_ok h fun _ => rfl
      exact (sendFrame_ok_inv hfirst).trans (ih hrest)

/-- The frames that carry some blobs. -/
def blobFrames (blobs : List (List UInt8)) : List TransferFrame :=
  (blobs.flatMap sendRawBlob).map .putChunk

theorem blobFrames_cons (data : List UInt8) (blobs : List (List UInt8)) :
    blobFrames (data :: blobs) = (sendRawBlob data).map .putChunk ++ blobFrames blobs := by
  rw [blobFrames, List.flatMap_cons, List.map_append, blobFrames]

theorem sendRawBlobs_ok_inv {blobs : List (List UInt8)} {sent n : Nat}
    (h : run f (Client.sendRawBlobs sent blobs) w = (.ok n, w')) :
    n = sent + (blobs.map sentBytes).sum ∧ Goes w w' [] (blobFrames blobs) := by
  induction blobs generalizing sent w with
  | nil =>
      cases h
      exact ⟨rfl, Goes.refl _⟩
  | cons data blobs ih =>
      obtain ⟨u, w₁, hfirst, hrest⟩ := Prog.eval_bind_ok h fun _ => rfl
      obtain ⟨hn, hgoes⟩ := ih hrest
      refine ⟨?_, ?_⟩
      · rw [hn, List.map_cons, List.sum_cons, Nat.add_assoc]
      · rw [blobFrames_cons]
        exact (sendChunks_ok_inv hfirst).trans hgoes

/-- What the client reads back from its store is what it has added. -/
theorem sendChildren_ok_inv (hhash : Function.Injective f.hashOf) {names : List (List Char)}
    {content : List Char → List UInt8} (hstore : ∀ name ∈ names, content name ∈ w.blob.store)
    {sent n : Nat}
    (h : run f (Client.sendChildren sent (manifest f content names)) w = (.ok n, w')) :
    n = sent + ((names.map content).map sentBytes).sum
      ∧ Goes w w' [] (blobFrames (names.map content)) := by
  induction names generalizing sent w with
  | nil =>
      cases h
      exact ⟨rfl, Goes.refl _⟩
  | cons name names ih =>
      rw [manifest, List.map_cons, Client.sendChildren, run_readBlob,
        lookup_hashOf hhash (hstore name List.mem_cons_self)] at h
      by_cases hn : w.blob.next = .works
      · rw [if_pos hn] at h
        obtain ⟨u, w₁, hfirst, hrest⟩ := Prog.eval_bind_ok h fun _ => rfl
        have hsent := sendChunks_ok_inv hfirst
        have hstore₁ : ∀ name ∈ names, content name ∈ w₁.blob.store := by
          intro m hm
          rw [hsent.store, List.append_nil]
          exact hstore m (List.mem_cons_of_mem _ hm)
        obtain ⟨hcount, hgoes⟩ := ih hstore₁ hrest
        refine ⟨?_, ?_⟩
        · rw [hcount, List.map_cons, List.map_cons, List.sum_cons, Nat.add_assoc]
        · rw [List.map_cons, blobFrames_cons]
          exact hsent.of_after.trans hgoes
      · rw [if_neg hn] at h
        cases h

/-- A confirmed upload has been confirmed with what was sent. -/
theorem confirmBlob_ok_inv {root h : Hash} {sent : Nat} {replies : List TransferFrame}
    (hok : Client.confirmBlob root sent replies = .ok h) :
    h = root ∧ ∃ complete rest, replies = .putComplete complete :: rest := by
  unfold Client.confirmBlob at hok
  split at hok
  · cases hok
  · rename_i complete rest
    split_ifs at hok
    cases hok
    exact ⟨rfl, complete, rest, rfl⟩
  · cases hok
  · cases hok

theorem sendCollection_ok_inv (hhash : Function.Injective f.hashOf) {names : List (List Char)}
    {content : List Char → List UInt8} (hstore : ∀ name ∈ names, content name ∈ w.blob.store)
    {blobs : List (List UInt8)} {root h : Hash} {replies : List TransferFrame}
    (hrun : run f (Client.sendCollection blobs (manifest f content names) root replies) w
      = (.ok h, w')) :
    h = root ∧ (∃ complete rest, replies = .putComplete complete :: rest)
      ∧ Goes w w' [] (sendBlobs (names.map content ++ blobs)) := by
  obtain ⟨sent, w₁, hchildren, hrun⟩ := Prog.eval_bind_ok hrun fun _ => rfl
  obtain ⟨total, w₂, hblobs, hrun⟩ := Prog.eval_bind_ok hrun fun _ => rfl
  obtain ⟨u, w₃, hcomplete, hrun⟩ := Prog.eval_bind_ok hrun fun _ => rfl
  obtain ⟨hsent, hgoes₁⟩ := sendChildren_ok_inv hhash hstore hchildren
  obtain ⟨htotal, hgoes₂⟩ := sendRawBlobs_ok_inv hblobs
  have hgoes₃ := sendFrame_ok_inv hcomplete
  cases hrun' : Client.confirmBlob root total replies with
  | error e =>
      dsimp only at hrun
      rw [hrun'] at hrun
      cases hrun
  | ok h' =>
      dsimp only at hrun
      rw [hrun'] at hrun
      cases hrun
      obtain ⟨hroot, hreplies⟩ := confirmBlob_ok_inv hrun'
      refine ⟨hroot, hreplies, ?_⟩
      have hgoes := (hgoes₁.trans hgoes₂).trans hgoes₃
      have hsum : total = ((names.map content ++ blobs).map sentBytes).sum := by
        rw [htotal, hsent, List.map_append, List.sum_append, Nat.zero_add]
      rw [sendBlobs, List.flatMap_append, List.map_append, ← hsum]
      exact hgoes

/-- What a confirmed conversation was. -/
theorem putCollection_ok_inv (hhash : Function.Injective f.hashOf) {names : List (List Char)}
    {content : List Char → List UInt8} (hstore : ∀ name ∈ names, content name ∈ w.blob.store)
    {blobs : List (List UInt8)} {remote : Path} {rootText : String} {root h : Hash} {total : Nat}
    {replies : List TransferFrame}
    (hrun : run f (Client.putCollection blobs (manifest f content names) remote rootText root total
      replies) w = (.ok h, w')) :
    h = root ∧ (∃ ready complete rest, replies = .putReady ready :: .putComplete complete :: rest)
      ∧ Goes w w' [] (.blobPutRequest (Client.blobDirRequest remote rootText total)
        :: sendBlobs (names.map content ++ blobs)) := by
  unfold Client.putCollection at hrun
  rw [run_openStream] at hrun
  by_cases hn : w.blob.next = .works
  · rw [decide_eq_true hn, if_pos rfl] at hrun
    obtain ⟨u, w₁, hrequest, hanswered⟩ := Prog.eval_bind_ok hrun fun _ => rfl
    have hgoes := (sendFrame_ok_inv hrequest).of_after
    clear hrun
    dsimp only at hanswered
    split at hanswered
    · cases hanswered
    · rename_i ready rest
      have hstore₁ : ∀ name ∈ names, content name ∈ w₁.blob.store := by
        intro m hm
        rw [hgoes.store, List.append_nil]
        exact hstore m hm
      obtain ⟨hroot, ⟨complete, rest', hrest⟩, hgoes'⟩ := sendCollection_ok_inv hhash hstore₁ hanswered
      exact ⟨hroot, ⟨ready, complete, rest', by rw [hrest]⟩, hgoes.trans hgoes'⟩
    · cases hanswered
    · cases hanswered
  · rw [decide_eq_false hn, if_neg Bool.false_ne_true] at hrun
    cases hrun

/-- What a confirmed upload has sent. -/
theorem uploadBlobDir_ok_inv (hhash : Function.Injective f.hashOf) (hw : Settles w.blob)
    {toBlobs : Collection → List (List UInt8)} {hashText : Hash → String} {remote : Path}
    {replies : List TransferFrame} {h : Hash} {names : List (List Char)}
    (hnames : Client.collectFilesRecursive w.walked = some names)
    (hrun : run f (Client.uploadBlobDir toBlobs hashText localRoot remote replies) w = (.ok h, w')) :
    ((toBlobs (manifest f (w.content localRoot) (sortNames names))).map f.hashOf).getLast? = some h
      ∧ (∃ ready complete rest, replies = .putReady ready :: .putComplete complete :: rest)
      ∧ ∃ total, w'.blob.sent = w.blob.sent
        ++ .blobPutRequest (Client.blobDirRequest remote (hashText h) total)
        :: sendBlobs ((sortNames names).map (w.content localRoot)
          ++ toBlobs (manifest f (w.content localRoot) (sortNames names))) := by
  rw [Client.uploadBlobDir, run_walkDir, hnames] at hrun
  obtain ⟨c, w₁, hfiles, hrun⟩ := Prog.eval_bind_ok hrun fun _ => rfl
  obtain ⟨hmanifest, hafter⟩ := addLocalFiles_ok_inv (w := w.after) hw hfiles
  have hc : c = manifest f (w.content localRoot) (sortNames names) := hmanifest
  have hgoes₁ : Goes w w₁ ((sortNames names).map (w.content localRoot)) [] := hafter.of_after
  subst hc
  obtain ⟨⟨root, total⟩, w₂, hblobs, hrun⟩ := Prog.eval_bind_ok hrun fun _ => rfl
  have hstored := run_upload (f := f) (w := w₁) (addCollectionBlobs_ofStore none 0
    (toBlobs (manifest f (w.content localRoot) (sortNames names))))
  have hadded : BlobWorld.run f (addCollectionBlobs none 0
      (toBlobs (manifest f (w.content localRoot) (sortNames names)))) w₁.blob
      = (.ok (root, total), w₂.blob) := by
    have heq := hstored.symm.trans hblobs
    rw [Prod.mk.injEq] at heq
    exact Prod.ext heq.1 (congrArg blob heq.2)
  obtain ⟨hroot, honly⟩ := addCollectionBlobs_ok_inv (hgoes₁.settles hw) hadded
  have hstore : ∀ name ∈ sortNames names, w.content localRoot name ∈ w₂.blob.store := by
    intro name hname
    rw [honly.store, hgoes₁.store]
    exact List.mem_append_left _ (List.mem_append_right _ (List.mem_map_of_mem hname))
  obtain ⟨rfl, hreplies, hgoes₂⟩ := putCollection_ok_inv hhash hstore hrun
  refine ⟨?_, hreplies, total, ?_⟩
  · rw [Option.or_none] at hroot
    exact hroot
  · rw [hgoes₂.sent, honly.sent, hgoes₁.sent, List.append_nil]

end BlobClient

/-! ## The server's export -/

namespace StoreTree

variable {v v' : StoreTree} {target : Path} {α β : Type}

@[simp] theorem run_pure (a : α) : run f (pure a) v = (a, v) := rfl

theorem run_bind (p : BlobProg α) (k : α → BlobProg β) :
    run f (p >>= k) v = run f (k (run f p v).1) (run f p v).2 := Prog.eval_bind p k v

theorem run_lift_bind (p : FsProg α) (k : α → FsProg β) :
    run f (FsProg.lift (p >>= k)) v
      = run f (FsProg.lift (k (run f (FsProg.lift p) v).1)) (run f (FsProg.lift p) v).2 := by
  have h : FsProg.lift (p >>= k) = FsProg.lift p >>= fun a => FsProg.lift (k a) :=
    Prog.lift_bind _ _ p k
  rw [h, run_bind]

/-- A program on the store. -/
theorem run_store {p : BlobProg α} (hp : p.Always BlobOp.OfStore) :
    run f p v = ((BlobWorld.run f p v.blob).1, { v with blob := (BlobWorld.run f p v.blob).2 }) := by
  refine hp.eval_part blob (fun v b => { v with blob := b }) (fun _ => rfl)
    (fun _ _ => rfl) (fun _ _ _ => rfl) ?_ v
  intro o v ho
  cases o with
  | fs o => exact absurd ho id
  | walk p => exact absurd ho id
  | metadata p => exact absurd ho id
  | readFile p => exact absurd ho id
  | _ => rfl

/-- What the export leaves alone. -/
structure Keeps (v v' : StoreTree) : Prop where
  store : v'.blob.store = v.blob.store
  dirs : ∀ s, IsDir v.nodes s → IsDir v'.nodes s

theorem Keeps.refl (v : StoreTree) : Keeps v v := ⟨rfl, fun _ h => h⟩

theorem Keeps.trans {v₁ v₂ : StoreTree} (h : Keeps v v₁) (h' : Keeps v₁ v₂) : Keeps v v₂ :=
  ⟨h'.store.trans h.store, fun s hs => h'.dirs s (h.dirs s hs)⟩

theorem fileAt_write (v : StoreTree) (s t : Spot) (data : List UInt8) :
    fileAt (v.write s data).nodes t = if t = s then some data else fileAt v.nodes t := by
  unfold write
  dsimp only
  split
  · exact fileAt_update _ _ _ _ _
  · exact fileAt_update _ _ _ _ _

theorem isDir_write {s t : Spot} {data : List UInt8} (hs : ¬ IsDir v.nodes s)
    (ht : IsDir v.nodes t) : IsDir (v.write s data).nodes t := by
  have hne : t ≠ s := by
    intro heq
    rw [heq] at ht
    exact hs ht
  obtain ⟨mode, hdir⟩ := ht
  exact ⟨mode, (Function.update_of_ne hne _ _).trans hdir⟩

/-- What a successful export has done. -/
theorem exportBlob_true {hash : Hash} {p : Path} (h : v.exportBlob f hash p = (true, v')) :
    ∃ data, v.blob.lookup f hash = some data ∧ ¬ IsDir v.nodes (spot p.parts)
      ∧ v' = (v.write (spot p.parts) data).after := by
  unfold exportBlob at h
  split at h
  · cases h
  · cases h
  · rename_i s node hnode hfind
    have hplace : s = spot p.parts ∧ node = v.nodes s := by
      unfold find look at hfind
      split at hfind
      · rename_i t hlead
        cases hfind
        exact ⟨lead_at hlead, rfl⟩
      · cases hfind
      · cases hfind
    obtain ⟨rfl, rfl⟩ := hplace
    split at h
    · rename_i data hnext hdata
      cases h
      refine ⟨data, hdata, ?_, rfl⟩
      intro hdir
      obtain ⟨mode, hdir⟩ := hdir
      exact hnode mode hdir
    · cases h
    · cases h

/-- Making a parent directory changes no file. -/
theorem createParent_frame (p : Path) (v : StoreTree) :
    Keeps v (run f (FsProg.lift (createParent p)) v).2
      ∧ ∀ s, fileAt (run f (FsProg.lift (createParent p)) v).2.nodes s = fileAt v.nodes s := by
  unfold createParent
  cases p.parent with
  | none => exact ⟨Keeps.refl v, fun _ => rfl⟩
  | some parent =>
      show Keeps v (fsAnswer f (.createDirAll parent) v).2
        ∧ ∀ s, fileAt (fsAnswer f (.createDirAll parent) v).2.nodes s = fileAt v.nodes s
      unfold fsAnswer
      dsimp only
      by_cases hn : v.blob.next = .works
      · rw [if_pos hn]
        exact ⟨⟨rfl, fun s hs => makeDirs_isDir hs⟩, fun s => makeDirs_fileAt _ _ _ _ s⟩
      · rw [if_neg hn]
        exact ⟨⟨rfl, fun _ hs => hs⟩, fun _ => rfl⟩

theorem run_lift_exportBlob (hash : Hash) (p : Path) (k : Bool → FsProg α) :
    run f (FsProg.lift (do let exported : Bool ← (FsOp.exportBlob hash p).perform; k exported)) v
      = run f (FsProg.lift (k (v.exportBlob f hash p).1)) (v.exportBlob f hash p).2 := rfl

/-- Where an entry goes. -/
theorem join_parts (habs : target.head = .rootDir) {q : Spot} (hq : q ≠ []) :
    (target.join (parse (relPath q).display)).parts = target.parts ++ q.map .normal := by
  have hsplit : q = q.dropLast ++ [q.getLast hq] := (List.dropLast_append_getLast hq).symm
  rw [hsplit, join_relPath habs, Path.child, dirOf, List.map_append, List.append_assoc]
  rfl

theorem spot_join (habs : target.head = .rootDir) {q : Spot} (hq : q ≠ []) :
    spot (target.join (parse (relPath q).display)).parts = spot target.parts ++ q := by
  rw [join_parts habs hq, spot, spotFrom_append, spotFrom_names, spot]

/-- What exporting a collection has done to the files. -/
theorem exportItems_ok_inv (hhash : Function.Injective f.hashOf) (habs : target.head = .rootDir)
    {qs : List Spot} {content : List Char → List UInt8} (hne : ∀ q ∈ qs, q ≠ []) (hnodup : qs.Nodup)
    {u : Unit}
    (h : run f (FsProg.lift (exportItems target
      (manifest f content (qs.map fun q => (relPath q).display)))) v = (.ok u, v')) :
    Keeps v v'
      ∧ (∀ q ∈ qs, fileAt v'.nodes (spot target.parts ++ q) = some (content (relPath q).display))
      ∧ ∀ s, (∀ q ∈ qs, s ≠ spot target.parts ++ q) → fileAt v'.nodes s = fileAt v.nodes s := by
  induction qs generalizing v with
  | nil =>
      cases h
      exact ⟨Keeps.refl _, fun _ hq => absurd hq List.not_mem_nil, fun _ _ => rfl⟩
  | cons q qs ih =>
      rw [manifest, List.map_cons, List.map_cons, exportItems] at h
      cases hsafe : sanitizeRelativePath (relPath q).display with
      | error reason =>
          rw [hsafe] at h
          cases h
      | ok safeName =>
          rw [hsafe] at h
          dsimp only at h
          rw [(sanitizeRelativePath_ok hsafe).1, run_lift_bind] at h
          obtain ⟨hkeeps, hfiles⟩ :=
            createParent_frame (f := f) (target.join (parse (relPath q).display)) v
          generalize run f (FsProg.lift (createParent (target.join (parse (relPath q).display)))) v
            = made at h hkeeps hfiles
          obtain ⟨made, v₁⟩ := made
          cases made with
          | false => cases h
          | true =>
              dsimp only at h hkeeps hfiles
              rw [if_pos rfl, run_lift_exportBlob] at h
              cases hexport : v₁.exportBlob f (f.hashOf (content (relPath q).display))
                  (target.join (parse (relPath q).display)) with
              | mk exported v₂ =>
                  rw [hexport] at h
                  cases exported with
                  | false => cases h
                  | true =>
                      obtain ⟨data, hdata, hnot, hv₂⟩ := exportBlob_true hexport
                      rw [spot_join habs (hne q List.mem_cons_self)] at hnot hv₂
                      have hcontent : data = content (relPath q).display := by
                        apply hhash
                        simpa using List.find?_some hdata
                      have hwrite : ∀ s, fileAt v₂.nodes s
                          = if s = spot target.parts ++ q then some (content (relPath q).display)
                            else fileAt v.nodes s := by
                        intro s
                        rw [hv₂, ← hfiles s, ← hcontent]
                        exact fileAt_write v₁ _ s data
                      have hkeeps₂ : Keeps v₁ v₂ := by
                        rw [hv₂]
                        exact ⟨rfl, fun s hs => isDir_write hnot hs⟩
                      obtain ⟨hrest, hdone, helse⟩ := ih
                        (fun r hr => hne r (List.mem_cons_of_mem _ hr)) hnodup.of_cons h
                      refine ⟨(hkeeps.trans hkeeps₂).trans hrest, ?_, ?_⟩
                      · intro r hr
                        rcases List.mem_cons.mp hr with rfl | hmem
                        · -- the later ones go elsewhere
                          have hlater : ∀ r' ∈ qs, spot target.parts ++ r ≠ spot target.parts ++ r' := by
                            intro r' hr' heq
                            rw [List.append_cancel_left heq] at hnodup
                            exact (List.nodup_cons.mp hnodup).1 hr'
                          rw [helse _ hlater, hwrite, if_pos rfl]
                        · exact hdone r hmem
                      · intro s hs
                        rw [helse s fun r hr => hs r (List.mem_cons_of_mem _ hr), hwrite,
                          if_neg (hs q List.mem_cons_self)]

theorem run_createDirAll (p : Path) (k : Bool → BlobProg α) :
    run f (do let made : Bool ← (BlobOp.fs (.createDirAll p)).perform; k made) v
      = if v.blob.next = .works then
          run f (k (makeDirs v.dirMode v.nodes [] p.parts).1)
            { v.after with nodes := (makeDirs v.dirMode v.nodes [] p.parts).2 }
        else run f (k false) v.after := by
  have hanswer : fsAnswer f (.createDirAll p) v
      = if v.blob.next = .works then
          ((makeDirs v.dirMode v.nodes [] p.parts).1,
            { v.after with nodes := (makeDirs v.dirMode v.nodes [] p.parts).2 })
        else (false, v.after) := rfl
  show run f (k (fsAnswer f (.createDirAll p) v).1) (fsAnswer f (.createDirAll p) v).2 = _
  rw [hanswer]
  split_ifs
  · rfl
  · rfl

theorem run_readBlob (hash : Hash) (k : Bool → BlobProg α) :
    run f (do let read : Bool ← (BlobOp.fs (.readBlob hash)).perform; k read) v
      = run f (k (decide (v.blob.next = .works) && (v.blob.lookup f hash).isSome)) v.after := rfl

theorem run_load (hash : Hash) (k : Option Collection → BlobProg α) :
    run f (do let loaded : Option Collection ← (BlobOp.load hash).perform; k loaded) v
      = run f (k (if v.blob.next = .works then f.load (v.blob.lookup f) hash else none)) v.after := rfl

/-- What a successful export of a collection was: its directory is made, and the collection that
the store has under the hash is exported there. -/
theorem exportStoredCollection_ok_inv {hash : Hash} {u : Unit}
    (h : run f (exportStoredCollection hash target) v = (.ok u, v')) :
    (makeDirs v.dirMode v.nodes [] target.parts).1 = true
      ∧ ∃ collection v₁, f.load (v.blob.lookup f) hash = some collection
        ∧ v₁.nodes = (makeDirs v.dirMode v.nodes [] target.parts).2
        ∧ run f (FsProg.lift (exportItems target collection)) v₁ = (.ok u, v') := by
  rw [exportStoredCollection, run_createDirAll] at h
  by_cases hn : v.blob.next = .works
  · rw [if_pos hn] at h
    cases hmade : (makeDirs v.dirMode v.nodes [] target.parts).1 with
    | false =>
        rw [hmade] at h
        cases h
    | true =>
        rw [hmade, if_pos rfl, exportLoaded, run_readBlob] at h
        refine ⟨rfl, ?_⟩
        split at h
        · rw [run_load] at h
          split_ifs at h
          · split at h
            · rename_i collection hload
              exact ⟨collection, _, hload, rfl, h⟩
            · cases h
          · cases h
        · cases h
  · rw [if_neg hn] at h
    cases h

/-! ### The handler -/

theorem run_send (frame : TransferFrame) (k : Bool → BlobProg α) :
    run f (do let sent : Bool ← (BlobOp.send frame).perform; k sent) v
      = if v.blob.next = .works then
          run f (k true) { v with blob := { v.blob.after with sent := v.blob.sent ++ [frame] } }
        else run f (k false) v.after := by
  have hanswer : v.blob.answer f (.send frame)
      = if v.blob.next = .works then (true, { v.blob.after with sent := v.blob.sent ++ [frame] })
        else (false, v.blob.after) := rfl
  show run f (k (v.blob.answer f (.send frame)).1)
    { v with blob := (v.blob.answer f (.send frame)).2 } = _
  rw [hanswer]
  split_ifs
  · rfl
  · rfl

theorem run_pathMissing (p : Path) (k : Except Unit Bool → BlobProg α) :
    run f (do let missing : Except Unit Bool ← (BlobOp.fs (.pathMissing p)).perform; k missing) v
      = run f (k (v.probe p)) v.after := rfl

theorem fsAnswer_sent (o : FsOp) (v : StoreTree) : (fsAnswer f o v).2.blob.sent = v.blob.sent := by
  cases o with
  | createDirAll p =>
      simp only [fsAnswer]
      split_ifs
      · rfl
      · rfl
  | exportBlob hash p =>
      simp only [fsAnswer, exportBlob]
      split
      · rfl
      · rfl
      · split
        · rfl
        · rfl
        · rfl
  | _ => rfl

/-- Operations on files do not send. -/
theorem run_unsent {p : BlobProg α} (hp : p.Always fun o => ∀ frame, o ≠ .send frame)
    (v : StoreTree) : (run f p v).2.blob.sent = v.blob.sent := by
  refine hp.eval_invariant (I := fun v' : StoreTree => v'.blob.sent = v.blob.sent) ?_ rfl
  intro o v' ho hv'
  rw [← hv']
  cases o with
  | fs o => exact fsAnswer_sent o v'
  | send frame => exact absurd rfl (ho frame)
  | addBytes blob =>
      show (v'.blob.answer f (.addBytes blob)).2.sent = _
      simp only [BlobWorld.answer]
      cases v'.blob.next
      all_goals rfl
  | _ => rfl

theorem putBlob_unsent (request : BlobPutRequest) (hash : Hash) (target : Path)
    (frames : List TransferFrame) :
    (putBlob request hash target frames).Always fun o => ∀ frame, o ≠ .send frame := by
  have hreceive := (receiveBlob_silent request hash frames).mono
    (ψ := fun o => ∀ frame, o ≠ .send frame) fun o ho frame heq => by
      rw [heq] at ho
      exact ho
  refine hreceive.bind fun received => ?_
  cases received with
  | error e => exact Prog.always_pure _
  | ok n =>
      have hexport := (exportReceived_quiet request hash target).mono
        (ψ := fun o => ∀ frame, o ≠ .send frame) fun o ho frame heq => by
          rw [heq] at ho
          exact ho
      refine hexport.bind fun exported => ?_
      cases exported with
      | error e => exact Prog.always_pure _
      | ok u =>
          refine ⟨fun frame heq => ?_, fun _ => Prog.always_pure _⟩
          cases heq

theorem completePut_nodes (n : Nat) (v : StoreTree) : (run f (completePut n) v).2.nodes = v.nodes := by
  rw [completePut, run_send]
  by_cases hn : v.blob.next = .works
  · rw [if_pos hn]
    rfl
  · rw [if_neg hn]
    rfl

/-- What a request that was answered with `PutComplete` has done. -/
theorem answered_inv {parseHash : String → HashText} {context : ShellContext}
    {request : BlobPutRequest} {frames : List TransferFrame} {hash : Hash}
    {r : Option (Except String Unit)} {complete : TransferComplete} (hsent : v.blob.sent = [])
    (hparse : parseHash request.hash = .hash hash)
    (htarget : context.resolvePath request.path.toList = .ok target)
    (h : run f (handleBlobPutRequest parseHash context request frames) v = (r, v'))
    (hc : .putComplete complete ∈ v'.blob.sent) :
    ∃ v₀ v₁ v₂ n u, v₀.nodes = v.nodes
      ∧ run f (receiveBlob request hash frames) v₀ = (.ok n, v₁)
      ∧ run f (exportReceived request hash target) v₁ = (.ok u, v₂) ∧ v'.nodes = v₂.nodes := by
  unfold handleBlobPutRequest at h
  rw [hparse] at h
  dsimp only at h
  rw [run_bind] at h
  generalize hr : run f (putExpected context request hash frames) v = result at h
  obtain ⟨result, w⟩ := result
  obtain ⟨-, rfl⟩ := Prod.mk.inj h
  replace h := hr
  unfold putExpected at h
  rw [htarget] at h
  dsimp only at h
  rw [run_pathMissing] at h
  rcases hprobe : v.probe target with e | _ | _
  · rw [hprobe] at h
    cases h
    rw [after, BlobWorld.after_sent, hsent] at hc
    cases hc
  · rw [hprobe] at h
    dsimp only at h
    rw [run_send] at h
    by_cases hn : v.after.blob.next = .works
    · rw [if_pos hn] at h
      cases h
      simp [after, hsent] at hc
    · rw [if_neg hn] at h
      cases h
      simp [after, hsent] at hc
  · rw [hprobe] at h
    dsimp only at h
    rw [run_bind, servePut, run_send] at h
    by_cases hn : v.after.blob.next = .works
    · rw [if_pos hn, if_pos rfl] at h
      have hready := run_unsent (f := f) (putBlob_unsent request hash target frames)
        { v.after with blob := { v.after.blob.after with
          sent := v.after.blob.sent ++ [.putReady ⟨request.size, none⟩] } }
      cases hput : run f (putBlob request hash target frames)
          { v.after with blob := { v.after.blob.after with
            sent := v.after.blob.sent ++ [.putReady ⟨request.size, none⟩] } } with
      | mk put v₂ =>
          rw [hput] at h hready
          cases put with
          | error e =>
              -- only `PutReady` has been sent
              cases h
              rw [hready] at hc
              simp [after, hsent] at hc
          | ok n =>
              obtain ⟨m, v₁, hreceive, hrest⟩ := Prog.eval_bind_ok hput fun _ => rfl
              obtain ⟨u, v₃, hexport, hleave⟩ := Prog.eval_bind_ok hrest fun _ => rfl
              refine ⟨_, v₁, v₃, m, u, ?_, hreceive, hexport, ?_⟩
              · rfl
              have hnodes := completePut_nodes (f := f) n v₂
              have hsame : v₂.nodes = v₃.nodes := by
                cases hleave
                rfl
              dsimp only at h
              rw [h] at hnodes
              exact hnodes.trans hsame
    · rw [if_neg hn, if_neg Bool.false_ne_true] at h
      cases h
      simp [after, hsent] at hc

/-- **What an upload leaves on the server**: the way to the target is open, the files of the
collection are there, and everything else is as it was. -/
theorem uploaded_inv (hhash : Function.Injective f.hashOf)
    {toBlobs : Collection → List (List UInt8)} (hloads : LoadsBack f toBlobs)
    {parseHash : String → HashText} {context : ShellContext} {request : BlobPutRequest}
    {hash : Hash} {r : Option (Except String Unit)} {complete : TransferComplete}
    {content : List Char → List UInt8} {qs : List Spot} (hne : ∀ q ∈ qs, q ≠ []) (hnodup : qs.Nodup)
    {names : List (List Char)} (hnames : names = qs.map fun q => (relPath q).display)
    (hroot : ((toBlobs (manifest f content names)).map f.hashOf).getLast? = some hash)
    (hsent : v.blob.sent = []) (hv : IsDir v.nodes [])
    (hparse : parseHash request.hash = .hash hash) (hformat : isHashSeq request.format = true)
    (htarget : context.resolvePath request.path.toList = .ok target)
    (h : run f (handleBlobPutRequest parseHash context request
      (sendBlobs (names.map content ++ toBlobs (manifest f content names)))) v = (r, v'))
    (hc : .putComplete complete ∈ v'.blob.sent) :
    (∀ name ∈ names, (content name).length ≤ maxInMemoryTransferBytes)
      ∧ Opens v'.nodes [] target.parts
      ∧ (∀ q ∈ qs, fileAt v'.nodes (spot target.parts ++ q) = some (content (relPath q).display))
      ∧ ∀ s, (∀ q ∈ qs, s ≠ spot target.parts ++ q) → fileAt v'.nodes s = fileAt v.nodes s := by
  obtain ⟨v₀, v₁, v₂, n, u, hv₀, hreceive, hexport, hv'⟩ := answered_inv hsent hparse htarget h hc
  have hstored := run_store (f := f) (v := v₀) (receiveBlob_ofStore request hash
    (sendBlobs (names.map content ++ toBlobs (manifest f content names))))
  rw [hreceive, Prod.mk.injEq] at hstored
  obtain ⟨hok, hv₁⟩ := hstored
  have hverified : BlobWorld.run f (verifyHashSeq hash
      (sendBlobs (names.map content ++ toBlobs (manifest f content names)))) v₀.blob
      = (.ok n, v₁.blob) := by
    rw [receiveBlob, if_pos hformat] at hok hv₁
    rw [hv₁]
    exact Prod.ext hok.symm rfl
  obtain ⟨honly, -, hcap⟩ := verifyHashSeq_ok_inv hverified
  obtain ⟨hsum, hcarried⟩ := carried_sendBlobs hcap
  rw [hcarried] at honly
  rw [exportReceived, if_pos hformat] at hexport
  obtain ⟨hmade, collection, v₃, hload, hv₃, hitems⟩ := exportStoredCollection_ok_inv hexport
  have hblobs : ∀ blob ∈ toBlobs (manifest f content names),
      v₁.blob.lookup f (f.hashOf blob) = some blob := by
    intro blob hblob
    apply lookup_hashOf hhash
    rw [honly.store]
    exact List.mem_append_right _ (List.mem_append_right _ hblob)
  rw [hloads _ _ _ (fun _ => manifest_hashes) hroot hblobs] at hload
  have hnodes₁ : v₁.nodes = v.nodes := by
    rw [hv₁]
    exact hv₀
  have habs := resolvePath_absolute htarget
  rw [← Option.some.inj hload, hnames] at hitems
  obtain ⟨hkeeps, hthere, helse⟩ := exportItems_ok_inv hhash habs hne hnodup hitems
  refine ⟨?_, ?_, ?_, ?_⟩
  · intro name hname
    have hmem : sentBytes (content name)
        ∈ (names.map content ++ toBlobs (manifest f content names)).map sentBytes :=
      List.mem_map_of_mem (List.mem_append_left _ (List.mem_map_of_mem hname))
    have hle := List.single_le_sum (fun _ _ => Nat.zero_le _) _ hmem
    unfold sentBytes at hle hsum
    omega
  · intro s hs
    rw [hv']
    apply hkeeps.dirs
    rw [hv₃]
    refine makeDirs_opens ?_ hmade s hs
    rw [hnodes₁]
    exact hv
  · intro q hq
    rw [hv']
    exact hthere q hq
  · intro s hs
    rw [hv', helse s hs, hv₃, makeDirs_fileAt, hnodes₁]

/-! ### The walk over the target -/

section Walk

variable {t : Tree} (hv : v.nodes = t.nodes) (habs : target.head = .rootDir)
  (hopen : Opens v.nodes [] target.parts)

include hopen in
theorem find_target : ∃ mode, v.find target = some (spot target.parts, some (.dir mode)) := by
  obtain ⟨mode, hdir⟩ := hopen.last
  refine ⟨mode, ?_⟩
  rw [find, look, lead_of_opens hopen]
  dsimp only
  rw [hdir]
  rfl

include hv habs hopen in
/-- A file below the target is found under its name. -/
theorem find_entry {q : Spot} (hq : q ≠ []) {node : FileNode}
    (hnode : v.nodes (spot target.parts ++ q) = some node) :
    v.find (target.join (parse (relPath q).display)) = some (spot target.parts ++ q, some node) := by
  have hsplit : q = q.dropLast ++ [q.getLast hq] := (List.dropLast_append_getLast hq).symm
  have hway : Opens v.nodes [] (target.parts ++ q.dropLast.map .normal) := by
    rw [hv] at hopen hnode ⊢
    refine t.opens_to (n := q.getLast hq) hopen ?_
    rw [List.append_assoc, ← hsplit]
    rw [spot] at hnode
    rw [hnode]
    simp
  have hparts : (target.join (parse (relPath q).display)).parts
      = target.parts ++ q.dropLast.map .normal ++ [.normal (q.getLast hq)] := by
    rw [join_parts habs hq, List.append_assoc]
    conv_lhs => rw [hsplit, List.map_append]
    rfl
  have hplace : goTo (spotFrom [] (target.parts ++ q.dropLast.map .normal)) (.normal (q.getLast hq))
      = spot target.parts ++ q := by
    rw [spotFrom_append, spotFrom_names, goTo, List.append_assoc, ← hsplit, spot]
  rw [find, look, hparts, lead_snoc hway, hplace]
  dsimp only
  rw [hnode]

theorem run_metadata (p : Path) (k : Option Nat → BlobProg α) :
    run f (do let len : Option Nat ← (BlobOp.metadata p).perform; k len) v
      = run f (k (match v.find p with
          | some (_, some node) => if v.blob.next = .works then some (length node) else none
          | _ => none)) v.after := rfl

theorem run_readFile (p : Path) (k : Option (List UInt8) → BlobProg α) :
    run f (do let data : Option (List UInt8) ← (BlobOp.readFile p).perform; k data) v
      = run f (k (match v.find p with
          | some (_, some (.file _ data)) => if v.blob.next = .works then some data else none
          | _ => none)) v.after := rfl

theorem run_walk (p : Path) (k : Option (List (List Char)) → BlobProg α) :
    run f (do let entries : Option (List (List Char)) ← (BlobOp.walk p).perform; k entries) v
      = run f (k (match v.find p with
          | some (s, some (.dir _)) => if v.blob.next = .works then some (v.filesBelow s) else none
          | some (_, some (.file _ _)) => if v.blob.next = .works then some [[]] else none
          | _ => none)) v.after := rfl

theorem run_acquire (bytes : Nat) (k : Bool → BlobProg α) :
    run f (do let granted : Bool ← (BlobOp.acquire bytes).perform; k granted) v
      = run f (k (decide (blobMemoryPermits bytes = 0 ∨ v.blob.next = .works))) v.after := rfl

theorem run_leave (k : Unit → BlobProg α) :
    run f (do let u : Unit ← BlobOp.leave.perform; k u) v = run f (k ()) v.after := rfl

theorem run_addBytes (blob : List UInt8) (k : Except Unit (Option Hash) → BlobProg α) :
    run f (do let added : Except Unit (Option Hash) ← (BlobOp.addBytes blob).perform; k added) v
      = run f (k (v.blob.answer f (.addBytes blob)).1)
        { v with blob := (v.blob.answer f (.addBytes blob)).2 } := rfl

include hv habs hopen in
/-- Adding the files below the target. If nothing goes wrong, only a file that is too large stops
it. -/
theorem addFiles_run {content : List Char → List UInt8} {qs : List Spot} (c : Collection)
    (hw : Settles v.blob) (hfiles : ∀ q ∈ qs,
      q ≠ [] ∧ fileAt v.nodes (spot target.parts ++ q) = some (content (relPath q).display)) :
    (∃ v', run f (addFiles target c (qs.map fun q => (relPath q).display)) v
        = (.ok (c ++ manifest f content (qs.map fun q => (relPath q).display)), v')
      ∧ v'.blob.fate = v.blob.fate)
    ∨ (Lucky v.blob →
        ∃ q ∈ qs, maxInMemoryTransferBytes < (content (relPath q).display).length)
      ∧ ∃ e v', run f (addFiles target c (qs.map fun q => (relPath q).display)) v = (.error e, v') := by
  induction qs generalizing v c with
  | nil =>
      refine .inl ⟨v, ?_, rfl⟩
      rw [List.map_nil, manifest, List.map_nil, List.append_nil]
      rfl
  | cons q qs ih =>
      obtain ⟨hq, hfile⟩ := hfiles q List.mem_cons_self
      obtain ⟨mode, hnode⟩ := fileAt_eq_some.mp hfile
      rw [List.map_cons, addFiles, run_metadata, find_entry hv habs hopen hq hnode]
      dsimp only
      by_cases hstat : v.blob.next = .works
      · rw [if_pos hstat]
        dsimp only [length]
        by_cases hcap : (content (relPath q).display).length > maxInMemoryTransferBytes
        · rw [if_pos hcap]
          exact .inr ⟨fun _ => ⟨q, List.mem_cons_self, hcap⟩, _, _, rfl⟩
        · rw [if_neg hcap, run_acquire]
          by_cases hgrant : blobMemoryPermits (content (relPath q).display).length = 0
              ∨ v.after.blob.next = .works
          · rw [decide_eq_true hgrant, if_pos rfl, run_readFile,
              find_entry (v := v.after.after) hv habs hopen hq hnode]
            dsimp only
            by_cases hread : v.after.after.blob.next = .works
            · rw [if_pos hread]
              dsimp only
              rw [run_addBytes, BlobWorld.answer]
              cases hadd : v.after.after.after.blob.next with
              | fails =>
                  refine .inr ⟨fun hl => ?_, _, _, rfl⟩
                  have hworks : v.after.after.after.blob.next = .works := hl _
                  rw [hadd] at hworks
                  cases hworks
              | halfway => exact absurd hadd (hw _)
              | works =>
                  dsimp only
                  rw [run_leave]
                  have hrest := ih (v := { v.after.after.after with
                    blob := { v.after.after.after.blob.after.after with
                      store := v.blob.store ++ [content (relPath q).display]
                      added := v.blob.added ++ [content (relPath q).display] } })
                    hv hopen (c ++ [((relPath q).display, f.hashOf (content (relPath q).display))]) hw
                    fun r hr => hfiles r (List.mem_cons_of_mem _ hr)
                  rw [List.append_assoc] at hrest
                  rcases hrest with hdone | ⟨hlarge, hstopped⟩
                  · exact .inl hdone
                  · refine .inr ⟨fun hl => ?_, hstopped⟩
                    obtain ⟨r, hr, hlen⟩ := hlarge hl
                    exact ⟨r, List.mem_cons_of_mem _ hr, hlen⟩
            · rw [if_neg hread]
              exact .inr ⟨fun hl => absurd (hl _) hread, _, _, rfl⟩
          · rw [decide_eq_false hgrant, if_neg Bool.false_ne_true]
            exact .inr ⟨fun hl => absurd (.inr (hl _)) hgrant, _, _, rfl⟩
      · rw [if_neg hstat]
        exact .inr ⟨fun hl => absurd (hl _) hstat, _, _, rfl⟩

end Walk

end StoreTree

/-! ## The two collections -/

/-- Places in the order of their names. -/
def sortSpots (qs : List Spot) : List Spot :=
  qs.insertionSort fun a b => (relPath a).display ≤ (relPath b).display

theorem sortNames_display (qs : List Spot) :
    sortNames (qs.map fun q => (relPath q).display) = (sortSpots qs).map fun q => (relPath q).display := by
  have hmap := List.map_insertionSort
    (fun a b : Spot => (relPath a).display ≤ (relPath b).display) (· ≤ ·)
    (fun q : Spot => (relPath q).display) qs fun _ _ _ _ => Iff.rfl
  exact hmap.symm

theorem mem_sortSpots {qs : List Spot} {q : Spot} : q ∈ sortSpots qs ↔ q ∈ qs :=
  List.mem_insertionSort _

theorem nodup_sortSpots {qs : List Spot} (h : qs.Nodup) : (sortSpots qs).Nodup :=
  (List.perm_insertionSort _ qs).nodup_iff.mpr h

theorem display_injective {q r : Spot} (hq : q ≠ []) (hr : r ≠ [])
    (h : (relPath q).display = (relPath r).display) : q = r := by
  have hparse : relPath q = relPath r := by
    have hq' : parse (relPath q).display = relPath q := parse_display_names hq
    have hr' : parse (relPath r).display = relPath r := parse_display_names hr
    rw [← hq', ← hr', h]
  have hparts : q.map Part.normal = r.map Part.normal := congrArg Path.parts hparse
  exact List.map_injective_iff.mpr (fun a b hab => Part.normal.inj hab) hparts

/-- The order depends on what is sorted only. -/
theorem sortSpots_congr {qs rs : List Spot} (hqs : qs.Nodup) (hrs : rs.Nodup)
    (hne : ∀ q ∈ qs, q ≠ []) (h : ∀ q, q ∈ qs ↔ q ∈ rs) : sortSpots qs = sortSpots rs := by
  have hperm : (sortSpots qs).Perm (sortSpots rs) := by
    refine (List.perm_insertionSort _ qs).trans (List.Perm.trans ?_ (List.perm_insertionSort _ rs).symm)
    exact (List.perm_ext_iff_of_nodup hqs hrs).mpr h
  have hsorted : ∀ ps, (sortSpots ps).Pairwise fun a b => (relPath a).display ≤ (relPath b).display := by
    intro ps
    have hpairs : ((sortSpots ps).map fun q => (relPath q).display).Pairwise (· ≤ ·) := by
      rw [← sortNames_display]
      exact List.pairwise_insertionSort _ _
    exact List.pairwise_map.mp hpairs
  refine hperm.eq_of_pairwise ?_ (hsorted qs) (hsorted rs)
  intro a b ha hb hab hba
  have hb' : b ∈ qs := (h b).mpr (mem_sortSpots.mp hb)
  exact display_injective (hne a (mem_sortSpots.mp ha)) (hne b hb') (le_antisymm hab hba)

/-- The local file system holds the tree: this is how `WalkDir` goes through it, and these are its
files. -/
structure BlobClient.Holds (w : BlobClient) (root : Path) (t : Tree) (walk : List Spot) : Prop where
  walks : Walks t walk
  walked : ∃ rootMeta dirLen,
    w.walked = some ⟨⟨.plain, []⟩, .dir, rootMeta⟩ :: walk.map (entryOf t dirLen)
  files : ∀ q mode data, t.nodes q = some (.file mode data) →
    w.files (root.join (relPath q)) = some data

/-- The files among some places. -/
def filesOf (N : Nodes) (s : Spot) (qs : List Spot) : List Spot :=
  qs.filter fun q => (fileAt N (s ++ q)).isSome

theorem collectFiles_entryOf {t : Tree} (dirLen : Spot → UInt64) {walk : List Spot}
    (h : ∀ q ∈ walk, t.nodes q ≠ none) :
    Client.collectFilesRecursive (walk.map (entryOf t dirLen))
      = some ((filesOf t.nodes [] walk).map fun q => (relPath q).display) := by
  induction walk with
  | nil => rfl
  | cons q walk ih =>
      have hrest := ih fun r hr => h r (List.mem_cons_of_mem _ hr)
      rw [List.map_cons, filesOf, List.filter_cons, List.nil_append, fileAt]
      cases hn : t.nodes q with
      | none => exact absurd hn (h q List.mem_cons_self)
      | some node =>
          cases node with
          | dir mode =>
              rw [entryOf, hn]
              dsimp only
              rw [Client.collectFilesRecursive, hrest]
              rfl
          | file mode data =>
              rw [entryOf, hn]
              dsimp only
              rw [Client.collectFilesRecursive, hrest]
              rfl

theorem BlobClient.Holds.collected {w : BlobClient} {root : Path} {t : Tree} {walk : List Spot}
    (h : w.Holds root t walk) : Client.collectFilesRecursive w.walked
      = some ((filesOf t.nodes [] walk).map fun q => (relPath q).display) := by
  obtain ⟨rootMeta, dirLen, hwalked⟩ := h.walked
  rw [hwalked, Client.collectFilesRecursive,
    collectFiles_entryOf dirLen fun q hq => ((h.walks.mem q).mp hq).2]
  rfl

namespace StoreTree

variable {v : StoreTree} {target : Path}

/-- `WalkDir` meets everything below a place once. -/
structure Lists (v : StoreTree) (s : Spot) : Prop where
  nodup : (v.listing s).Nodup
  mem : ∀ q, q ∈ v.listing s ↔ q ≠ [] ∧ v.nodes (s ++ q) ≠ none

/-- The contents of a file below the target. -/
def content (v : StoreTree) (target : Path) (name : List Char) : List UInt8 :=
  match v.find (target.join (parse name)) with
  | some (_, some (.file _ data)) => data
  | _ => []

/-- The files below the target, in order. -/
def targetFiles (v : StoreTree) (target : Path) : List Spot :=
  sortSpots (filesOf v.nodes (spot target.parts) (v.listing (spot target.parts)))

theorem filesBelow_target : v.filesBelow (spot target.parts)
    = (v.targetFiles target).map fun q => (relPath q).display :=
  sortNames_display _

section Hash

variable {t : Tree} (hv : v.nodes = t.nodes) (habs : target.head = .rootDir)
  (hopen : Opens v.nodes [] target.parts) (hlist : v.Lists (spot target.parts))

include hlist in
theorem mem_targetFiles {q : Spot} : q ∈ v.targetFiles target
    ↔ q ≠ [] ∧ (fileAt v.nodes (spot target.parts ++ q)).isSome := by
  rw [targetFiles, mem_sortSpots, filesOf, List.mem_filter, hlist.mem]
  constructor
  · intro h
    exact ⟨h.1.1, h.2⟩
  · intro h
    refine ⟨⟨h.1, ?_⟩, h.2⟩
    intro hnone
    rw [fileAt, hnone] at h
    cases h.2

include hv habs hopen in
theorem content_eq {q : Spot} (hq : q ≠ []) {data : List UInt8}
    (h : fileAt v.nodes (spot target.parts ++ q) = some data) :
    v.content target (relPath q).display = data := by
  obtain ⟨mode, hnode⟩ := fileAt_eq_some.mp h
  rw [content, find_entry hv habs hopen hq hnode]

variable {toBlobs : Collection → List (List UInt8)}

/-- The collection that `add_directory_to_store` makes. -/
def targetManifest (f : StoreFormat) (v : StoreTree) (target : Path) : Collection :=
  manifest f (v.content target) ((v.targetFiles target).map fun q => (relPath q).display)

include hv habs hopen hlist in
/-- Adding the target to the store gives the hash of its collection, or fails. -/
theorem addDirectoryToStore_run (hw : Settles v.blob) :
    (∀ h n, (run f (addDirectoryToStore toBlobs target) v).1 = .ok (h, n) →
      ((toBlobs (targetManifest f v target)).map f.hashOf).getLast? = some h)
    ∧ (Lucky v.blob →
      (∀ q ∈ v.targetFiles target,
        (v.content target (relPath q).display).length ≤ maxInMemoryTransferBytes) →
      ∀ h, ((toBlobs (targetManifest f v target)).map f.hashOf).getLast? = some h →
        ∃ n, (run f (addDirectoryToStore toBlobs target) v).1 = .ok (h, n)) := by
  have hfiles : ∀ q ∈ v.targetFiles target, q ≠ []
      ∧ fileAt v.nodes (spot target.parts ++ q) = some (v.content target (relPath q).display) := by
    intro q hq
    obtain ⟨hne, hsome⟩ := (mem_targetFiles hlist).mp hq
    obtain ⟨data, hdata⟩ := Option.isSome_iff_exists.mp hsome
    rw [content_eq hv habs hopen hne hdata]
    exact ⟨hne, hdata⟩
  obtain ⟨mode, hfind⟩ := find_target hopen
  rw [addDirectoryToStore, run_walk, hfind]
  dsimp only
  by_cases hwalk : v.blob.next = .works
  · rw [if_pos hwalk, filesBelow_target]
    dsimp only
    rw [run_bind]
    rcases addFiles_run (f := f) (v := v.after) (t := t) hv habs hopen [] hw hfiles with
      ⟨v', hrun, hfate⟩ | ⟨hlarge, e, v', hrun⟩
    · rw [hrun, List.nil_append]
      dsimp only
      rw [run_store (addCollectionBlobs_ofStore none 0 _)]
      dsimp only
      have hmanifest : manifest f (v.content target)
          ((v.targetFiles target).map fun q => (relPath q).display) = targetManifest f v target := rfl
      rw [hmanifest]
      have hw' : Settles v'.blob := by
        intro n
        rw [hfate]
        exact hw n
      refine ⟨?_, ?_⟩
      · intro h n hok
        cases hadd : BlobWorld.run f
            (addCollectionBlobs none 0 (toBlobs (targetManifest f v target))) v'.blob with
        | mk r b =>
            rw [hadd] at hok
            have hok' : r = .ok (h, n) := hok
            rw [hok'] at hadd
            have hroot := (addCollectionBlobs_ok_inv hw' hadd).1
            rw [Option.or_none] at hroot
            exact hroot
      · intro hl _ h hroot
        have hl' : Lucky v'.blob := by
          intro n
          rw [hfate]
          exact hl n
        obtain ⟨n, b, hadd⟩ := @addCollectionBlobs_lucky f none 0 _ _ h hl'
          (by rw [Option.or_none]; exact hroot)
        exact ⟨n, by rw [hadd]⟩
    · rw [hrun]
      refine ⟨?_, ?_⟩
      · intro h n hok
        cases hok
      · intro hl hsmall
        obtain ⟨q, hq, hlen⟩ := hlarge hl
        exact absurd (hsmall q hq) (Nat.not_le.mpr hlen)
  · rw [if_neg hwalk]
    refine ⟨?_, fun hl => absurd (hl _) hwalk⟩
    intro h n hok
    cases hok

end Hash

end StoreTree

/-- Files below the target have stayed as the upload left them. -/
structure Untouched (target : Path) (v u : StoreTree) : Prop where
  way : ∀ s ∈ visits [] target.parts, IsDir v.nodes s → IsDir u.nodes s
  files : ∀ q, fileAt u.nodes (spot target.parts ++ q) = fileAt v.nodes (spot target.parts ++ q)

/-- Every file that was below a place is a file of the tree. -/
def NoStrangers (t : Tree) (N : Nodes) (s : Spot) : Prop :=
  ∀ q, (fileAt N (s ++ q)).isSome → (fileAt t.nodes q).isSome

/-- Collections made of the same files with the same contents. -/
theorem manifest_congr {content content' : List Char → List UInt8} {qs : List Spot}
    (h : ∀ q ∈ qs, content (relPath q).display = content' (relPath q).display) :
    manifest f content (qs.map fun q => (relPath q).display)
      = manifest f content' (qs.map fun q => (relPath q).display) := by
  rw [manifest, manifest, List.map_map, List.map_map]
  refine List.map_congr_left fun q hq => ?_
  rw [Function.comp_apply, Function.comp_apply, h q hq]

theorem spots_of_manifest {content content' : List Char → List UInt8} {qs rs : List Spot}
    (hqs : ∀ q ∈ qs, q ≠ []) (hrs : ∀ q ∈ rs, q ≠ [])
    (h : manifest f content (qs.map fun q => (relPath q).display)
      = manifest f content' (rs.map fun q => (relPath q).display)) : qs = rs := by
  have hnames : (qs.map fun q => (relPath q).display) = rs.map fun q => (relPath q).display := by
    have hfst := congrArg (List.map Prod.fst) h
    simpa [manifest, Function.comp_def] using hfst
  clear h
  induction qs generalizing rs with
  | nil =>
      cases rs with
      | nil => rfl
      | cons r rs => cases hnames
  | cons q qs ih =>
      cases rs with
      | nil => cases hnames
      | cons r rs =>
          rw [List.map_cons, List.map_cons, List.cons.injEq] at hnames
          have hhead := display_injective (hqs q List.mem_cons_self) (hrs r List.mem_cons_self) hnames.1
          have htail := ih (fun x hx => hqs x (List.mem_cons_of_mem _ hx))
            (fun x hx => hrs x (List.mem_cons_of_mem _ hx)) hnames.2
          rw [hhead, htail]

/-- What the target has, after an upload of these files to it. -/
structure HoldsUpload (t : Tree) (before : Nodes) (target : Path) (content : List Char → List UInt8)
    (qs : List Spot) (u : StoreTree) : Prop where
  sent : ∀ q, q ∈ qs ↔ q ≠ [] ∧ (fileAt t.nodes q).isSome
  way : Opens u.nodes [] target.parts
  there : ∀ q ∈ qs, fileAt u.nodes (spot target.parts ++ q) = some (content (relPath q).display)
  rest : ∀ q, q ∉ qs →
    fileAt u.nodes (spot target.parts ++ q) = fileAt before (spot target.parts ++ q)

section HoldsUpload

variable {t later : Tree} {before : Nodes} {target : Path} {content : List Char → List UInt8}
  {qs : List Spot} {u : StoreTree}

/-- Which files the target has. -/
theorem HoldsUpload.file_iff (h : HoldsUpload t before target content qs u) {q : Spot} :
    (fileAt u.nodes (spot target.parts ++ q)).isSome
      ↔ q ∈ qs ∨ (fileAt before (spot target.parts ++ q)).isSome := by
  by_cases hq : q ∈ qs
  · rw [h.there q hq]
    simp [hq]
  · rw [h.rest q hq]
    simp [hq]

/-- The place of the target is a directory. -/
theorem HoldsUpload.ne_nil (h : HoldsUpload t before target content qs u) {q : Spot}
    (hq : (fileAt u.nodes (spot target.parts ++ q)).isSome) : q ≠ [] := by
  intro hnil
  rw [hnil, List.append_nil] at hq
  have hdir : fileAt u.nodes (spot target.parts) = none := fileAt_of_isDir h.way.last
  rw [hdir] at hq
  cases hq

/-- **The two collections are the same exactly if there are no strangers.** -/
theorem HoldsUpload.manifest_eq_iff (h : HoldsUpload t before target content qs u)
    (hu : u.nodes = later.nodes) (habs : target.head = .rootDir) (hlist : u.Lists (spot target.parts))
    {files : List Spot} (hqs : qs = sortSpots files) (hnodup : files.Nodup) :
    u.targetManifest f target = manifest f content (qs.map fun q => (relPath q).display)
      ↔ NoStrangers t before (spot target.parts) := by
  have hmem : ∀ q, q ∈ u.targetFiles target ↔ (fileAt u.nodes (spot target.parts ++ q)).isSome := by
    intro q
    rw [StoreTree.mem_targetFiles hlist]
    exact ⟨fun hq => hq.2, fun hq => ⟨h.ne_nil hq, hq⟩⟩
  constructor
  · intro heq q hq
    have hspots : u.targetFiles target = qs := by
      refine spots_of_manifest ?_ ?_ heq
      · intro r hr
        exact h.ne_nil ((hmem r).mp hr)
      · intro r hr
        exact ((h.sent r).mp hr).1
    have hthere : q ∈ u.targetFiles target := (hmem q).mpr (h.file_iff.mpr (.inr hq))
    rw [hspots] at hthere
    exact ((h.sent q).mp hthere).2
  · intro hno
    have hsame : ∀ q, q ∈ u.targetFiles target ↔ q ∈ qs := by
      intro q
      rw [hmem, h.file_iff]
      constructor
      · intro hq
        rcases hq with hsent | hbefore
        · exact hsent
        · have hne : q ≠ [] := h.ne_nil (h.file_iff.mpr (.inr hbefore))
          exact (h.sent q).mpr ⟨hne, hno q hbefore⟩
      · intro hq
        exact .inl hq
    have hspots : u.targetFiles target = qs := by
      rw [hqs, StoreTree.targetFiles]
      refine sortSpots_congr (hlist.nodup.filter _) hnodup ?_ ?_
      · intro q hq
        exact h.ne_nil ((hmem q).mp (mem_sortSpots.mpr hq))
      · intro q
        have hq := hsame q
        rw [hqs, StoreTree.targetFiles, mem_sortSpots, mem_sortSpots] at hq
        exact hq
    rw [StoreTree.targetManifest, hspots]
    refine manifest_congr fun q hq => ?_
    exact StoreTree.content_eq hu habs h.way ((h.sent q).mp hq).1 (h.there q hq)

end HoldsUpload

/-- Where a confirmed upload has brought the server. -/
theorem received_of_upload (hhash : Function.Injective f.hashOf)
    {toBlobs : Collection → List (List UInt8)} (hloads : LoadsBack f toBlobs)
    {hashText : Hash → String} {parseHash : String → HashText}
    (htext : ∀ hash, parseHash (hashText hash) = .hash hash) {w w' : BlobClient} {t before : Tree}
    {walk : List Spot} {localRoot remote target : Path} (hlocal : w.Holds localRoot t walk)
    (hsettles : Settles w.blob) (hw : w.blob.sent = []) {replies frames : List TransferFrame}
    {request : BlobPutRequest} {h : Hash}
    (hclient : BlobClient.run f (Client.uploadBlobDir toBlobs hashText localRoot remote replies) w
      = (.ok h, w'))
    (hsent : w'.blob.sent = .blobPutRequest request :: frames) {context : ShellContext}
    (htarget : context.resolvePath request.path.toList = .ok target) {v v' u : StoreTree}
    (hv : v.nodes = before.nodes ∧ v.blob.sent = []) {r : Option (Except String Unit)}
    (hserver : StoreTree.run f (handleBlobPutRequest parseHash context request frames) v = (r, v'))
    (hreplies : replies <+: v'.blob.sent) (hsame : Untouched target v' u) :
    ∃ qs, qs = sortSpots (filesOf t.nodes [] walk)
      ∧ ((toBlobs (manifest f (w.content localRoot)
        (qs.map fun q => (relPath q).display))).map f.hashOf).getLast? = some h
      ∧ (∀ q ∈ qs, (w.content localRoot (relPath q).display).length ≤ maxInMemoryTransferBytes)
      ∧ HoldsUpload t v.nodes target (w.content localRoot) qs u := by
  have hmem : ∀ q, q ∈ sortSpots (filesOf t.nodes [] walk) ↔ q ≠ [] ∧ (fileAt t.nodes q).isSome := by
    intro q
    rw [mem_sortSpots, filesOf, List.mem_filter, hlocal.walks.mem, List.nil_append]
    constructor
    · intro hq
      exact ⟨hq.1.1, hq.2⟩
    · intro hq
      refine ⟨⟨hq.1, ?_⟩, hq.2⟩
      intro hnone
      rw [fileAt, hnone] at hq
      cases hq.2
  obtain ⟨hroot, ⟨ready, complete, rest, hask⟩, total, hwrote⟩ :=
    BlobClient.uploadBlobDir_ok_inv hhash hsettles hlocal.collected hclient
  rw [sortNames_display] at hroot hwrote
  rw [hw, List.nil_append, hsent, List.cons.injEq] at hwrote
  obtain ⟨hrequest, rfl⟩ := hwrote
  cases hrequest
  have hcomplete : TransferFrame.putComplete complete ∈ v'.blob.sent := by
    apply hreplies.subset
    rw [hask]
    simp
  have hrooted : IsDir v.nodes [] := by
    rw [hv.1]
    exact before.rooted
  have hformat : isHashSeq "hashseq" = true := by decide
  obtain ⟨hsmall, hopen, hthere, helse⟩ := StoreTree.uploaded_inv hhash hloads
    (fun q hq => ((hmem q).mp hq).1) (nodup_sortSpots (hlocal.walks.nodup.filter _)) rfl hroot hv.2
    hrooted (htext h) hformat htarget hserver hcomplete
  refine ⟨_, rfl, hroot, ?_, hmem, ?_, ?_, ?_⟩
  · intro q hq
    exact hsmall _ (List.mem_map_of_mem hq)
  · exact hopen.congr hsame.way
  · intro q hq
    rw [hsame.files]
    exact hthere q hq
  · intro q hq
    rw [hsame.files]
    refine helse _ fun r hr heq => ?_
    rw [List.append_cancel_left heq] at hq
    exact hq hr

namespace Proof

/-- **A directory has one hash exactly if the target had no other files.** The client has uploaded a
directory and got `h`. As long as its files stay as they are, adding the target to the store gives
`h` if and only if every file that was below the place of the target before the upload has the name
of an uploaded one. -/
theorem blob_dir_hash_iff (hhash : Function.Injective f.hashOf)
    {toBlobs : Collection → List (List UInt8)} (hloads : LoadsBack f toBlobs)
    {hashText : Hash → String} {parseHash : String → HashText}
    (htext : ∀ hash, parseHash (hashText hash) = .hash hash) {w w' : BlobClient} {t before later : Tree}
    {walk : List Spot} {localRoot remote target : Path} (hlocal : w.Holds localRoot t walk)
    (hsettles : Settles w.blob) (hw : w.blob.sent = []) {replies frames : List TransferFrame}
    {request : BlobPutRequest} {h : Hash}
    -- the client's side of the upload
    (hclient : BlobClient.run f (Client.uploadBlobDir toBlobs hashText localRoot remote replies) w
      = (.ok h, w'))
    (hsent : w'.blob.sent = .blobPutRequest request :: frames) {context : ShellContext}
    (htarget : context.resolvePath request.path.toList = .ok target) {v v' u : StoreTree}
    (hv : v.nodes = before.nodes ∧ v.blob.sent = []) {r : Option (Except String Unit)}
    -- the server's side of it
    (hserver : StoreTree.run f (handleBlobPutRequest parseHash context request frames) v = (r, v'))
    (hreplies : replies <+: v'.blob.sent)
    -- and the server later on
    (hu : u.nodes = later.nodes) (hsame : Untouched target v' u)
    (hlist : u.Lists (spot target.parts)) (husettles : Settles u.blob) :
    (Lucky u.blob →
      ((∃ n, (StoreTree.run f (addDirectoryToStore toBlobs target) u).1 = .ok (h, n))
        ↔ NoStrangers t v.nodes (spot target.parts)))
    ∧ ∀ h' n, (StoreTree.run f (addDirectoryToStore toBlobs target) u).1 = .ok (h', n) →
      (h' = h ↔ NoStrangers t v.nodes (spot target.parts)) := by
  have habs := resolvePath_absolute htarget
  obtain ⟨qs, hqs, hroot, hsmall, hreceived⟩ := received_of_upload hhash hloads htext hlocal hsettles hw
    hclient hsent htarget hv hserver hreplies hsame
  have hsameIff := hreceived.manifest_eq_iff (f := f) hu habs hlist hqs (hlocal.walks.nodup.filter _)
  obtain ⟨hinv, hlucky⟩ := @StoreTree.addDirectoryToStore_run f u target _ hu habs
    hreceived.way hlist toBlobs husettles
  have hiff : ∀ h' n, (StoreTree.run f (addDirectoryToStore toBlobs target) u).1 = .ok (h', n) →
      (h' = h ↔ NoStrangers t v.nodes (spot target.parts)) := by
    intro h' n hok
    have hroot' := hinv h' n hok
    rw [← hsameIff]
    constructor
    · intro heq
      rw [heq] at hroot'
      exact hloads.root_injective hhash (fun _ => manifest_hashes) (fun _ => manifest_hashes) hroot' hroot
    · intro heq
      rw [heq, hroot] at hroot'
      exact (Option.some.inj hroot').symm
  refine ⟨fun hl => ⟨?_, ?_⟩, hiff⟩
  · intro hfound
    obtain ⟨n, hok⟩ := hfound
    exact (hiff h n hok).mp rfl
  · intro hno
    have heq := hsameIff.mpr hno
    refine hlucky hl ?_ h ?_
    · have hspots : u.targetFiles target = qs := by
        refine spots_of_manifest ?_ (fun q hq => ((hreceived.sent q).mp hq).1) heq
        intro q hq
        exact ((StoreTree.mem_targetFiles hlist).mp hq).1
      intro q hq
      rw [hspots] at hq
      rw [StoreTree.content_eq hu habs hreceived.way ((hreceived.sent q).mp hq).1 (hreceived.there q hq)]
      exact hsmall q hq
    · rw [heq]
      exact hroot

/-! ### A store that keeps blobs under themselves -/

/-- Strings of bytes in one: a byte is behind a 1, and a 0 ends a string. -/
def packItems (items : List (List UInt8)) : List UInt8 :=
  items.flatMap fun item => item.flatMap (fun b => [1, b]) ++ [0]

def unpackItems (item : List UInt8) : List UInt8 → List (List UInt8)
  | [] => []
  | 0 :: rest => item :: unpackItems [] rest
  | [_] => []
  | _ :: b :: rest => unpackItems (item ++ [b]) rest

def nameBytes (name : List Char) : List UInt8 := name.flatMap fun c => BigEndian.beEncode 4 c.toNat

def readName : List UInt8 → List Char
  | a :: b :: c :: d :: rest => Char.ofNat (BigEndian.beDecode [a, b, c, d]) :: readName rest
  | _ => []

/-- A collection is the blob of its names, and a blob with the hash of that and its own. -/
def flatBlobs (collection : Collection) : List (List UInt8) :=
  [packItems (collection.map fun entry => nameBytes entry.1),
    packItems (packItems (collection.map fun entry => nameBytes entry.1) :: collection.map Prod.snd)]

def flatFormat : StoreFormat where
  hashOf := id
  load := fun lookup root =>
    match (lookup root).map (unpackItems []) with
    | some (names :: hashes) =>
        (lookup names).map fun names => ((unpackItems [] names).map readName).zip hashes
    | _ => none
  links := unpackItems []

theorem unpackItems_item (item : List UInt8) (start rest : List UInt8) :
    unpackItems start (item.flatMap (fun b => [1, b]) ++ 0 :: rest)
      = (start ++ item) :: unpackItems [] rest := by
  induction item generalizing start with
  | nil =>
      rw [List.flatMap_nil, List.nil_append, List.append_nil]
      rfl
  | cons b item ih =>
      show unpackItems (start ++ [b]) (item.flatMap (fun b => [1, b]) ++ 0 :: rest) = _
      rw [ih, List.append_assoc]
      rfl

theorem unpackItems_packItems (items : List (List UInt8)) : unpackItems [] (packItems items) = items := by
  induction items with
  | nil => rfl
  | cons item items ih =>
      have hpack : packItems (item :: items) = item.flatMap (fun b => [1, b]) ++ 0 :: packItems items := by
        rw [packItems, List.flatMap_cons, List.append_assoc]
        rfl
      rw [hpack, unpackItems_item, ih, List.nil_append]

theorem readName_nameBytes (name : List Char) : readName (nameBytes name) = name := by
  induction name with
  | nil => rfl
  | cons c name ih =>
      have hlt : c.toNat < 256 ^ 4 := by
        have hvalid : c.toNat < 0xd800 ∨ 0xdfff < c.toNat ∧ c.toNat < 0x110000 := c.valid
        omega
      have hread := BigEndian.beDecode_beEncode hlt
      have hlen := BigEndian.length_beEncode 4 c.toNat
      rw [nameBytes, List.flatMap_cons, ← nameBytes]
      match hbytes : BigEndian.beEncode 4 c.toNat, hlen with
      | [x, y, z, u], _ =>
          rw [hbytes] at hread
          show Char.ofNat (BigEndian.beDecode [x, y, z, u]) :: readName (nameBytes name) = _
          rw [hread, ih, Char.ofNat_toNat]

theorem flatFormat_loadsBack : LoadsBack flatFormat flatBlobs := by
  intro lookup collection root _ hroot hfound
  have hlast : packItems (packItems (collection.map fun entry => nameBytes entry.1)
      :: collection.map Prod.snd) = root := Option.some.inj hroot
  have hnames := hfound _ List.mem_cons_self
  have hlinks := hfound _ (List.mem_cons_of_mem _ List.mem_cons_self)
  simp only [flatFormat, id] at hnames hlinks
  rw [hlast] at hlinks
  have hread : ((collection.map fun entry => nameBytes entry.1).map readName) = collection.map Prod.fst := by
    rw [List.map_map]
    exact List.map_congr_left fun entry _ => readName_nameBytes entry.1
  simp only [flatFormat, hlinks, Option.map_some]
  rw [← hlast, unpackItems_packItems]
  dsimp only
  rw [hnames, Option.map_some, unpackItems_packItems, hread]
  have hzip := List.zip_unzip collection
  rw [List.unzip_eq_map] at hzip
  exact congrArg some hzip

/-- The text of a hash: one character for each byte. -/
def flatText (hash : Hash) : String := String.ofList (hash.map fun b => Char.ofNat b.toNat)

def flatParse (text : String) : HashText := .hash (text.toList.map fun c => UInt8.ofNat c.toNat)

theorem flatParse_flatText (hash : Hash) : flatParse (flatText hash) = .hash hash := by
  rw [flatParse, flatText, String.toList_ofList, List.map_map]
  refine congrArg HashText.hash ((List.map_congr_left fun b _ => ?_).trans (List.map_id _))
  have hlt : b.toNat < 256 := b.toNat_lt
  have hvalid : b.toNat.isValidChar := .inl (by omega)
  have hchar : (Char.ofNat b.toNat).toNat = b.toNat := by
    rw [Char.ofNat, dif_pos hvalid]
    rfl
  rw [Function.comp_apply, hchar, UInt8.ofNat_toNat, id]

/-- A store and a stream on which everything works. -/
def freshBlobs : BlobWorld := ⟨[], [], [], [], fun _ => .works, 0⟩

/-- A client with the directory of `singleWorld`. -/
def oneFileClient : BlobClient := ⟨freshBlobs, singleWorld.walked, fun _ => some [7]⟩

/-- The hash of a directory with `b` in it. -/
def oneFileHash : Hash := packItems [packItems [nameBytes ['b']], [7]]

/-- The server's replies to an upload of it. -/
def oneFileReplies : List TransferFrame :=
  [.putReady ⟨UInt64.ofNat ((flatBlobs [(['b'], [7])]).map List.length).sum, none⟩,
    .putComplete ⟨UInt64.ofNat (sentBytes [7] + ((flatBlobs [(['b'], [7])]).map sentBytes).sum)⟩]

/-- Both sides of an upload. -/
def clientUploads (remote : Path) : Except String Hash × BlobClient :=
  BlobClient.run flatFormat (Client.uploadBlobDir flatBlobs flatText ⟨.rootDir, [.normal nameA]⟩ remote
    oneFileReplies) oneFileClient

def serverReceives (remote : Path) (v : StoreTree) : Option (Except String Unit) × StoreTree :=
  StoreTree.run flatFormat (handleBlobPutRequest flatParse (.stateless none)
    (Client.blobDirRequest remote (flatText oneFileHash) ((flatBlobs [(['b'], [7])]).map List.length).sum)
    (clientUploads remote).2.blob.sent.tail) v

/-- A server whose file system is known, and says what is there. -/
def serverWith (N : Nodes) (below : List Spot) : StoreTree where
  blob := freshBlobs
  nodes := N
  dirMode := 0o755
  fileMode := 0o600
  probe := fun p =>
    match lead N [] p.parts with
    | .at s => .ok (N s).isNone
    | .missing => .ok true
    | .blocked => .error ()
  listing := fun s => if s = [nameA] then below else []

theorem oneFileClient_holds (root : Path) : oneFileClient.Holds root (singleFile nameB [7]) [[nameB]] where
  walks := (singleWorld_holds root).walks
  walked := (singleWorld_holds root).walked
  files := by
    intro q mode data h
    simp only [singleFile] at h
    split_ifs at h
    · cases h
    · cases h
      rfl

/-- The directory `/a` with the file `b`, as the server makes it. -/
def exportedTree : Tree where
  nodes := Function.update (Function.update emptyWorld.nodes [nameA] (some (.dir 0o755)))
    [nameA, nameB] (some (.file 0o600 [7]))
  rooted := ⟨0o755, rfl⟩
  grounded := by
    intro q m h
    by_cases hb : q ++ [m] = [nameA, nameB]
    · have hb' : q ++ [m] = [nameA] ++ [nameB] := hb
      rw [(List.append_inj' hb' rfl).1]
      exact ⟨0o755, rfl⟩
    · rw [Function.update_of_ne hb] at h
      by_cases ha : q ++ [m] = [nameA]
      · have ha' : q ++ [m] = [] ++ [nameA] := ha
        rw [(List.append_inj' ha' rfl).1]
        exact ⟨0o755, rfl⟩
      · rw [Function.update_of_ne ha] at h
        exact absurd (if_neg (by simp)) h

unseal splitChunks in
theorem serverReceives_nodes :
    (serverReceives ⟨.rootDir, [.normal nameA]⟩ (serverWith emptyWorld.nodes [[nameB]])).2.nodes
      = exportedTree.nodes := rfl

theorem exportedTree_nodes : exportedTree.nodes
    = Function.update (Function.update emptyWorld.nodes [nameA] (some (.dir 0o755)))
      [nameA, nameB] (some (.file 0o600 [7])) := rfl

theorem exportedTree_lists : (serverWith exportedTree.nodes [[nameB]]).Lists [nameA] where
  nodup := by decide
  mem := by
    intro q
    show q ∈ [[nameB]] ↔ q ≠ [] ∧ exportedTree.nodes ([nameA] ++ q) ≠ none
    by_cases hb : q = [nameB]
    · simp [hb, exportedTree]
    · by_cases hnil : q = []
      · simp [hnil]
      · have hfar : [nameA] ++ q ≠ [nameA, nameB] := fun h => hb (List.cons.inj h).2
        have hnear : [nameA] ++ q ≠ [nameA] := fun h => hnil (List.cons.inj h).2
        have hnone : exportedTree.nodes ([nameA] ++ q) = none := by
          rw [exportedTree_nodes, Function.update_of_ne hfar, Function.update_of_ne hnear]
          rfl
        rw [hnone, List.mem_singleton]
        exact ⟨fun h => absurd h hb, fun h => absurd rfl h.2⟩

theorem clientUploads_sent :
    (clientUploads ⟨.rootDir, [.normal nameA]⟩).2.blob.sent
      = .blobPutRequest (Client.blobDirRequest ⟨.rootDir, [.normal nameA]⟩ (flatText oneFileHash)
          ((flatBlobs [(['b'], [7])]).map List.length).sum)
        :: (clientUploads ⟨.rootDir, [.normal nameA]⟩).2.blob.sent.tail := by
  decide +kernel

theorem clientUploads_ok : (clientUploads ⟨.rootDir, [.normal nameA]⟩).1 = .ok oneFileHash := by
  decide +kernel

theorem serverReceives_sent :
    (serverReceives ⟨.rootDir, [.normal nameA]⟩ (serverWith emptyWorld.nodes [[nameB]])).2.blob.sent
      = oneFileReplies := by
  decide +kernel

/-- Uploaded to `/a`, where nothing was, the directory has the same hash. -/
theorem hash_of_one_file :
    ∃ n, (StoreTree.run flatFormat (addDirectoryToStore flatBlobs ⟨.rootDir, [.normal nameA]⟩)
      (serverWith exportedTree.nodes [[nameB]])).1 = .ok (oneFileHash, n) := by
  have hresolve : ShellContext.resolvePath (.stateless none)
      (Client.blobDirRequest ⟨.rootDir, [.normal nameA]⟩ (flatText oneFileHash)
        ((flatBlobs [(['b'], [7])]).map List.length).sum).path.toList = .ok ⟨.rootDir, [.normal nameA]⟩ := by
    rw [Client.blobDirRequest, String.toList_ofList]
    exact resolvePath_display _ rfl
  have hsame : Untouched ⟨.rootDir, [.normal nameA]⟩
      (serverReceives ⟨.rootDir, [.normal nameA]⟩ (serverWith emptyWorld.nodes [[nameB]])).2
      (serverWith exportedTree.nodes [[nameB]]) :=
    { way := fun s _ h => by
        rw [serverReceives_nodes] at h
        exact h
      files := fun q => by
        rw [serverReceives_nodes]
        rfl }
  have hiff := @blob_dir_hash_iff flatFormat Function.injective_id flatBlobs flatFormat_loadsBack flatText
    flatParse flatParse_flatText oneFileClient (clientUploads ⟨.rootDir, [.normal nameA]⟩).2
    (singleFile nameB [7]) ⟨emptyWorld.nodes, ⟨0o755, rfl⟩, fun q n h => absurd (if_neg (by simp)) h⟩
    exportedTree [[nameB]] ⟨.rootDir, [.normal nameA]⟩ ⟨.rootDir, [.normal nameA]⟩ ⟨.rootDir, [.normal nameA]⟩
    (oneFileClient_holds _) (fun _ h => by cases h) rfl oneFileReplies
    (clientUploads ⟨.rootDir, [.normal nameA]⟩).2.blob.sent.tail
    (Client.blobDirRequest ⟨.rootDir, [.normal nameA]⟩ (flatText oneFileHash)
          ((flatBlobs [(['b'], [7])]).map List.length).sum) oneFileHash
    (Prod.ext clientUploads_ok rfl) clientUploads_sent (.stateless none) hresolve
    (serverWith emptyWorld.nodes [[nameB]])
    (serverReceives ⟨.rootDir, [.normal nameA]⟩ (serverWith emptyWorld.nodes [[nameB]])).2
    (serverWith exportedTree.nodes [[nameB]]) ⟨rfl, rfl⟩
    (serverReceives ⟨.rootDir, [.normal nameA]⟩ (serverWith emptyWorld.nodes [[nameB]])).1
    (Prod.mk.eta (p := serverReceives _ _)).symm (by rw [serverReceives_sent]) rfl hsame
    exportedTree_lists (fun _ h => by cases h)
  refine (hiff.1 fun _ => rfl).mpr fun q hq => ?_
  have hnofile : ∀ s, fileAt emptyWorld.nodes s = none := by
    intro s
    by_cases hs : s = []
    · rw [hs]
      rfl
    · have hnone : emptyWorld.nodes s = none := if_neg hs
      rw [fileAt, hnone]
  have hq' : (fileAt emptyWorld.nodes (spot [.normal nameA] ++ q)).isSome := hq
  rw [hnofile] at hq'
  cases hq'

def nameC : Name := ⟨['c'], by decide⟩

/-- `/a` has a file `c`, and there is no `/b`. -/
def strangerNodes : Nodes := fun s =>
  if s = [] ∨ s = [nameA] then some (.dir 0o755)
  else if s = [nameA, nameC] then some (.file 0o644 [9]) else none

/-- The target is `/b/../a`. It does not exist while there is no `/b`; the export makes `/b`, and its files
go to `/a`, beside the file that is there. -/
theorem stranger_changes_hash :
    (clientUploads ⟨.rootDir, [.normal nameB, .parent, .normal nameA]⟩).1 = .ok oneFileHash
      ∧ (serverWith strangerNodes [[nameB], [nameC]]).probe
          ⟨.rootDir, [.normal nameB, .parent, .normal nameA]⟩ = .ok true
      ∧ (serverReceives ⟨.rootDir, [.normal nameB, .parent, .normal nameA]⟩
          (serverWith strangerNodes [[nameB], [nameC]])).2.blob.sent = oneFileReplies
      ∧ ∃ h n, (StoreTree.run flatFormat
          (addDirectoryToStore flatBlobs ⟨.rootDir, [.normal nameB, .parent, .normal nameA]⟩)
          (serverReceives ⟨.rootDir, [.normal nameB, .parent, .normal nameA]⟩
            (serverWith strangerNodes [[nameB], [nameC]])).2).1 = .ok (h, n) ∧ h ≠ oneFileHash :=
  ⟨by decide +kernel, by decide +kernel, by decide +kernel,
    packItems [packItems [nameBytes ['b'], nameBytes ['c']], [7], [9]],
      61, by decide +kernel, by decide +kernel⟩

end Proof

end Irosh
