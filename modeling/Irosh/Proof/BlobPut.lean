import Irosh.Proof.HashSeq

/-!
# What a blob upload leaves behind

Two questions about `handle_blob_put_request`, for every content of the store, every
stream of frames and every way in which an operation can fail. If it answers
`PutComplete`, was the target built from what this transfer has sent? And if it fails
once the target has been found missing, is the target still missing?

Both are read off the same picture of a run: the blob is received and checked, which
only adds to the store; then it is exported, which only adds paths. A raw upload
compares hashes between the two. A hash-seq upload asks a store that outlives
transfers whether it knows the hash, and makes the target directory first thing in
the export.
-/

namespace Irosh

open UnixPath BigEndian Wire BlobWorld

variable {f : StoreFormat}

/-! ## Frames: what the parts of a run leave alone -/

/-- Operations that neither send nor store. -/
def BlobOp.Quiet : BlobOp → Prop
  | .send _ => False
  | .addBytes _ => False
  | _ => True

/-- Operations that neither send nor touch a file. -/
def BlobOp.Silent : BlobOp → Prop
  | .fs _ => False
  | .send _ => False
  | _ => True

/-- Operations on the store and its budget. -/
def BlobOp.OfStore : BlobOp → Prop
  | .acquire _ | .release | .reserve _ | .accepted _ | .leave => True
  | .addBytes _ | .status _ | .load _ => True
  | _ => False

theorem BlobOp.OfStore.silent {o : BlobOp} (h : o.OfStore) : o.Silent := by
  cases o with
  | fs o => exact absurd h id
  | send frame => exact absurd h id
  | _ => trivial

theorem answerFs_frame (o : FsOp) (w : BlobWorld) :
    (w.answerFs f o).2.store = w.store ∧ (w.answerFs f o).2.added = w.added
      ∧ (w.answerFs f o).2.sent = w.sent := by
  cases o
  all_goals simp only [answerFs]
  all_goals try split_ifs
  all_goals exact ⟨rfl, rfl, rfl⟩

theorem answer_quiet {o : BlobOp} {w : BlobWorld} (ho : o.Quiet) :
    (w.answer f o).2.store = w.store ∧ (w.answer f o).2.added = w.added
      ∧ (w.answer f o).2.sent = w.sent := by
  cases o with
  | fs o => exact answerFs_frame o w
  | send frame => exact absurd ho id
  | addBytes blob => exact absurd ho id
  | _ => exact ⟨rfl, rfl, rfl⟩

theorem answer_silent {o : BlobOp} {w : BlobWorld} (ho : o.Silent) :
    (w.answer f o).2.sent = w.sent ∧ (w.answer f o).2.paths = w.paths := by
  cases o with
  | fs o => exact absurd ho id
  | send frame => exact absurd ho id
  | addBytes blob =>
      simp only [answer]
      cases w.next
      all_goals exact ⟨rfl, rfl⟩
  | _ => exact ⟨rfl, rfl⟩

/-- A program of quiet operations leaves the store and the conversation alone. -/
theorem run_quiet {α : Type} {p : BlobProg α} (hp : p.Always BlobOp.Quiet) (w : BlobWorld) :
    (run f p w).2.store = w.store ∧ (run f p w).2.added = w.added
      ∧ (run f p w).2.sent = w.sent := by
  refine hp.eval_invariant
    (I := fun w' : BlobWorld => w'.store = w.store ∧ w'.added = w.added ∧ w'.sent = w.sent) ?_ ⟨rfl, rfl, rfl⟩
  intro o s ho hs
  obtain ⟨h₁, h₂, h₃⟩ := answer_quiet (f := f) (w := s) ho
  exact ⟨h₁.trans hs.1, h₂.trans hs.2.1, h₃.trans hs.2.2⟩

/-- So does every file system program. -/
theorem lift_quiet {α : Type} (p : FsProg α) : (FsProg.lift p).Always BlobOp.Quiet :=
  (Prog.always_true p).lift fun _ _ => trivial

theorem run_silent {α : Type} {p : BlobProg α} (hp : p.Always BlobOp.Silent) (w : BlobWorld) :
    (run f p w).2.sent = w.sent ∧ (run f p w).2.paths = w.paths := by
  refine hp.eval_invariant (I := fun w' : BlobWorld => w'.sent = w.sent ∧ w'.paths = w.paths) ?_
    ⟨rfl, rfl⟩
  intro o s ho hs
  obtain ⟨h₁, h₂⟩ := answer_silent (f := f) (w := s) ho
  exact ⟨h₁.trans hs.1, h₂.trans hs.2⟩

/-! ## Which operations the parts perform -/

theorem startBlob_ofStore (st : HashSeq) (data : List UInt8) :
    (startBlob st data).Always BlobOp.OfStore := by
  unfold startBlob
  dsimp only
  split
  · exact Prog.always_pure _
  split
  · exact Prog.always_pure _
  split
  · exact Prog.always_pure _
  refine ⟨trivial, fun _ => ⟨trivial, fun granted => ?_⟩⟩
  refine Prog.always_guard ⟨trivial, fun reserved => Prog.always_guard ?_⟩
  split
  · exact Prog.always_pure _
  · exact Prog.always_pure _

theorem finishBlob_ofStore (st : HashSeq) : (finishBlob st).Always BlobOp.OfStore := by
  unfold finishBlob
  split_ifs
  · refine ⟨trivial, fun added => ?_⟩
    cases added with
    | error _ => exact Prog.always_pure _
    | ok _ => exact ⟨trivial, fun _ => Prog.always_pure _⟩
  · exact Prog.always_pure _

theorem takeChunk_ofStore (st : HashSeq) (data : List UInt8) :
    (takeChunk st data).Always BlobOp.OfStore := by
  have hplace : (placeChunk st data).Always BlobOp.OfStore := by
    unfold placeChunk
    split_ifs
    · exact startBlob_ofStore st data
    · exact Prog.always_pure _
  refine hplace.bind fun placed => ?_
  cases placed with
  | error e => exact Prog.always_pure _
  | ok st =>
      dsimp only
      unfold countChunk
      cases countReceived st.received data.length with
      | error e => exact Prog.always_pure _
      | ok received => exact ⟨trivial, fun _ => finishBlob_ofStore _⟩

theorem recvHashSeq_ofStore (st : HashSeq) (frames : List TransferFrame) :
    (recvHashSeq st frames).Always BlobOp.OfStore := by
  induction frames generalizing st with
  | nil => exact Prog.always_pure _
  | cons frame frames ih =>
      cases frame with
      | putChunk data =>
          refine (takeChunk_ofStore st data).bind fun taken => ?_
          cases taken with
          | error e => exact Prog.always_pure _
          | ok st => exact ih st
      | _ => exact Prog.always_pure _

theorem recvRaw_ofStore (size received : Nat) (allData : List UInt8) (frames : List TransferFrame) :
    (recvRaw size received allData frames).Always BlobOp.OfStore := by
  induction frames generalizing received allData with
  | nil => exact Prog.always_pure _
  | cons frame frames ih =>
      cases frame with
      | putChunk data =>
          rw [recvRaw]
          cases countReceived received data.length with
          | error e => exact Prog.always_pure _
          | ok received =>
              dsimp only
              split_ifs
              · exact Prog.always_pure _
              · exact ⟨trivial, fun _ => ih _ _⟩
      | _ => exact Prog.always_pure _

theorem receiveBlob_ofStore (request : BlobPutRequest) (hash : Hash) (frames : List TransferFrame) :
    (receiveBlob request hash frames).Always BlobOp.OfStore := by
  unfold receiveBlob
  split_ifs
  · refine (recvHashSeq_ofStore .init frames).bind fun received => ?_
    cases received with
    | error e => exact Prog.always_pure _
    | ok st =>
        dsimp only
        split_ifs
        · exact Prog.always_pure _
        · refine ⟨trivial, fun known => ?_⟩
          rcases known with _ | _ | _
          all_goals exact Prog.always_pure _
  · unfold verifyRaw
    split_ifs
    · exact Prog.always_pure _
    · refine ⟨trivial, fun granted => Prog.always_guard ?_⟩
      refine (recvRaw_ofStore _ 0 [] frames).bind fun received => ?_
      rcases received with _ | ⟨received, allData⟩
      · exact Prog.always_pure _
      · refine ⟨trivial, fun added => ?_⟩
        rcases added with _ | _ | actual
        · exact Prog.always_pure _
        · exact Prog.always_pure _
        · dsimp only [Prog.bind]
          split_ifs
          all_goals exact Prog.always_pure _

theorem receiveBlob_silent (request : BlobPutRequest) (hash : Hash) (frames : List TransferFrame) :
    (receiveBlob request hash frames).Always BlobOp.Silent :=
  (receiveBlob_ofStore request hash frames).mono fun _ => BlobOp.OfStore.silent

theorem exportReceived_quiet (request : BlobPutRequest) (hash : Hash) (target : Path) :
    (exportReceived request hash target).Always BlobOp.Quiet := by
  unfold exportReceived
  split_ifs
  · refine ⟨trivial, fun made => Prog.always_guard ⟨trivial, fun read => Prog.always_guard ?_⟩⟩
    refine ⟨trivial, fun loaded => ?_⟩
    cases loaded with
    | none => exact Prog.always_pure _
    | some collection => exact lift_quiet _
  · exact ⟨trivial, fun _ => Prog.always_pure _⟩

/-! ## Receiving -/

/-- The chunks in front of the first frame that is none. -/
def leadingChunks : List TransferFrame → List (List UInt8)
  | .putChunk data :: rest => data :: leadingChunks rest
  | _ => []

/-- The whole blobs that a list of chunks carries. -/
def HashSeq.carried (st : HashSeq) : List (List UInt8) → List (List UInt8)
  | [] => []
  | data :: chunks => (st.place data).handed ++ (st.place data).settle.carried chunks

theorem recvHashSeq_stores {frames : List TransferFrame} {st st' : HashSeq} {w w' : BlobWorld}
    (h : run f (recvHashSeq st frames) w = (.ok st', w')) :
    OnlyStores w w' (st.carried (leadingChunks frames)) := by
  induction frames generalizing st w with
  | nil => cases h
  | cons frame frames ih =>
      cases frame with
      | putChunk data =>
          rw [recvHashSeq, run_bind] at h
          cases ht : run f (takeChunk st data) w with
          | mk taken w₁ =>
              rw [ht] at h
              cases taken with
              | error e => cases h
              | ok st₁ =>
                  obtain ⟨-, rfl, hs, -⟩ := takeChunk_ok_inv ht
                  exact hs.trans (ih h)
      | putComplete complete =>
          rw [recvHashSeq, run_pure, Prod.mk.injEq] at h
          rw [← h.2]
          exact OnlyStores.refl w
      | _ => cases h

theorem received_settle_place (st : HashSeq) (data : List UInt8) :
    (st.place data).settle.received = st.received + data.length := by
  unfold HashSeq.settle HashSeq.place
  split_ifs
  all_goals rfl

/-- Every byte of a chunk is counted, and all of them are within the cap. -/
theorem recvHashSeq_counts {frames : List TransferFrame} {st st' : HashSeq} {w w' : BlobWorld}
    (h : run f (recvHashSeq st frames) w = (.ok st', w'))
    (hcap : st.received ≤ maxInMemoryTransferBytes) :
    st'.received = st.received + (leadingChunks frames).flatten.length
      ∧ st'.received ≤ maxInMemoryTransferBytes := by
  induction frames generalizing st w with
  | nil => cases h
  | cons frame frames ih =>
      cases frame with
      | putChunk data =>
          rw [recvHashSeq, run_bind] at h
          cases ht : run f (takeChunk st data) w with
          | mk taken w₁ =>
              rw [ht] at h
              cases taken with
              | error e => cases h
              | ok st₁ =>
                  obtain ⟨-, rfl, -, hle⟩ := takeChunk_ok_inv ht
                  obtain ⟨hcount, hfinal⟩ := ih h (by rw [received_settle_place]; exact hle)
                  refine ⟨?_, hfinal⟩
                  rw [hcount, received_settle_place, leadingChunks, List.flatten_cons,
                    List.length_append, Nat.add_assoc]
      | putComplete complete =>
          rw [recvHashSeq, run_pure, Prod.mk.injEq, Except.ok.injEq] at h
          rw [← h.1]
          exact ⟨rfl, hcap⟩
      | _ => cases h

/-- A hash-seq upload that is let through: the blobs of the stream are stored, and the store knows
the hash. -/
theorem verifyHashSeq_ok_inv {hash : Hash} {frames : List TransferFrame} {n : Nat}
    {w w' : BlobWorld} (h : run f (verifyHashSeq hash frames) w = (.ok n, w')) :
    OnlyStores w w' (HashSeq.init.carried (leadingChunks frames))
      ∧ (w'.lookup f hash).isSome
      ∧ (leadingChunks frames).flatten.length ≤ maxInMemoryTransferBytes := by
  unfold verifyHashSeq at h
  rw [run_bind] at h
  cases hr : run f (recvHashSeq .init frames) w with
  | mk received w₁ =>
      rw [hr] at h
      cases received with
      | error e => cases h
      | ok st =>
          dsimp only at h
          by_cases h0 : st.blobCount = 0
          · rw [if_pos h0] at h
            cases h
          rw [if_neg h0, run_status] at h
          by_cases hn : w₁.next = .works
          · rw [if_pos hn] at h
            cases hk : (w₁.lookup f hash).isSome with
            | false =>
                rw [hk] at h
                cases h
            | true =>
                rw [hk, run_pure, Prod.mk.injEq] at h
                rw [← h.2]
                obtain ⟨hcount, hcap⟩ := recvHashSeq_counts hr (Nat.zero_le _)
                have htotal : st.received = (leadingChunks frames).flatten.length :=
                  hcount.trans (Nat.zero_add _)
                rw [htotal] at hcap
                exact ⟨(recvHashSeq_stores hr).to_after, hk, hcap⟩
          · rw [if_neg hn] at h
            cases h

/-- The raw loop collects the chunks, and no more than the declared size of them. -/
theorem recvRaw_ok_inv {size received n : Nat} {allData data : List UInt8}
    {frames : List TransferFrame} {w w' : BlobWorld}
    (h : run f (recvRaw size received allData frames) w = (.ok (n, data), w'))
    (hlen : allData.length = received) (hsize : received ≤ size) :
    data = allData ++ (leadingChunks frames).flatten ∧ data.length ≤ size
      ∧ OnlyStores w w' [] := by
  induction frames generalizing received allData w with
  | nil => cases h
  | cons frame frames ih =>
      cases frame with
      | putChunk chunk =>
          rw [recvRaw] at h
          cases hc : countReceived received chunk.length with
          | error e =>
              rw [hc] at h
              cases h
          | ok total =>
              obtain ⟨rfl, -⟩ := countReceived_ok_iff.mp hc
              rw [hc] at h
              dsimp only at h
              by_cases hbig : received + chunk.length > size
              · rw [if_pos hbig] at h
                cases h
              · rw [if_neg hbig, run_accepted] at h
                obtain ⟨hdata, hle, hs⟩ := ih h (by rw [List.length_append, hlen]) (by omega)
                refine ⟨?_, hle, hs.of_after⟩
                rw [hdata, leadingChunks, List.flatten_cons, List.append_assoc]
      | putComplete complete =>
          rw [recvRaw, run_pure, Prod.mk.injEq, Except.ok.injEq, Prod.mk.injEq] at h
          obtain ⟨⟨-, rfl⟩, rfl⟩ := h
          refine ⟨by rw [leadingChunks, List.flatten_nil, List.append_nil]; simp, ?_,
            OnlyStores.refl w⟩
          omega
      | _ => cases h

/-- A raw upload that is let through: what was sent has the hash that was asked for. -/
theorem verifyRaw_ok_inv {hash : Hash} {size n : Nat} {frames : List TransferFrame}
    {w w' : BlobWorld} (h : run f (verifyRaw hash size frames) w = (.ok n, w')) :
    f.hashOf (leadingChunks frames).flatten = hash
      ∧ (leadingChunks frames).flatten.length ≤ size
      ∧ OnlyStores w w' [(leadingChunks frames).flatten] := by
  unfold verifyRaw at h
  by_cases hbig : size > maxInMemoryTransferBytes
  · rw [if_pos hbig] at h
    cases h
  rw [if_neg hbig, run_acquire] at h
  by_cases hgrant : blobMemoryPermits size = 0 ∨ w.next = .works
  · rw [if_pos (decide_eq_true hgrant), run_bind] at h
    cases hr : run f (recvRaw size 0 [] frames) w.after with
    | mk received w₁ =>
        rw [hr] at h
        rcases received with e | ⟨received, data⟩
        · cases h
        obtain ⟨hdata, hle, hs⟩ := recvRaw_ok_inv hr rfl (Nat.zero_le size)
        rw [List.nil_append] at hdata
        subst hdata
        dsimp only at h
        rw [run_addBytes] at h
        cases hn : w₁.next with
        | works =>
            rw [hn] at h
            dsimp only at h
            by_cases hne : f.hashOf (leadingChunks frames).flatten ≠ hash
            · rw [if_pos hne] at h
              cases h
            · rw [if_neg hne, run_pure, Prod.mk.injEq] at h
              rw [← h.2]
              exact ⟨not_not.mp hne, hle, hs.of_after.trans (OnlyStores.one w₁ _)⟩
        | fails =>
            rw [hn] at h
            cases h
        | halfway =>
            rw [hn] at h
            cases h
  · rw [if_neg (by simpa using hgrant)] at h
    cases h

/-! ## Exporting -/

theorem lookup_of_store {w w' : BlobWorld} (h : w'.store = w.store) : w'.lookup f = w.lookup f := by
  funext hash
  rw [lookup, lookup, h]

theorem lookup_isSome_iff {w : BlobWorld} {hash : Hash} :
    (w.lookup f hash).isSome ↔ ∃ blob ∈ w.store, f.hashOf blob = hash := by
  rw [lookup, List.find?_isSome]
  simp only [decide_eq_true_eq]

/-- Every entry of a collection that was exported was in the store. -/
theorem exportItems_ok_inv {target : Path} {collection : Collection} {u : Unit} {w w' : BlobWorld}
    (h : run f (FsProg.lift (exportItems target collection)) w = (.ok u, w')) :
    ∀ entry ∈ collection, (w.lookup f entry.2).isSome := by
  induction collection generalizing w with
  | nil => exact fun entry hentry => absurd hentry List.not_mem_nil
  | cons entry collection ih =>
      obtain ⟨name, hash⟩ := entry
      rw [exportItems] at h
      cases hsafe : sanitizeRelativePath name with
      | error reason =>
          rw [hsafe] at h
          cases h
      | ok safeName =>
          rw [hsafe] at h
          dsimp only at h
          rw [run_lift_bind] at h
          -- making the parent directory does not touch the store
          have hparent := lookup_of_store (f := f)
            (run_quiet (f := f) (lift_quiet (createParent (target.join (parse safeName)))) w).1
          generalize run f (FsProg.lift (createParent (target.join (parse safeName)))) w = made
            at h hparent
          obtain ⟨made, w₁⟩ := made
          cases made with
          | false => cases h
          | true =>
              dsimp only at h
              rw [if_pos rfl, run_lift_exportBlob] at h
              by_cases hc : w₁.next = .works ∧ (w₁.lookup f hash).isSome
              · rw [if_pos (decide_eq_true hc)] at h
                have hrest := ih h
                rw [lookup_of_store (answerFs_frame _ w₁).1, hparent] at hrest
                rw [hparent] at hc
                intro entry hentry
                rcases List.mem_cons.mp hentry with rfl | hentry
                · exact hc.2
                · exact hrest entry hentry
              · rw [if_neg (by simpa using hc)] at h
                cases h

theorem exportLoaded_ok_inv {hash : Hash} {target : Path} {u : Unit} {w w' : BlobWorld}
    (h : run f (exportLoaded hash target) w = (.ok u, w')) :
    ∃ collection, f.load (w.lookup f) hash = some collection
      ∧ ∀ entry ∈ collection, (w.lookup f entry.2).isSome := by
  unfold exportLoaded at h
  rw [run_readBlob, run_ite, run_load] at h
  split_ifs at h with hread hload
  · cases hc : f.load (w.after.lookup f) hash with
    | none =>
        rw [hc] at h
        cases h
    | some collection =>
        rw [hc] at h
        have hitems := exportItems_ok_inv h
        exact ⟨collection, hc, hitems⟩
  · cases h
  · cases h

theorem exportStoredCollection_ok_inv {hash : Hash} {target : Path} {u : Unit} {w w' : BlobWorld}
    (h : run f (exportStoredCollection hash target) w = (.ok u, w')) :
    ∃ collection, f.load (w.lookup f) hash = some collection
      ∧ ∀ entry ∈ collection, (w.lookup f entry.2).isSome := by
  unfold exportStoredCollection at h
  rw [run_createDirAll] at h
  by_cases hmade : w.next = .works
  · rw [if_pos hmade, if_pos rfl] at h
    have hloaded := exportLoaded_ok_inv h
    exact hloaded
  · rw [if_neg hmade] at h
    cases h

/-! ## The whole handler -/

/-- What happens once the hash has been read. -/
theorem handleBlobPutRequest_run {parseHash : String → HashText} {request : BlobPutRequest}
    {hash : Hash} (hhash : parseHash request.hash = .hash hash) (context : ShellContext)
    (frames : List TransferFrame) (w : BlobWorld) :
    run f (handleBlobPutRequest parseHash context request frames) w =
      (some (run f (putExpected context request hash frames) w).1,
        (run f (putExpected context request hash frames) w).2) := by
  unfold handleBlobPutRequest
  rw [hhash]
  dsimp only
  rw [run_bind]
  rfl

/-- What happens once the target has been found missing. -/
theorem putExpected_run {context : ShellContext} {request : BlobPutRequest} {target : Path}
    {w : BlobWorld} (hresolve : context.resolvePath request.path.toList = .ok target)
    (hprobe : w.next = .works) (habsent : target ∉ w.paths) (hash : Hash)
    (frames : List TransferFrame) :
    run f (putExpected context request hash frames) w =
      match run f (servePut request hash target frames) w.after with
      | (.error e, w₁) => (.error e, w₁)
      | (.ok received, w₁) => run f (completePut received) w₁ := by
  unfold putExpected
  rw [hresolve]
  dsimp only
  rw [run_pathMissing, if_pos hprobe, decide_eq_true habsent]
  dsimp only
  rw [run_bind]
  rcases run f (servePut request hash target frames) w.after with ⟨_ | _, w₁⟩
  · rfl
  · rfl

/-- The world once the request has been accepted. -/
def BlobWorld.ready (w : BlobWorld) (request : BlobPutRequest) : BlobWorld :=
  { w.after with sent := w.sent ++ [.putReady ⟨request.size, none⟩] }

theorem servePut_run {request : BlobPutRequest} {hash : Hash} {target : Path}
    {frames : List TransferFrame} {w : BlobWorld} :
    run f (servePut request hash target frames) w =
      if w.next = .works then run f (putBlob request hash target frames) (w.ready request)
      else (.error "failed to send ready", w.after) := by
  unfold servePut
  rw [run_send]
  rfl

theorem putBlob_run {request : BlobPutRequest} {hash : Hash} {target : Path}
    {frames : List TransferFrame} {w : BlobWorld} :
    run f (putBlob request hash target frames) w =
      match run f (receiveBlob request hash frames) w with
      | (.error e, w₁) => (.error e, w₁)
      | (.ok received, w₁) =>
          match run f (exportReceived request hash target) w₁ with
          | (.error e, w₂) => (.error e, w₂)
          | (.ok _, w₂) => (.ok received, w₂.after) := by
  unfold putBlob
  rw [run_bind]
  rcases run f (receiveBlob request hash frames) w with ⟨_ | received, w₁⟩
  · rfl
  · dsimp only
    rw [run_bind]
    rcases run f (exportReceived request hash target) w₁ with ⟨_ | _, w₂⟩
    · rfl
    · rfl

/-- Nothing between the first answer and the last is sent. -/
theorem putBlob_silent (request : BlobPutRequest) (hash : Hash) (target : Path)
    (frames : List TransferFrame) (w : BlobWorld) :
    (run f (putBlob request hash target frames) w).2.sent = w.sent := by
  have hrecv := (run_silent (f := f) (receiveBlob_silent request hash frames) w).1
  rw [putBlob_run]
  cases hr : run f (receiveBlob request hash frames) w with
  | mk received w₁ =>
      rw [hr] at hrecv
      cases received with
      | error e => exact hrecv
      | ok n =>
          have hexport := (run_quiet (f := f) (exportReceived_quiet request hash target) w₁).2.2
          dsimp only
          cases he : run f (exportReceived request hash target) w₁ with
          | mk exported w₂ =>
              rw [he] at hexport
              cases exported with
              | error e => exact hexport.trans hrecv
              | ok u => exact hexport.trans hrecv

theorem putBlob_ok_inv {request : BlobPutRequest} {hash : Hash} {target : Path}
    {frames : List TransferFrame} {n : Nat} {w w' : BlobWorld}
    (h : run f (putBlob request hash target frames) w = (.ok n, w')) :
    ∃ w₁ u w₂, run f (receiveBlob request hash frames) w = (.ok n, w₁)
      ∧ run f (exportReceived request hash target) w₁ = (.ok u, w₂) ∧ w' = w₂.after := by
  rw [putBlob_run] at h
  cases hr : run f (receiveBlob request hash frames) w with
  | mk received w₁ =>
      rw [hr] at h
      cases received with
      | error e => cases h
      | ok m =>
          dsimp only at h
          cases he : run f (exportReceived request hash target) w₁ with
          | mk exported w₂ =>
              rw [he] at h
              cases exported with
              | error e => cases h
              | ok u =>
                  cases h
                  exact ⟨w₁, u, w₂, rfl, he, rfl⟩

/-- The last answer changes nothing but the conversation. -/
theorem completePut_frame (n : Nat) (w : BlobWorld) :
    (run f (completePut n) w).2.store = w.store ∧ (run f (completePut n) w).2.added = w.added := by
  unfold completePut
  rw [run_send]
  split
  · exact ⟨rfl, rfl⟩
  · exact ⟨rfl, rfl⟩

/-- A run that has answered `PutComplete` has received and exported. -/
theorem expected_inv {context : ShellContext} {request : BlobPutRequest} {hash : Hash}
    {frames : List TransferFrame} {w w' : BlobWorld} {r : Except String Unit}
    {complete : TransferComplete} (hsent : w.sent = [])
    (h : run f (putExpected context request hash frames) w = (r, w'))
    (hc : .putComplete complete ∈ w'.sent) :
    ∃ target n w₁ u w₂, run f (receiveBlob request hash frames) (w.after.ready request) = (.ok n, w₁)
      ∧ run f (exportReceived request hash target) w₁ = (.ok u, w₂)
      ∧ w'.store = w₂.store ∧ w'.added = w₂.added := by
  cases hresolve : context.resolvePath request.path.toList with
  | error e =>
      rw [putExpected, hresolve] at h
      cases h
      rw [hsent] at hc
      cases hc
  | ok target =>
    by_cases hprobe : w.next = .works ∧ target ∉ w.paths
    · rw [putExpected_run hresolve hprobe.1 hprobe.2, servePut_run] at h
      by_cases hready : w.after.next = .works
      · rw [if_pos hready] at h
        have hsilent := putBlob_silent (f := f) request hash target frames (w.after.ready request)
        cases hp : run f (putBlob request hash target frames) (w.after.ready request) with
        | mk put w₂ =>
            rw [hp] at h hsilent
            cases put with
            | error e =>
                -- only `PutReady` has been sent
                cases h
                rw [hsilent] at hc
                simp [ready, hsent] at hc
            | ok n =>
                obtain ⟨w₁, u, w₃, hrecv, hexport, rfl⟩ := putBlob_ok_inv hp
                obtain ⟨hstore, hadded⟩ := completePut_frame (f := f) n w₃.after
                dsimp only at h
                rw [h] at hstore hadded
                exact ⟨target, n, w₁, u, w₃, hrecv, hexport, hstore, hadded⟩
      · rw [if_neg hready] at h
        cases h
        rw [after_sent, after_sent, hsent] at hc
        cases hc
    · rw [putExpected, hresolve] at h
      dsimp only at h
      rw [run_pathMissing] at h
      by_cases hn : w.next = .works
      · have hthere : target ∈ w.paths := by
          by_contra hmissing
          exact hprobe ⟨hn, hmissing⟩
        rw [if_pos hn, decide_eq_false (not_not.mpr hthere)] at h
        dsimp only at h
        rw [run_send] at h
        split at h
        · cases h
          simp [hsent] at hc
        · cases h
          simp [hsent] at hc
      · rw [if_neg hn] at h
        cases h
        rw [after_sent, hsent] at hc
        cases hc

/-- The same of the whole handler. -/
theorem answered_inv {parseHash : String → HashText} {context : ShellContext}
    {request : BlobPutRequest} {frames : List TransferFrame} {w w' : BlobWorld}
    {r : Option (Except String Unit)} {complete : TransferComplete} (hsent : w.sent = [])
    (h : run f (handleBlobPutRequest parseHash context request frames) w = (r, w'))
    (hc : .putComplete complete ∈ w'.sent) :
    ∃ hash target n w₁ u w₂, parseHash request.hash = .hash hash
      ∧ run f (receiveBlob request hash frames) (w.after.ready request) = (.ok n, w₁)
      ∧ run f (exportReceived request hash target) w₁ = (.ok u, w₂)
      ∧ w'.store = w₂.store ∧ w'.added = w₂.added := by
  cases hhash : parseHash request.hash with
  | panics =>
      rw [handleBlobPutRequest, hhash] at h
      cases h
      rw [hsent] at hc
      cases hc
  | invalid =>
      rw [handleBlobPutRequest, hhash] at h
      cases h
      rw [hsent] at hc
      cases hc
  | hash hash =>
      rw [handleBlobPutRequest_run hhash] at h
      obtain ⟨-, rfl⟩ := Prod.mk.inj h
      obtain ⟨target, n, w₁, u, w₂, hrest⟩ := expected_inv hsent rfl hc
      exact ⟨hash, target, n, w₁, u, w₂, rfl, hrest⟩

/-! ## Where the exported data comes from -/

/-- What the answer is meant to promise: the data was sent in this transfer. `received` are the
blobs that the transfer has stored. -/
def FromThisTransfer (f : StoreFormat) (request : BlobPutRequest) (hash : Hash)
    (frames : List TransferFrame) (received : List (List UInt8)) : Prop :=
  if isHashSeq request.format then
    ∃ root ∈ received, f.hashOf root = hash
      ∧ ∀ link ∈ f.links root, ∃ blob ∈ received, f.hashOf blob = link
  else
    f.hashOf (leadingChunks frames).flatten = hash
      ∧ (leadingChunks frames).flatten.length ≤ request.size.toNat

/-- Of the blobs the store had before, those that belong to the collection are sent again. -/
def SentAgain (f : StoreFormat) (prior : List (List UInt8)) (hash : Hash)
    (sent : List (List UInt8)) : Prop :=
  ∀ blob ∈ prior,
    (f.hashOf blob = hash
      ∨ ∃ root ∈ prior ++ sent, f.hashOf root = hash ∧ f.hashOf blob ∈ f.links root) →
    blob ∈ sent

/-- The collection's side: everything it refers to is in the store, and whether all of it was sent
depends on what the store had before. -/
theorem collection_sent_iff (hf : f.Lawful) {prior sent : List (List UInt8)} {hash : Hash}
    {w : BlobWorld} (hstore : w.store = prior ++ sent) {collection : Collection}
    (hload : f.load (w.lookup f) hash = some collection)
    (hitems : ∀ entry ∈ collection, (w.lookup f entry.2).isSome) :
    (∃ root ∈ sent, f.hashOf root = hash
        ∧ ∀ link ∈ f.links root, ∃ blob ∈ sent, f.hashOf blob = link)
      ↔ SentAgain f prior hash sent := by
  constructor
  · rintro ⟨root, hroot, hhash, hlinks⟩ blob - hneeded
    rcases hneeded with hblob | ⟨root', -, hhash', hlink⟩
    · rw [hf.hash_injective (hblob.trans hhash.symm)]
      exact hroot
    · rw [hf.hash_injective (hhash'.trans hhash.symm)] at hlink
      obtain ⟨blob', hmem, heq⟩ := hlinks _ hlink
      rw [← hf.hash_injective heq]
      exact hmem
  · intro hagain
    obtain ⟨root, hlookup, hread⟩ := hf.load_links _ _ _ hload
    have hroot : root ∈ prior ++ sent := hstore ▸ List.mem_of_find?_eq_some hlookup
    have hhash : f.hashOf root = hash := by simpa using List.find?_some hlookup
    refine ⟨root, ?_, hhash, ?_⟩
    · rcases List.mem_append.mp hroot with hprior | hsent
      · exact hagain root hprior (.inl hhash)
      · exact hsent
    · intro link hlink
      have hfound : (w.lookup f link).isSome := by
        rcases hread link hlink with hsome | hentry
        · exact hsome
        · obtain ⟨entry, hmem, rfl⟩ := List.mem_map.mp hentry
          exact hitems entry hmem
      obtain ⟨blob, hmem, heq⟩ := lookup_isSome_iff.mp hfound
      rw [hstore] at hmem
      refine ⟨blob, ?_, heq⟩
      rcases List.mem_append.mp hmem with hprior | hsent
      · exact hagain blob hprior (.inr ⟨root, hroot, hhash, heq ▸ hlink⟩)
      · exact hsent

/-- A store small enough to look into: a blob is its own hash, and the root of a collection lists
one-byte blobs, the first for the names and the others for the files. -/
def tinyFormat : StoreFormat where
  hashOf := id
  links root := root.map fun b => [b]
  load lookup hash :=
    match lookup hash with
    | some (names :: files) =>
        if (lookup [names]).isSome then some (files.map fun b => ([Char.ofNat b.toNat], [b]))
        else none
    | _ => none

theorem tinyFormat_lawful : tinyFormat.Lawful where
  hash_injective := Function.injective_id
  load_links := by
    intro lookup hash collection hload
    simp only [tinyFormat] at hload
    split at hload
    · rename_i names files hlookup
      split at hload
      · rename_i hnames
        cases hload
        refine ⟨_, hlookup, ?_⟩
        intro link hlink
        simp only [tinyFormat, List.map_cons, List.mem_cons] at hlink
        rcases hlink with rfl | hlink
        · exact .inl hnames
        · right
          simpa using hlink
      · cases hload
    · cases hload

namespace Proof

/-- **Where the data of an answered upload comes from.** A raw upload was sent whole. A hash-seq
upload was sent whole exactly if the store had nothing of the collection that was not sent again:
the check is whether the store knows the hash, and the store outlives transfers. -/
theorem put_integrity_iff (f : StoreFormat) (hf : f.Lawful) (parseHash : String → HashText)
    (context : ShellContext) (request : BlobPutRequest) (frames : List TransferFrame)
    (w w' : BlobWorld) (hsent : w.sent = []) (hadded : w.added = []) (r : Option (Except String Unit))
    (h : run f (handleBlobPutRequest parseHash context request frames) w = (r, w'))
    (complete : TransferComplete) (hc : .putComplete complete ∈ w'.sent) :
    ∃ hash, parseHash request.hash = .hash hash
      ∧ (FromThisTransfer f request hash frames w'.added
        ↔ (isHashSeq request.format = true →
          SentAgain f w.store hash (HashSeq.init.carried (leadingChunks frames)))) := by
  obtain ⟨hash, target, n, w₁, u, w₂, hhash, hrecv, hexport, -, hadded'⟩ := answered_inv hsent h hc
  obtain ⟨-, hquiet, -⟩ := run_quiet (f := f) (exportReceived_quiet request hash target) w₁
  rw [hexport] at hquiet
  refine ⟨hash, hhash, ?_⟩
  unfold receiveBlob at hrecv
  unfold exportReceived at hexport
  unfold FromThisTransfer
  by_cases hformat : isHashSeq request.format = true
  · rw [if_pos hformat] at hrecv hexport
    obtain ⟨hs, -⟩ := verifyHashSeq_ok_inv hrecv
    obtain ⟨collection, hload, hitems⟩ := exportStoredCollection_ok_inv hexport
    have hreceived : w'.added = HashSeq.init.carried (leadingChunks frames) := by
      rw [hadded', hquiet, hs.added, ready, after_added, after_added, hadded, List.nil_append]
    rw [if_pos hformat, hreceived, collection_sent_iff hf hs.store hload hitems]
    exact ⟨fun h _ => h, fun h => h hformat⟩
  · rw [if_neg hformat] at hrecv
    rw [if_neg hformat]
    obtain ⟨hdata, hlen, -⟩ := verifyRaw_ok_inv hrecv
    exact ⟨fun _ h => absurd h hformat, fun _ => ⟨hdata, hlen⟩⟩

/-- A collection of one file, sent to an empty store. -/
theorem put_integrity_fresh_store :
    let request : BlobPutRequest := ⟨"/t", "root", "hashseq", 28⟩
    let frames : List TransferFrame :=
      [.putChunk (framed [97]), .putChunk (framed [1]), .putChunk (framed [1, 97]),
        .putComplete ⟨28⟩]
    ∃ r w', run tinyFormat (handleBlobPutRequest (fun _ => .hash [1, 97]) (.stateless none) request
          frames) ⟨[], [], [], [], fun _ => .works, 0⟩ = (r, w')
      ∧ .putComplete ⟨28⟩ ∈ w'.sent
      ∧ ∃ hash, HashText.hash [1, 97] = .hash hash
        ∧ (FromThisTransfer tinyFormat request hash frames w'.added
          ↔ (isHashSeq request.format = true →
            SentAgain tinyFormat [] hash (HashSeq.init.carried (leadingChunks frames)))) := by
  have hanswered : TransferFrame.putComplete ⟨28⟩
      ∈ [TransferFrame.putReady ⟨28, none⟩, .putComplete ⟨28⟩] := by simp
  exact ⟨_, _, rfl, hanswered,
    put_integrity_iff _ tinyFormat_lawful (fun _ => .hash [1, 97]) (.stateless none)
      ⟨"/t", "root", "hashseq", 28⟩
      [.putChunk (framed [97]), .putChunk (framed [1]), .putChunk (framed [1, 97]),
        .putComplete ⟨28⟩] ⟨[], [], [], [], fun _ => .works, 0⟩ _ rfl rfl _ rfl ⟨28⟩ hanswered⟩

/-- The store has the collection already. One unrelated byte is sent, and the collection is
exported. -/
theorem put_integrity_known_hash :
    let request : BlobPutRequest := ⟨"/t", "root", "hashseq", 28⟩
    let frames : List TransferFrame := [.putChunk (framed [9]), .putComplete ⟨9⟩]
    ∃ w', run tinyFormat (handleBlobPutRequest (fun _ => .hash [1, 97]) (.stateless none) request
          frames) ⟨[[97], [1], [1, 97]], [], [], [], fun _ => .works, 0⟩ = (some (.ok ()), w')
      ∧ .putComplete ⟨9⟩ ∈ w'.sent
      ∧ ¬ FromThisTransfer tinyFormat request [1, 97] frames w'.added := by
  have hanswered : TransferFrame.putComplete ⟨9⟩
      ∈ [TransferFrame.putReady ⟨28, none⟩, .putComplete ⟨9⟩] := by simp
  refine ⟨_, rfl, hanswered, ?_⟩
  rintro ⟨root, hroot, hhash, -⟩
  have hstored : root ∈ [[(9 : UInt8)]] := hroot
  have hasked : root = [1, 97] := hhash
  rw [hasked] at hstored
  simp at hstored

end Proof

end Irosh
