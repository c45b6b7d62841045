import Irosh.Transfer.Budget

/-!
# The in-memory budget holds

A stream's program is followed with the share of the budget it has (`Prog.Tracks`).
Three rules keep the pool sound whatever the other streams do (`Share.Allows`): a
guard is asked for only by a stream that has none, a guard is dropped only when
nothing is in memory, and an accepted chunk is covered by the guard. Both receive
loops and the directory walk keep the rules; the pool then balances step by step.
-/

namespace Irosh

open UnixPath Wire

/-! ## The rules -/

/-- What a stream with this share may do. -/
def Share.Allows (share : Share) : BlobOp → Prop
  | .acquire _ => share = .none
  | .release => share.inMemory = 0
  | .accepted inMemory => inMemory ≤ share.held * mibBytes
  | _ => True

/-- What is in memory is covered. -/
def Share.Covered (share : Share) : Prop := share.inMemory ≤ share.held * mibBytes

theorem Share.covered_none : Share.none.Covered := Nat.le_refl 0

theorem Share.covered_next {share : Share} {o : BlobOp} (h : share.Covered) (ho : share.Allows o)
    (r : o.Answer) : (share.next o r).Covered := by
  cases o with
  | acquire bytes =>
      have hshare : share = .none := ho
      simp only [Share.next]
      split_ifs
      · rw [hshare]
        exact Nat.zero_le _
      · exact h
  | release =>
      have hzero : share.inMemory = 0 := ho
      show share.inMemory ≤ 0 * mibBytes
      rw [hzero]
      exact Nat.zero_le _
  | accepted inMemory => exact ho
  | addBytes blob => exact Nat.zero_le _
  | leave => exact Share.covered_none
  | _ => exact h

/-- A program that keeps the rules from this share on. -/
abbrev KeepsBudget {α : Type} (P : α → Share → Prop) (share : Share) (p : BlobProg α) : Prop :=
  p.Tracks Share.next Share.Allows P share

/-- Operations that have nothing to do with the budget. -/
def BlobOp.Idle (o : BlobOp) : Prop :=
  (∀ (share : Share) (r : o.Answer), share.next o r = share) ∧ ∀ share : Share, share.Allows o

theorem idle_fs (o : FsOp) : (BlobOp.fs o).Idle := ⟨fun _ _ => rfl, fun _ => trivial⟩

theorem keeps_of_idle {α : Type} {p : BlobProg α} (hp : p.Always BlobOp.Idle) (share : Share) :
    KeepsBudget (fun _ share' => share' = share) share p :=
  Prog.Always.tracks hp (fun _ r ho => ho.1 share r) fun _ ho => ho.2 share

/-! ## Permits -/

/-- The permits for a size cover it. -/
theorem le_permits {bytes : Nat} (h : bytes ≤ maxInMemoryTransferBytes) :
    bytes ≤ blobMemoryPermits bytes * mibBytes := by
  unfold blobMemoryPermits
  rw [Nat.min_eq_left h, mibBytes]
  omega

/-- Nobody asks for more than there is. -/
theorem permits_le (bytes : Nat) : blobMemoryPermits bytes ≤ inMemoryBudgetPermits := by
  have hmin : min bytes maxInMemoryTransferBytes ≤ 536870912 := Nat.min_le_right _ _
  have hbudget : inMemoryBudgetPermits = 512 := by decide
  rw [hbudget, blobMemoryPermits, mibBytes]
  omega

/-! ## The hash-seq loop -/

/-- Between two chunks the rest of the blob is covered, and without a blob there is nothing. -/
structure HashSeq.Charged (st : HashSeq) (share : Share) : Prop where
  inMemory : share.inMemory = st.currentBlob.length
  covered : st.currentBlob.length + st.expectedRemaining ≤ share.held * mibBytes
  started : st.expectedRemaining ≠ 0 → st.curBlobStarted = true
  idle : st.expectedRemaining = 0 → st.currentBlob = []

/-- After the bytes of a chunk have been placed. -/
structure HashSeq.Placed (st : HashSeq) (share : Share) : Prop where
  covered : st.currentBlob.length + st.expectedRemaining ≤ share.held * mibBytes
  started : st.curBlobStarted = true

theorem charged_init : HashSeq.init.Charged .none where
  inMemory := rfl
  covered := Nat.le_refl 0
  started := fun h => absurd rfl h
  idle := fun _ => rfl

/-- A chunk that starts a blob gets its own guard. -/
theorem startBlob_keeps {st : HashSeq} {share : Share} (h : st.Charged share)
    (hzero : st.expectedRemaining = 0) (data : List UInt8) :
    KeepsBudget (fun r share' => ∀ st', r = .ok st' → st'.Placed share') share (startBlob st data) := by
  have hnil := h.idle hzero
  have hmem : share.inMemory = 0 := by rw [h.inMemory, hnil, List.length_nil]
  unfold startBlob
  by_cases hshort : data.length < 8
  · rw [if_pos hshort]
    exact fun st' he => by cases he
  rw [if_neg hshort]
  dsimp only
  by_cases hcap : BigEndian.beDecode (data.take 8) > maxInMemoryTransferBytes
  · rw [if_pos hcap]
    exact fun st' he => by cases he
  rw [if_neg hcap]
  cases ensureWithinCap (st.received + BigEndian.beDecode (data.take 8)) with
  | error e => exact fun st' he => by cases he
  | ok u =>
      refine ⟨hmem, fun _ => ⟨?_, fun granted => ?_⟩⟩
      · show (⟨0, share.inMemory⟩ : Share) = ⟨0, 0⟩
        rw [hmem]
      cases granted with
      | false => exact fun st' he => by cases he
      | true =>
          refine ⟨trivial, fun reserved => ?_⟩
          cases reserved with
          | false => exact fun st' he => by cases he
          | true =>
              have hle := le_permits (Nat.le_of_not_lt hcap)
              simp only [Prog.bind, if_true]
              split_ifs with hlong
              · exact fun st' he => by cases he
              · rintro st' ⟨⟩
                refine ⟨?_, rfl⟩
                show (st.currentBlob ++ data.drop 8).length + _ ≤ (0 + _) * mibBytes
                rw [hnil, List.nil_append, Nat.zero_add]
                dsimp only
                omega

theorem placeChunk_keeps {st : HashSeq} {share : Share} (h : st.Charged share)
    (data : List UInt8) :
    KeepsBudget (fun r share' => ∀ st', r = .ok st' → st'.Placed share') share (placeChunk st data) := by
  unfold placeChunk
  split_ifs with hzero
  · exact startBlob_keeps h hzero data
  · intro st' he
    unfold continueBlob at he
    split_ifs at he with hlong
    cases he
    refine ⟨?_, h.started hzero⟩
    have hcovered := h.covered
    show (st.currentBlob ++ data).length + (st.expectedRemaining - data.length) ≤ _
    rw [List.length_append]
    omega

/-- The chunk is accepted under its guard; at the end of the blob the guard goes. -/
theorem countChunk_keeps {st : HashSeq} {share : Share} (h : st.Placed share) (data : List UInt8) :
    KeepsBudget (fun r share' => ∀ st', r = .ok st' → st'.Charged share') share (countChunk st data) := by
  unfold countChunk
  cases countReceived st.received data.length with
  | error e => exact fun st' he => by cases he
  | ok received =>
      refine ⟨Nat.le_trans (Nat.le_add_right _ _) h.covered, fun _ => ?_⟩
      dsimp only [Prog.bind]
      unfold finishBlob
      split_ifs with hend
      · refine ⟨trivial, fun added => ?_⟩
        cases added with
        | error e => exact fun st' he => by cases he
        | ok hash =>
            refine ⟨rfl, fun _ => ?_⟩
            rintro st' ⟨⟩
            refine ⟨rfl, ?_, fun hne => absurd hend.1 hne, fun _ => rfl⟩
            show 0 + st.expectedRemaining ≤ _
            have hzero : st.expectedRemaining = 0 := hend.1
            omega
      · rintro st' ⟨⟩
        refine ⟨rfl, h.covered, fun _ => h.started, fun hzero => ?_⟩
        exact absurd ⟨hzero, h.started⟩ hend

theorem takeChunk_keeps {st : HashSeq} {share : Share} (h : st.Charged share) (data : List UInt8) :
    KeepsBudget (fun r share' => ∀ st', r = .ok st' → st'.Charged share') share (takeChunk st data) := by
  refine (placeChunk_keeps h data).bind fun r share' hr => ?_
  cases r with
  | error e => exact fun st' he => by cases he
  | ok st' => exact countChunk_keeps (hr st' rfl) data

theorem recvHashSeq_keeps {st : HashSeq} {share : Share} (h : st.Charged share)
    (frames : List TransferFrame) :
    KeepsBudget (fun _ _ => True) share (recvHashSeq st frames) := by
  induction frames generalizing st share with
  | nil => trivial
  | cons frame frames ih =>
      cases frame with
      | putChunk data =>
          refine (takeChunk_keeps h data).bind fun r share' hr => ?_
          cases r with
          | error e => trivial
          | ok st' => exact ih (hr st' rfl)
      | _ => trivial

/-! ## The raw loop -/

/-- What has been received is covered by the guard for the declared size. -/
theorem recvRaw_keeps {size : Nat} {share : Share} (hsize : size ≤ share.held * mibBytes)
    {received : Nat} {allData : List UInt8} (hlen : allData.length = received)
    (frames : List TransferFrame) :
    KeepsBudget (fun _ _ => True) share (recvRaw size received allData frames) := by
  induction frames generalizing share received allData with
  | nil => trivial
  | cons frame frames ih =>
      cases frame with
      | putChunk data =>
          have hcount : ∀ n, countReceived received data.length = .ok n →
              n = received + data.length := by
            intro n hn
            unfold countReceived at hn
            split_ifs at hn
            cases hcap : ensureWithinCap (received + data.length) with
            | error e =>
                rw [hcap] at hn
                cases hn
            | ok u =>
                rw [hcap] at hn
                exact (Except.ok.inj hn).symm
          unfold recvRaw
          cases hc : countReceived received data.length with
          | error e => trivial
          | ok n =>
              have hn := hcount n hc
              have hall : (allData ++ data).length = n := by rw [List.length_append, hlen, hn]
              dsimp only
              split_ifs with hover
              · trivial
              · have hsize' : size ≤ (share.next (.accepted (allData ++ data).length) ()).held
                    * mibBytes := hsize
                refine ⟨?_, fun _ => ih hsize' hall⟩
                show (allData ++ data).length ≤ share.held * mibBytes
                omega
      | _ => trivial

/-! ## The tasks -/

theorem verifyHashSeq_keeps (hash : Hash) (frames : List TransferFrame) :
    KeepsBudget (fun _ _ => True) .none (verifyHashSeq hash frames) := by
  refine (recvHashSeq_keeps charged_init frames).bind fun r share _ => ?_
  cases r with
  | error e => trivial
  | ok st =>
      dsimp only
      split_ifs
      · trivial
      · refine ⟨trivial, fun known => ?_⟩
        rcases known with e | _ | _
        all_goals trivial

theorem verifyRaw_keeps (hash : Hash) (size : Nat) (frames : List TransferFrame) :
    KeepsBudget (fun _ _ => True) .none (verifyRaw hash size frames) := by
  unfold verifyRaw
  split_ifs with hcap
  · trivial
  · refine ⟨rfl, fun granted => ?_⟩
    cases granted with
    | false => trivial
    | true =>
        have hsize : size ≤ (Share.none.next (.acquire size) true).held * mibBytes := by
          show size ≤ (0 + blobMemoryPermits size) * mibBytes
          rw [Nat.zero_add]
          exact le_permits (Nat.le_of_not_lt hcap)
        refine (recvRaw_keeps hsize (List.length_nil (α := UInt8)) frames).bind fun r share _ => ?_
        rcases r with e | ⟨received, allData⟩
        · trivial
        · refine ⟨trivial, fun added => ?_⟩
          rcases added with e | _ | actual
          · trivial
          · trivial
          · dsimp only [Prog.bind]
            split_ifs
            all_goals trivial

theorem exportReceived_idle (request : BlobPutRequest) (hash : Hash) (target : Path) :
    (exportReceived request hash target).Always BlobOp.Idle := by
  unfold exportReceived
  split_ifs
  · refine ⟨idle_fs _, fun made => Prog.always_guard ⟨idle_fs _, fun read => ?_⟩⟩
    refine Prog.always_guard ⟨⟨fun _ _ => rfl, fun _ => trivial⟩, fun loaded => ?_⟩
    cases loaded with
    | none => exact Prog.always_pure _
    | some collection => exact (Prog.always_true _).lift fun o _ => idle_fs o
  · exact ⟨idle_fs _, fun _ => Prog.always_pure _⟩

theorem putBlob_keeps (request : BlobPutRequest) (hash : Hash) (target : Path)
    (frames : List TransferFrame) :
    KeepsBudget (fun _ _ => True) .none (putBlob request hash target frames) := by
  have hreceive : KeepsBudget (fun _ _ => True) .none (receiveBlob request hash frames) := by
    unfold receiveBlob
    split_ifs
    · exact verifyHashSeq_keeps hash frames
    · exact verifyRaw_keeps hash _ frames
  refine hreceive.bind fun r share _ => ?_
  cases r with
  | error e => trivial
  | ok received =>
      refine (keeps_of_idle (exportReceived_idle request hash target) share).bind fun r share _ => ?_
      cases r with
      | error e => trivial
      | ok _ => exact ⟨trivial, fun _ => trivial⟩

theorem servePut_keeps (request : BlobPutRequest) (hash : Hash) (target : Path)
    (frames : List TransferFrame) :
    KeepsBudget (fun _ _ => True) .none (servePut request hash target frames) := by
  refine ⟨trivial, fun ready => ?_⟩
  cases ready with
  | false => trivial
  | true => exact putBlob_keeps request hash target frames

theorem putExpected_keeps (context : ShellContext) (request : BlobPutRequest) (hash : Hash)
    (frames : List TransferFrame) :
    KeepsBudget (fun _ _ => True) .none (putExpected context request hash frames) := by
  unfold putExpected
  cases context.resolvePath request.path.toList with
  | error e => trivial
  | ok target =>
      refine ⟨trivial, fun missing => ?_⟩
      rcases missing with e | _ | _
      · trivial
      · exact ⟨trivial, fun _ => trivial⟩
      · refine (servePut_keeps request hash target frames).bind fun r share _ => ?_
        cases r with
        | error e => trivial
        | ok received => exact ⟨trivial, fun _ => trivial⟩

theorem handleBlobPutRequest_keeps (parseHash : String → HashText) (context : ShellContext)
    (request : BlobPutRequest) (frames : List TransferFrame) :
    KeepsBudget (fun _ _ => True) .none (handleBlobPutRequest parseHash context request frames) := by
  unfold handleBlobPutRequest
  cases parseHash request.hash with
  | panics => trivial
  | invalid => trivial
  | hash hash => exact (putExpected_keeps context request hash frames).bind fun _ _ _ => trivial

/-- Each file has its own guard, which is gone before the next is asked for. -/
theorem addFiles_keeps (dir : Path) (collection : Collection) (entries : List (List Char)) :
    KeepsBudget (fun r share => ∀ c, r = .ok c → share = .none) .none (addFiles dir collection entries) := by
  induction entries generalizing collection with
  | nil => exact fun c _ => rfl
  | cons relative entries ih =>
      refine ⟨trivial, fun len => ?_⟩
      cases len with
      | none => exact fun c he => by cases he
      | some len =>
          dsimp only [Prog.bind]
          split_ifs
          · exact fun c he => by cases he
          · refine ⟨rfl, fun granted => ?_⟩
            cases granted with
            | false => exact fun c he => by cases he
            | true =>
                refine ⟨trivial, fun data => ?_⟩
                cases data with
                | none => exact fun c he => by cases he
                | some data =>
                    refine ⟨trivial, fun added => ?_⟩
                    rcases added with e | _ | hash
                    · exact fun c he => by cases he
                    · exact fun c he => by cases he
                    · exact ⟨trivial, fun _ => ih (collection ++ [(relative, hash)])⟩

theorem addCollectionBlobs_keeps (root : Option Hash) (total : Nat) (blobs : List (List UInt8))
    (share : Share) : KeepsBudget (fun _ _ => True) share (addCollectionBlobs root total blobs) := by
  induction blobs generalizing root total share with
  | nil =>
      cases root with
      | none => trivial
      | some hash => trivial
  | cons data blobs ih =>
      refine ⟨trivial, fun added => ?_⟩
      rcases added with e | _ | hash
      · trivial
      · exact ih _ _ _
      · exact ih _ _ _

/-- **Every task keeps the rules.** -/
theorem task_keeps (task : BlobTask) : KeepsBudget (fun _ _ => True) .none task.prog := by
  cases task with
  | put parseHash context request frames =>
      exact (handleBlobPutRequest_keeps parseHash context request frames).bind fun _ _ _ => trivial
  | addDirectory toBlobs dir =>
      refine Prog.Tracks.bind (P := fun _ _ => True) ?_ fun _ _ _ => trivial
      refine ⟨trivial, fun entries => ?_⟩
      cases entries with
      | none => trivial
      | some entries =>
          refine (addFiles_keeps dir [] entries).bind fun r share _ => ?_
          cases r with
          | error e => trivial
          | ok collection => exact addCollectionBlobs_keeps _ _ _ _

/-! ## The pool -/

/-- A stream that keeps the rules from here on, and whose bytes are covered. -/
structure BlobStream.OnBudget (stream : BlobStream) : Prop where
  keeps : KeepsBudget (fun _ _ => True) stream.share stream.prog
  covered : stream.share.Covered

/-- **The books balance.** -/
structure BlobPool.Balanced (pool : BlobPool) : Prop where
  account : pool.available + pool.held = inMemoryBudgetPermits
  streams : ∀ stream ∈ pool.streams, stream.OnBudget

theorem BlobPool.held_middle (available now : Nat) (before after : List BlobStream) (stream : BlobStream) :
    BlobPool.held ⟨now, before ++ stream :: after⟩
      = BlobPool.held ⟨available, before ++ after⟩ + stream.share.held := by
  simp only [BlobPool.held, List.map_append, List.map_cons, List.sum_append, List.sum_cons]
  omega

/-- The other streams do not notice. -/
theorem onBudget_replace {before after : List BlobStream} {old new : BlobStream}
    (h : ∀ stream ∈ before ++ old :: after, stream.OnBudget) (hnew : new.OnBudget) :
    ∀ stream ∈ before ++ new :: after, stream.OnBudget := by
  intro stream hm
  rcases List.mem_append.mp hm with hm | hm
  · exact h stream (List.mem_append_left _ hm)
  · rcases List.mem_cons.mp hm with rfl | hm
    · exact hnew
    · exact h stream (List.mem_append_right _ (List.mem_cons_of_mem _ hm))

/-- A stream after one of its operations. -/
theorem BlobStream.OnBudget.next {o : BlobOp} {k : o.Answer → BlobProg Unit} {share : Share}
    (h : BlobStream.OnBudget ⟨.op o k, share⟩) (r : o.Answer) :
    BlobStream.OnBudget ⟨k r, share.next o r⟩ where
  keeps := h.keeps.2 r
  covered := Share.covered_next h.covered h.keeps.1 r

/-- Only a grant takes permits. -/
theorem Share.held_next_le {o : BlobOp} (ho : ∀ bytes, o ≠ .acquire bytes) (share : Share)
    (r : o.Answer) : (share.next o r).held ≤ share.held := by
  cases o with
  | acquire bytes => exact absurd rfl (ho bytes)
  | release => exact Nat.zero_le _
  | leave => exact Nat.zero_le _
  | _ => exact Nat.le_refl _

theorem BlobPool.balanced_step {pool pool' : BlobPool} (h : pool.Balanced) (hs : BlobPool.Step pool pool') :
    pool'.Balanced := by
  obtain ⟨account, streams⟩ := h
  cases hs with
  | start task available streams' =>
      refine ⟨?_, ?_⟩
      · have hmiddle := BlobPool.held_middle available available streams' [] ⟨task.prog, .none⟩
        rw [List.append_nil] at hmiddle
        show available + BlobPool.held ⟨available, streams' ++ [_]⟩ = _
        rw [hmiddle]
        exact account
      · intro stream hm
        rcases List.mem_append.mp hm with hm | hm
        · exact streams stream hm
        · rw [List.mem_singleton.mp hm]
          exact ⟨task_keeps task, Share.covered_none⟩
  | @grant available before after share bytes k hfree =>
      have hstream := streams _ (List.mem_append_right _ List.mem_cons_self)
      refine ⟨?_, onBudget_replace streams (hstream.next true)⟩
      have hheld : (share.next (.acquire bytes) true).held = share.held + blobMemoryPermits bytes := rfl
      rw [BlobPool.held_middle available, hheld]
      rw [BlobPool.held_middle available] at account
      dsimp only at account ⊢
      omega
  | @refuse available before after share bytes k =>
      have hstream := streams _ (List.mem_append_right _ List.mem_cons_self)
      refine ⟨?_, onBudget_replace streams (hstream.next false)⟩
      rw [BlobPool.held_middle available] at account ⊢
      exact account
  | @advance available before after share o k r ho =>
      have hstream := streams _ (List.mem_append_right _ List.mem_cons_self)
      refine ⟨?_, onBudget_replace streams (hstream.next r)⟩
      have hle := Share.held_next_le ho share r
      rw [BlobPool.held_middle available] at account ⊢
      dsimp only at account ⊢
      omega
  | @stop available before after stream =>
      refine ⟨?_, ?_⟩
      · rw [BlobPool.held_middle (available + stream.share.held)] at account
        dsimp only at account ⊢
        omega
      · intro stream' hm
        refine streams stream' ?_
        rcases List.mem_append.mp hm with hm | hm
        · exact List.mem_append_left _ hm
        · exact List.mem_append_right _ (List.mem_cons_of_mem _ hm)

theorem BlobPool.balanced {pool : BlobPool} (h : pool.Reachable) : pool.Balanced := by
  induction h with
  | refl => exact ⟨Nat.add_zero _, by simp [BlobPool.new]⟩
  | tail _ hs ih => exact BlobPool.balanced_step ih hs

/-- What is in memory altogether is covered by what is held altogether. -/
theorem inMemory_le_held {streams : List BlobStream}
    (h : ∀ stream ∈ streams, stream.share.Covered) :
    (streams.map fun stream => stream.share.inMemory).sum
      ≤ (streams.map fun stream => stream.share.held).sum * mibBytes := by
  induction streams with
  | nil => exact Nat.le_refl _
  | cons stream streams ih =>
      have hfirst : stream.share.inMemory ≤ stream.share.held * mibBytes := h stream List.mem_cons_self
      have hrest := ih fun s hs => h s (List.mem_cons_of_mem _ hs)
      rw [List.map_cons, List.sum_cons, List.map_cons, List.sum_cons, Nat.add_mul]
      exact Nat.add_le_add hfirst hrest

/-- A raw put of two bytes, up to its chunk. -/
theorem reachable_one_chunk :
    ∃ pool : BlobPool, pool.Reachable ∧ pool.held = 1 ∧ pool.inMemory = 2 := by
  have hnone : BlobPool.Reachable .new := .refl
  have hstart := hnone.tail (.start (.put (fun _ => .hash [7]) (.stateless none) ⟨"/t", "h", "raw", 2⟩
    [.putChunk [5, 6]]) _ _)
  have hmissing := hstart.tail (@BlobPool.Step.advance _ [] [] _ (.fs (.pathMissing (parse ['/', 't']))) _
    (.ok true) (by simp))
  have hready := hmissing.tail (@BlobPool.Step.advance _ [] [] _ (.send (.putReady ⟨2, none⟩)) _ true
    (by simp))
  have hgrant := hready.tail (@BlobPool.Step.grant _ [] [] _ 2 _ (by decide))
  have hchunk := hgrant.tail (@BlobPool.Step.advance _ [] [] _ (.accepted 2) _ () (by simp))
  exact ⟨_, hchunk, rfl, rfl⟩

namespace Proof

/-- **The in-memory budget**, in every state the streams of a connection can reach: at most 512
permits are held, the bytes in memory are at most a MiB for each, nobody waits for permits while
holding some, no request is for more than 512, and without streams all permits are back. -/
theorem memory_budget {pool : BlobPool} (h : pool.Reachable) :
    pool.held ≤ 512
      ∧ pool.inMemory ≤ pool.held * mibBytes ∧ pool.inMemory ≤ 512 * mibBytes
      ∧ (∀ stream ∈ pool.streams, ∀ bytes, stream.Waits bytes →
        stream.share.held = 0 ∧ blobMemoryPermits bytes ≤ 512)
      ∧ (pool.streams = [] → pool.available = 512) := by
  obtain ⟨account, streams⟩ := BlobPool.balanced h
  have hpermits : inMemoryBudgetPermits = 512 := by decide
  have hheld : pool.held ≤ 512 := by omega
  have hmem : pool.inMemory ≤ pool.held * mibBytes :=
    inMemory_le_held fun stream hs => (streams stream hs).covered
  refine ⟨hheld, hmem, hmem.trans (Nat.mul_le_mul_right _ hheld), ?_, ?_⟩
  · rintro stream hs bytes ⟨k, hk⟩
    refine ⟨?_, hpermits ▸ permits_le bytes⟩
    have hkeeps := (streams stream hs).keeps
    rw [hk] at hkeeps
    have hnone : stream.share = .none := hkeeps.1
    rw [hnone]
    rfl
  · intro hnil
    have hzero : pool.held = 0 := by rw [BlobPool.held, hnil]; rfl
    omega

/-- Two bytes of one raw put are covered by one permit. -/
theorem memory_budget_one_chunk :
    ∃ pool : BlobPool, pool.Reachable ∧ pool.held = 1 ∧ pool.inMemory = 2
      ∧ pool.held ≤ 512 ∧ pool.inMemory ≤ pool.held * mibBytes := by
  obtain ⟨pool, h, hheld, hmem⟩ := reachable_one_chunk
  exact ⟨pool, h, hheld, hmem, (memory_budget h).1, (memory_budget h).2.1⟩

end Proof

end Irosh
