import Mathlib.Tactic.SplitIfs
import Irosh.Transfer.Store

/-!
# The hash-seq stream

A hash-seq stream is a sequence of blobs, each behind its length. The receive loop
sees it cut into chunks, and may only rely on the rule that a blob starts at the
start of a chunk.

An accepted chunk does one thing: `place` puts its bytes into the blob in progress,
and `settle` hands a complete blob over. Both results of this file are about lists of
such steps (`Takes`). Going forward, the chunks of `send_raw_blob` are all accepted and
leave the loop between two blobs again. Going backward, whatever has been accepted is
the blobs that were stored, each behind its length, followed by the blob in progress
(`Accounts`). At `PutComplete` the loop does not look whether there is one.
-/

namespace Irosh

open BigEndian Wire BlobWorld

/-! ## One chunk -/

namespace HashSeq

/-- Where the bytes of an accepted chunk go. -/
def place (st : HashSeq) (data : List UInt8) : HashSeq :=
  if st.expectedRemaining = 0 then
    { st with
      received := st.received + data.length
      expectedRemaining := beDecode (data.take 8) - (data.length - 8)
      currentBlob := st.currentBlob ++ data.drop 8
      curBlobStarted := true }
  else
    { st with
      received := st.received + data.length
      expectedRemaining := st.expectedRemaining - data.length
      currentBlob := st.currentBlob ++ data }

/-- A complete blob is handed over. -/
def settle (st : HashSeq) : HashSeq :=
  if st.expectedRemaining = 0 ∧ st.curBlobStarted = true then
    { st with currentBlob := [], blobCount := st.blobCount + 1, curBlobStarted := false }
  else st

/-- What is handed over. -/
def handed (st : HashSeq) : List (List UInt8) :=
  if st.expectedRemaining = 0 ∧ st.curBlobStarted = true then [st.currentBlob] else []

theorem settle_of_complete {st : HashSeq} (hr : st.expectedRemaining = 0)
    (hs : st.curBlobStarted = true) :
    st.settle = ⟨st.received, 0, [], st.blobCount + 1, false⟩ ∧ st.handed = [st.currentBlob] := by
  rw [settle, handed, if_pos ⟨hr, hs⟩, if_pos ⟨hr, hs⟩, hr]
  exact ⟨rfl, rfl⟩

theorem settle_of_incomplete (st : HashSeq) (hr : st.expectedRemaining ≠ 0) :
    st.settle = st ∧ st.handed = [] := by
  have hc : ¬ (st.expectedRemaining = 0 ∧ st.curBlobStarted = true) := fun h => hr h.1
  rw [settle, handed, if_neg hc, if_neg hc]
  exact ⟨rfl, rfl⟩

/-- What a chunk must be like: a length and no more than that behind it, or no more than is still
owed. -/
def Accepts (st : HashSeq) (data : List UInt8) : Prop :=
  if st.expectedRemaining = 0 then 8 ≤ data.length ∧ data.length - 8 ≤ beDecode (data.take 8)
  else data.length ≤ st.expectedRemaining

end HashSeq

/-- What receiving leaves alone. -/
structure OnlyStores (w w' : BlobWorld) (blobs : List (List UInt8)) : Prop where
  store : w'.store = w.store ++ blobs
  added : w'.added = w.added ++ blobs
  paths : w'.paths = w.paths
  sent : w'.sent = w.sent
  fate : w'.fate = w.fate

theorem OnlyStores.refl (w : BlobWorld) : OnlyStores w w [] :=
  ⟨by simp, by simp, rfl, rfl, rfl⟩

theorem OnlyStores.trans {w w₁ w₂ : BlobWorld} {bs cs : List (List UInt8)}
    (h : OnlyStores w w₁ bs) (h' : OnlyStores w₁ w₂ cs) : OnlyStores w w₂ (bs ++ cs) where
  store := by rw [h'.store, h.store, List.append_assoc]
  added := by rw [h'.added, h.added, List.append_assoc]
  paths := h'.paths.trans h.paths
  sent := h'.sent.trans h.sent
  fate := h'.fate.trans h.fate

/-- Operations that only take time. -/
theorem OnlyStores.of_after {w w' : BlobWorld} {bs : List (List UInt8)}
    (h : OnlyStores w.after w' bs) : OnlyStores w w' bs :=
  ⟨h.store, h.added, h.paths, h.sent, h.fate⟩

theorem OnlyStores.to_after {w w' : BlobWorld} {bs : List (List UInt8)}
    (h : OnlyStores w w' bs) : OnlyStores w w'.after bs :=
  ⟨h.store, h.added, h.paths, h.sent, h.fate⟩

/-- A blob the store has taken. -/
theorem OnlyStores.one (w : BlobWorld) (blob : List UInt8) :
    OnlyStores w { w.after with store := w.store ++ [blob], added := w.added ++ [blob] } [blob] :=
  ⟨rfl, rfl, rfl, rfl, rfl⟩

/-- Nothing goes wrong any more. -/
def Lucky (w : BlobWorld) : Prop := ∀ n, w.fate n = .works

theorem OnlyStores.lucky {w w' : BlobWorld} {bs : List (List UInt8)} (h : OnlyStores w w' bs)
    (hw : Lucky w) : Lucky w' := by
  intro n
  rw [h.fate]
  exact hw n

variable {f : StoreFormat}

theorem ensureWithinCap_ok {n : Nat} (h : n ≤ maxInMemoryTransferBytes) :
    ensureWithinCap n = .ok () := if_neg (Nat.not_lt.mpr h)

theorem le_of_ensureWithinCap {n : Nat} {u : Unit} (h : ensureWithinCap n = .ok u) :
    n ≤ maxInMemoryTransferBytes := by
  by_contra hn
  rw [ensureWithinCap, if_pos (Nat.not_le.mp hn)] at h
  cases h

/-- Counting succeeds exactly within the cap. -/
theorem countReceived_ok_iff {received len n : Nat} :
    countReceived received len = .ok n ↔
      n = received + len ∧ received + len ≤ maxInMemoryTransferBytes := by
  unfold countReceived
  by_cases hc : received + len ≤ maxInMemoryTransferBytes
  · have hlt : ¬ received + len > u64Max := by
      unfold maxInMemoryTransferBytes at hc
      unfold u64Max
      omega
    rw [if_neg hlt, ensureWithinCap_ok hc]
    simp only [Except.ok.injEq]
    exact ⟨fun h => ⟨h.symm, hc⟩, fun h => h.1.symm⟩
  · refine ⟨fun h => ?_, fun h => absurd h.2 hc⟩
    split at h
    · cases h
    · split at h
      · cases h
      · rename_i hcap
        exact absurd (le_of_ensureWithinCap hcap) hc

/-- What handing a complete blob over does. -/
theorem run_finishBlob (st : HashSeq) (w : BlobWorld) :
    (∃ w', run f (finishBlob st) w = (.ok st.settle, w') ∧ OnlyStores w w' st.handed)
      ∨ (w.next ≠ .works ∧ ∃ e w', run f (finishBlob st) w = (.error e, w')) := by
  unfold finishBlob HashSeq.settle HashSeq.handed
  by_cases hc : st.expectedRemaining = 0 ∧ st.curBlobStarted = true
  · rw [if_pos hc, if_pos hc, if_pos hc]
    simp only [run_addBytes, run_release, run_pure]
    cases hn : w.next with
    | works => exact .inl ⟨_, rfl, (OnlyStores.one w st.currentBlob).to_after⟩
    | halfway => exact .inl ⟨_, rfl, (OnlyStores.one w st.currentBlob).to_after⟩
    | fails => exact .inr ⟨by simp, _, _, rfl⟩
  · rw [if_neg hc, if_neg hc, if_neg hc]
    exact .inl ⟨w, rfl, OnlyStores.refl w⟩

/-- A chunk that starts a blob is let in if it holds a length, no more than that behind it, and the
length is within the caps; the budget and the allocator must have room. -/
theorem startBlob_ok_iff {st st' : HashSeq} {data : List UInt8} {w w' : BlobWorld} :
    run f (startBlob st data) w = (.ok st', w') ↔
      (8 ≤ data.length ∧ data.length - 8 ≤ beDecode (data.take 8))
        ∧ (beDecode (data.take 8) ≤ maxInMemoryTransferBytes
          ∧ st.received + beDecode (data.take 8) ≤ maxInMemoryTransferBytes)
        ∧ ((blobMemoryPermits (beDecode (data.take 8)) = 0 ∨ w.after.next = .works)
          ∧ w.after.after.next = .works)
        ∧ w' = w.after.after.after
        ∧ st' = { st with
            expectedRemaining := beDecode (data.take 8) - (data.length - 8)
            currentBlob := st.currentBlob ++ data.drop 8
            curBlobStarted := true } := by
  unfold startBlob
  dsimp only
  by_cases hlen : data.length < 8
  · rw [if_pos hlen]
    simp
    omega
  by_cases hdecl : beDecode (data.take 8) > maxInMemoryTransferBytes
  · rw [if_neg hlen, if_pos hdecl]
    simp
    omega
  rw [if_neg hlen, if_neg hdecl]
  by_cases hcap : st.received + beDecode (data.take 8) ≤ maxInMemoryTransferBytes
  · rw [ensureWithinCap_ok hcap]
    dsimp only
    rw [run_release, run_acquire]
    by_cases hgrant : blobMemoryPermits (beDecode (data.take 8)) = 0 ∨ w.after.next = .works
    · rw [if_pos (decide_eq_true hgrant), run_reserve]
      by_cases hres : w.after.after.next = .works
      · rw [if_pos (decide_eq_true hres), List.length_drop]
        by_cases hlong : beDecode (data.take 8) < data.length - 8
        · rw [if_pos hlong]
          simp
          omega
        · have hfit : data.length - 8 ≤ beDecode (data.take 8) := Nat.not_lt.mp hlong
          rw [if_neg hlong]
          simp only [Nat.not_lt.mp hlen, Nat.not_lt.mp hdecl, hfit, hcap, hgrant, hres, run_pure,
            Prod.mk.injEq, Except.ok.injEq, true_and]
          exact ⟨fun h => ⟨h.2.symm, h.1.symm⟩, fun h => ⟨h.2.symm, h.1.symm⟩⟩
      · rw [if_neg (mt of_decide_eq_true hres)]
        simp [hres]
    · rw [if_neg (mt of_decide_eq_true hgrant)]
      simp [hgrant]
  · rw [ensureWithinCap, if_pos (Nat.not_le.mp hcap)]
    simp [hcap]

/-- What remains to be done with a chunk in its place. -/
theorem countChunk_ok_inv {st st' : HashSeq} {data : List UInt8} {w w' : BlobWorld}
    (h : run f (countChunk st data) w = (.ok st', w')) :
    st' = ({ st with received := st.received + data.length } : HashSeq).settle
      ∧ OnlyStores w w' ({ st with received := st.received + data.length } : HashSeq).handed
      ∧ st.received + data.length ≤ maxInMemoryTransferBytes := by
  unfold countChunk at h
  cases hc : countReceived st.received data.length with
  | error e =>
      rw [hc] at h
      cases h
  | ok n =>
      obtain ⟨rfl, hcap⟩ := countReceived_ok_iff.mp hc
      rw [hc] at h
      simp only [run_accepted] at h
      rcases run_finishBlob (f := f) { st with received := st.received + data.length } w.after with
        ⟨w₁, he, hs⟩ | ⟨-, e, w₁, he⟩
      · rw [he] at h
        cases h
        exact ⟨rfl, hs.of_after, hcap⟩
      · rw [he] at h
        cases h

theorem countChunk_lucky (st : HashSeq) {data : List UInt8} {w : BlobWorld} (hw : Lucky w)
    (hc : st.received + data.length ≤ maxInMemoryTransferBytes) :
    ∃ w', run f (countChunk st data) w
        = (.ok ({ st with received := st.received + data.length } : HashSeq).settle, w')
      ∧ OnlyStores w w' ({ st with received := st.received + data.length } : HashSeq).handed := by
  have hcount := countReceived_ok_iff.mpr ⟨rfl, hc⟩
  unfold countChunk
  rw [hcount]
  simp only [run_accepted]
  rcases run_finishBlob (f := f) { st with received := st.received + data.length } w.after with
    ⟨w₁, he, hs⟩ | ⟨hn, -⟩
  · exact ⟨w₁, he, hs.of_after⟩
  · exact absurd (hw _) hn

/-- What an accepted chunk has done. -/
theorem takeChunk_ok_inv {st st' : HashSeq} {data : List UInt8} {w w' : BlobWorld}
    (h : run f (takeChunk st data) w = (.ok st', w')) :
    st.Accepts data ∧ st' = (st.place data).settle
      ∧ OnlyStores w w' (st.place data).handed
      ∧ st.received + data.length ≤ maxInMemoryTransferBytes := by
  unfold takeChunk placeChunk at h
  rw [run_bind] at h
  unfold HashSeq.Accepts HashSeq.place
  by_cases hr : st.expectedRemaining = 0
  · rw [if_pos hr] at h
    rw [if_pos hr, if_pos hr]
    cases hs : run f (startBlob st data) w with
    | mk placed w₁ =>
        rw [hs] at h
        cases placed with
        | error e => cases h
        | ok st₁ =>
            obtain ⟨hlen, -, -, rfl, rfl⟩ := startBlob_ok_iff.mp hs
            obtain ⟨rfl, hw, hcap⟩ := countChunk_ok_inv h
            exact ⟨hlen, rfl, hw.of_after.of_after.of_after, hcap⟩
  · rw [if_neg hr] at h
    rw [if_neg hr, if_neg hr]
    unfold continueBlob at h
    by_cases hlen : st.expectedRemaining < data.length
    · rw [if_pos hlen] at h
      cases h
    · rw [if_neg hlen] at h
      obtain ⟨rfl, hw, hcap⟩ := countChunk_ok_inv h
      exact ⟨Nat.not_lt.mp hlen, rfl, hw, hcap⟩

/-- What the caps ask of a chunk. -/
def HashSeq.Fits (st : HashSeq) (data : List UInt8) : Prop :=
  st.received + data.length ≤ maxInMemoryTransferBytes
    ∧ (st.expectedRemaining = 0 →
      st.received + beDecode (data.take 8) ≤ maxInMemoryTransferBytes)

/-- A good chunk is accepted when nothing goes wrong. -/
theorem takeChunk_lucky {st : HashSeq} {data : List UInt8} {w : BlobWorld} (hw : Lucky w)
    (ha : st.Accepts data) (hf : st.Fits data) :
    ∃ w', run f (takeChunk st data) w = (.ok (st.place data).settle, w')
      ∧ OnlyStores w w' (st.place data).handed := by
  obtain ⟨hcount, hdecl⟩ := hf
  unfold takeChunk placeChunk
  rw [run_bind]
  unfold HashSeq.Accepts at ha
  unfold HashSeq.place
  by_cases hr : st.expectedRemaining = 0
  · rw [if_pos hr] at ha
    rw [if_pos hr, if_pos hr]
    have hcap : beDecode (data.take 8) ≤ maxInMemoryTransferBytes := by
      have := hdecl hr
      omega
    have hstart := (startBlob_ok_iff (f := f)).mpr
      ⟨ha, ⟨hcap, hdecl hr⟩, ⟨.inr (hw w.after.tick), hw w.after.after.tick⟩, rfl, rfl⟩
    rw [hstart]
    obtain ⟨w₁, he, hs⟩ := countChunk_lucky (f := f) (w := w.after.after.after)
      { st with
        expectedRemaining := beDecode (data.take 8) - (data.length - 8)
        currentBlob := st.currentBlob ++ data.drop 8
        curBlobStarted := true } hw hcount
    exact ⟨w₁, he, hs.of_after.of_after.of_after⟩
  · rw [if_neg hr] at ha
    rw [if_neg hr, if_neg hr, continueBlob, if_neg (Nat.not_lt.mpr ha)]
    exact countChunk_lucky _ hw hcount

/-! ## Forward: what the client sends -/

/-- One good chunk of the loop. -/
theorem recv_chunk_lucky {st : HashSeq} {data : List UInt8} {w : BlobWorld} (hw : Lucky w)
    (ha : st.Accepts data) (hf : st.Fits data) (rest : List TransferFrame) :
    ∃ w', run f (recvHashSeq st (.putChunk data :: rest)) w
        = run f (recvHashSeq (st.place data).settle rest) w'
      ∧ OnlyStores w w' (st.place data).handed := by
  obtain ⟨w', he, hs⟩ := takeChunk_lucky (f := f) hw ha hf
  refine ⟨w', ?_, hs⟩
  rw [recvHashSeq, run_bind, he]

/-- Between two blobs. -/
def HashSeq.between (received blobCount : Nat) : HashSeq := ⟨received, 0, [], blobCount, false⟩

theorem splitChunks_nil : splitChunks [] = [] := by
  rw [splitChunks, if_pos List.length_nil]

/-- The bytes of a blob, after its length. The last chunk brings the blob to the store. -/
theorem recv_splitChunks (data : List UInt8) (hne : data ≠ []) (cur : List UInt8)
    (received blobCount : Nat) {w : BlobWorld} (hw : Lucky w)
    (hcap : received + data.length ≤ maxInMemoryTransferBytes) (rest : List TransferFrame) :
    ∃ w', run f (recvHashSeq ⟨received, data.length, cur, blobCount, true⟩
          ((splitChunks data).map .putChunk ++ rest)) w
        = run f (recvHashSeq (.between (received + data.length) (blobCount + 1)) rest) w'
      ∧ OnlyStores w w' [cur ++ data] := by
  induction data using splitChunks.induct generalizing cur received w with
  | case1 data h0 => exact absurd (List.length_eq_zero_iff.mp h0) hne
  | case2 data h0 ih =>
      have hsplit : (data.take maxChunkBytes).length + (data.drop maxChunkBytes).length
          = data.length := by
        rw [← List.length_append, List.take_append_drop]
      have hplace : HashSeq.place ⟨received, data.length, cur, blobCount, true⟩
            (data.take maxChunkBytes)
          = ⟨received + (data.take maxChunkBytes).length, (data.drop maxChunkBytes).length,
              cur ++ data.take maxChunkBytes, blobCount, true⟩ := by
        rw [HashSeq.place, if_neg h0]
        simp only [HashSeq.mk.injEq, and_true, true_and]
        omega
      have ha : HashSeq.Accepts ⟨received, data.length, cur, blobCount, true⟩
          (data.take maxChunkBytes) := by
        rw [HashSeq.Accepts, if_neg h0]
        dsimp only
        omega
      obtain ⟨w₁, he, hs⟩ := recv_chunk_lucky (f := f) hw ha
        ⟨by dsimp only; omega, fun h => absurd h h0⟩
        ((splitChunks (data.drop maxChunkBytes)).map .putChunk ++ rest)
      rw [splitChunks, if_neg h0, List.map_cons, List.cons_append, he, hplace]
      rw [hplace] at hs
      by_cases hmore : data.drop maxChunkBytes = []
      · -- the blob is complete
        have htake : data.take maxChunkBytes = data := by
          have h := List.take_append_drop maxChunkBytes data
          rwa [hmore, List.append_nil] at h
        rw [hmore, htake] at hs ⊢
        rw [splitChunks_nil]
        exact ⟨w₁, rfl, hs⟩
      · have hlen : (data.drop maxChunkBytes).length ≠ 0 :=
          fun h => hmore (List.length_eq_zero_iff.mp h)
        obtain ⟨hsettle, hhanded⟩ := HashSeq.settle_of_incomplete
          ⟨received + (data.take maxChunkBytes).length, (data.drop maxChunkBytes).length,
            cur ++ data.take maxChunkBytes, blobCount, true⟩ hlen
        rw [hsettle]
        rw [hhanded] at hs
        obtain ⟨w₂, he', hs'⟩ := ih hmore (cur ++ data.take maxChunkBytes)
          (received + (data.take maxChunkBytes).length) (hs.lucky hw) (by omega)
        refine ⟨w₂, ?_, ?_⟩
        · rw [he', Nat.add_assoc, hsplit]
        · have h := hs.trans hs'
          rwa [List.append_assoc, List.take_append_drop] at h

/-- A whole blob: the length, and the bytes. An empty blob ends with its length. -/
theorem recv_sendRawBlob (data : List UInt8) (received blobCount : Nat) {w : BlobWorld}
    (hw : Lucky w) (hcap : received + sentBytes data ≤ maxInMemoryTransferBytes)
    (rest : List TransferFrame) :
    ∃ w', run f (recvHashSeq (.between received blobCount)
          ((sendRawBlob data).map .putChunk ++ rest)) w
        = run f (recvHashSeq (.between (received + sentBytes data) (blobCount + 1)) rest) w'
      ∧ OnlyStores w w' [data] := by
  unfold sentBytes at *
  have hdecl : beDecode (beEncode 8 data.length) = data.length := by
    apply beDecode_beEncode
    unfold maxInMemoryTransferBytes at hcap
    omega
  have htake : (beEncode 8 data.length).take 8 = beEncode 8 data.length :=
    List.take_of_length_le (by simp)
  have hdrop : (beEncode 8 data.length).drop 8 = [] := List.drop_of_length_le (by simp)
  have h0 : (HashSeq.between received blobCount).expectedRemaining = 0 := rfl
  have hplace : (HashSeq.between received blobCount).place (beEncode 8 data.length)
      = ⟨received + 8, data.length, [], blobCount, true⟩ := by
    rw [HashSeq.place, if_pos h0, htake, hdecl, hdrop, length_beEncode]
    rfl
  have ha : (HashSeq.between received blobCount).Accepts (beEncode 8 data.length) := by
    rw [HashSeq.Accepts, if_pos h0, htake, hdecl, length_beEncode]
    omega
  have hf : (HashSeq.between received blobCount).Fits (beEncode 8 data.length) := by
    rw [HashSeq.Fits, htake, hdecl, length_beEncode]
    dsimp only [HashSeq.between]
    omega
  obtain ⟨w₁, he, hs⟩ := recv_chunk_lucky (f := f) hw ha hf
    ((splitChunks data).map .putChunk ++ rest)
  rw [sendRawBlob, List.map_cons, List.cons_append, he, hplace]
  rw [hplace] at hs
  by_cases hne : data = []
  · subst hne
    rw [splitChunks_nil]
    exact ⟨w₁, rfl, hs⟩
  · obtain ⟨hsettle, hhanded⟩ := HashSeq.settle_of_incomplete
      ⟨received + 8, data.length, [], blobCount, true⟩
      (fun h => hne (List.length_eq_zero_iff.mp h))
    rw [hsettle]
    rw [hhanded] at hs
    obtain ⟨w₂, he', hs'⟩ := recv_splitChunks (f := f) data hne [] (received + 8) blobCount
      (hs.lucky hw) (by omega) rest
    exact ⟨w₂, by rw [he', Nat.add_assoc], hs.trans hs'⟩

/-- All blobs, one after another. -/
theorem recv_blobs (blobs : List (List UInt8)) (received blobCount : Nat) {w : BlobWorld}
    (hw : Lucky w) (hcap : received + (blobs.map sentBytes).sum ≤ maxInMemoryTransferBytes)
    (rest : List TransferFrame) :
    ∃ w', run f (recvHashSeq (.between received blobCount)
          ((blobs.flatMap sendRawBlob).map .putChunk ++ rest)) w
        = run f (recvHashSeq (.between (received + (blobs.map sentBytes).sum)
            (blobCount + blobs.length)) rest) w'
      ∧ OnlyStores w w' blobs := by
  induction blobs generalizing received blobCount w with
  | nil => exact ⟨w, rfl, OnlyStores.refl w⟩
  | cons data blobs ih =>
      rw [List.map_cons, List.sum_cons] at hcap
      obtain ⟨w₁, he, hs⟩ := recv_sendRawBlob (f := f) data received blobCount hw (by omega)
        ((blobs.flatMap sendRawBlob).map .putChunk ++ rest)
      obtain ⟨w₂, he', hs'⟩ := ih (received + sentBytes data) (blobCount + 1) (hs.lucky hw)
        (by omega)
      refine ⟨w₂, ?_, hs.trans hs'⟩
      rw [List.flatMap_cons, List.map_append, List.append_assoc, he, he', List.map_cons,
        List.sum_cons, List.length_cons, Nat.add_assoc received, Nat.add_assoc blobCount,
        Nat.add_comm 1]

namespace Proof

/-- **The server receives what the client sends.** Whatever the blobs, empty ones included, as long
as they and their lengths are within the in-memory limit: the loop ends without error, the store has
got exactly these blobs in this order, and both sides have counted the same total. -/
theorem hashseq_round_trip (f : StoreFormat) (w : BlobWorld) (blobs : List (List UInt8))
    (hw : Lucky w) (hcap : (blobs.map sentBytes).sum ≤ maxInMemoryTransferBytes) :
    ∃ st w', run f (recvHashSeq .init (sendBlobs blobs)) w = (.ok st, w')
      ∧ OnlyStores w w' blobs
      ∧ st.received = (blobs.map sentBytes).sum := by
  obtain ⟨w', he, hs⟩ := recv_blobs (f := f) blobs 0 0 hw (by omega)
    [.putComplete ⟨UInt64.ofNat (blobs.map sentBytes).sum⟩]
  refine ⟨_, w', he, hs, ?_⟩
  dsimp only [HashSeq.between]
  omega

theorem hashseq_round_trip_empty_blob :
    let f : StoreFormat := ⟨id, fun _ _ => none, fun _ => []⟩
    let w : BlobWorld := ⟨[], [], [], [], fun _ => .works, 0⟩
    ∃ st w', run f (recvHashSeq .init (sendBlobs [[], [1, 2, 3], []])) w = (.ok st, w')
      ∧ OnlyStores w w' [[], [1, 2, 3], []]
      ∧ st.received = 27 :=
  hashseq_round_trip ⟨id, fun _ _ => none, fun _ => []⟩
    ⟨[], [], [], [], fun _ => .works, 0⟩ [[], [1, 2, 3], []]
    (fun _ => rfl) (by simp [sentBytes, maxInMemoryTransferBytes])

end Proof

/-! ## Backward: what has been accepted -/

/-- A blob as the stream carries it. -/
def framed (blob : List UInt8) : List UInt8 := beEncode 8 blob.length ++ blob

namespace HashSeq

/-- A list of chunks taken one after another, with the blobs handed over. -/
inductive Takes : HashSeq → List (List UInt8) → HashSeq → List (List UInt8) → Prop where
  | nil (st : HashSeq) : Takes st [] st []
  | cons {st st' : HashSeq} {data : List UInt8} {chunks blobs : List (List UInt8)}
      (ha : st.Accepts data) (ht : Takes (st.place data).settle chunks st' blobs) :
      Takes st (data :: chunks) st' ((st.place data).handed ++ blobs)

/-- The buffer is in use exactly inside a blob. -/
structure Sound (st : HashSeq) : Prop where
  between : st.expectedRemaining = 0 → st.currentBlob = []
  inside : st.expectedRemaining ≠ 0 → st.curBlobStarted = true

/-- The bytes of the blob in progress, with its length in front. -/
def pending (st : HashSeq) : List UInt8 :=
  if st.expectedRemaining = 0 then []
  else beEncode 8 (st.currentBlob.length + st.expectedRemaining) ++ st.currentBlob

/-- A chunk in its place: the blob it belongs to is open, with the bytes it has got so far. -/
theorem place_spec {st : HashSeq} {data : List UInt8} (hs : st.Sound) (ha : st.Accepts data) :
    (st.place data).curBlobStarted = true
      ∧ st.pending ++ data
        = beEncode 8 ((st.place data).currentBlob.length + (st.place data).expectedRemaining)
          ++ (st.place data).currentBlob := by
  unfold Accepts at ha
  unfold place pending
  by_cases hr : st.expectedRemaining = 0
  · rw [if_pos hr] at ha
    obtain ⟨hlen, hdecl⟩ := ha
    rw [if_pos hr, if_pos hr]
    refine ⟨rfl, ?_⟩
    dsimp only
    have htotal : (data.drop 8).length + (beDecode (data.take 8) - (data.length - 8))
        = beDecode (data.take 8) := by
      rw [List.length_drop]
      omega
    have hback : beEncode 8 (beDecode (data.take 8)) = data.take 8 := by
      have h := beEncode_beDecode (data.take 8)
      rwa [List.length_take, Nat.min_eq_left hlen] at h
    rw [hs.between hr, List.nil_append, List.nil_append, htotal, hback, List.take_append_drop]
  · rw [if_neg hr] at ha
    rw [if_neg hr, if_neg hr]
    refine ⟨hs.inside hr, ?_⟩
    dsimp only
    have htotal : (st.currentBlob ++ data).length + (st.expectedRemaining - data.length)
        = st.currentBlob.length + st.expectedRemaining := by
      rw [List.length_append]
      omega
    rw [htotal, List.append_assoc]

/-- One chunk: its bytes go to the store or stay pending. -/
theorem settle_place {st : HashSeq} {data : List UInt8} (hs : st.Sound) (ha : st.Accepts data) :
    (st.place data).settle.Sound
      ∧ st.pending ++ data
        = (st.place data).handed.flatMap framed ++ (st.place data).settle.pending := by
  obtain ⟨hstarted, hbytes⟩ := place_spec hs ha
  by_cases hr : (st.place data).expectedRemaining = 0
  · obtain ⟨hsettle, hhanded⟩ := settle_of_complete hr hstarted
    rw [hsettle, hhanded, hbytes, hr]
    refine ⟨⟨fun _ => rfl, fun h => absurd rfl h⟩, ?_⟩
    simp [framed, pending]
  · obtain ⟨hsettle, hhanded⟩ := settle_of_incomplete (st.place data) hr
    rw [hsettle, hhanded, hbytes]
    refine ⟨⟨fun h => absurd h hr, fun _ => hstarted⟩, ?_⟩
    rw [List.flatMap_nil, List.nil_append, pending, if_neg hr]

/-- **Nothing is lost in between**: the bytes taken are the blobs handed over, each behind its
length, and what is pending. -/
theorem Takes.accounts {st st' : HashSeq} {chunks blobs : List (List UInt8)}
    (h : Takes st chunks st' blobs) (hs : st.Sound) :
    st'.Sound ∧ st.pending ++ chunks.flatten = blobs.flatMap framed ++ st'.pending := by
  induction h with
  | nil st => exact ⟨hs, by simp⟩
  | cons ha _ ih =>
      obtain ⟨hs₁, hbytes⟩ := settle_place hs ha
      obtain ⟨hs', hrest⟩ := ih hs₁
      refine ⟨hs', ?_⟩
      rw [List.flatten_cons, ← List.append_assoc, hbytes, List.append_assoc, hrest,
        List.flatMap_append, List.append_assoc]

end HashSeq

/-- Chunks that carry whole blobs: a chunk with a length in front, and behind the length exactly as
many bytes as it says, in this chunk and the following ones. -/
inductive WholeBlobs : List (List UInt8) → Prop where
  | nil : WholeBlobs []
  | blob {first : List UInt8} {more rest : List (List UInt8)} (hlen : 8 ≤ first.length)
      (htotal : first.length + more.flatten.length = 8 + beDecode (first.take 8))
      (hrest : WholeBlobs rest) : WholeBlobs (first :: (more ++ rest))

namespace HashSeq

/-- What one chunk changes about what is still owed. -/
theorem settle_expectedRemaining (st : HashSeq) :
    st.settle.expectedRemaining = st.expectedRemaining := by
  unfold settle
  split_ifs <;> rfl

theorem place_expectedRemaining_of_zero {st : HashSeq} (hr : st.expectedRemaining = 0)
    (data : List UInt8) : (st.place data).settle.expectedRemaining
      = beDecode (data.take 8) - (data.length - 8) := by
  rw [settle_expectedRemaining, place, if_pos hr]

theorem place_expectedRemaining_of_ne {st : HashSeq} (hr : st.expectedRemaining ≠ 0)
    (data : List UInt8) : (st.place data).settle.expectedRemaining
      = st.expectedRemaining - data.length := by
  rw [settle_expectedRemaining, place, if_neg hr]

/-- If nothing is owed at the end, the chunks first pay what was owed and then carry whole blobs. -/
theorem Takes.whole {st st' : HashSeq} {chunks blobs : List (List UInt8)}
    (h : Takes st chunks st' blobs) (hend : st'.expectedRemaining = 0) :
    ∃ more rest, chunks = more ++ rest ∧ more.flatten.length = st.expectedRemaining
      ∧ (st.expectedRemaining = 0 → more = []) ∧ WholeBlobs rest := by
  induction h with
  | nil st => exact ⟨[], [], rfl, hend.symm, fun _ => rfl, .nil⟩
  | @cons st st' data chunks blobs ha _ ih =>
      obtain ⟨more, rest, rfl, hmore, -, hrest⟩ := ih hend
      clear ih
      unfold Accepts at ha
      by_cases hr : st.expectedRemaining = 0
      · rw [if_pos hr] at ha
        rw [place_expectedRemaining_of_zero hr] at hmore
        have htotal : data.length + more.flatten.length = 8 + beDecode (data.take 8) := by omega
        exact ⟨[], data :: (more ++ rest), rfl, hr.symm, fun _ => rfl, .blob ha.1 htotal hrest⟩
      · rw [if_neg hr] at ha
        rw [place_expectedRemaining_of_ne hr] at hmore
        refine ⟨data :: more, rest, rfl, ?_, fun h => absurd h hr, hrest⟩
        rw [List.flatten_cons, List.length_append]
        omega

/-- And the other way round. -/
theorem Takes.end_of_whole {st st' : HashSeq} {chunks blobs : List (List UInt8)}
    (h : Takes st chunks st' blobs) {more rest : List (List UInt8)} (hsplit : chunks = more ++ rest)
    (hmore : more.flatten.length = st.expectedRemaining) (hrest : WholeBlobs rest) :
    st'.expectedRemaining = 0 := by
  induction h generalizing more rest with
  | nil st =>
      have hnil : more = [] := (List.append_eq_nil_iff.mp hsplit.symm).1
      rw [← hmore, hnil]
      rfl
  | @cons st st' data chunks blobs ha _ ih =>
      unfold Accepts at ha
      by_cases hr : st.expectedRemaining = 0
      · rw [if_pos hr] at ha
        cases more with
        | nil =>
            cases hrest with
            | nil => cases hsplit
            | blob hlen htotal hrest =>
                rw [List.nil_append, List.cons.injEq] at hsplit
                obtain ⟨rfl, rfl⟩ := hsplit
                refine ih rfl ?_ hrest
                rw [place_expectedRemaining_of_zero hr]
                omega
        | cons d more =>
            -- nothing is owed, so this chunk would be too short for a length
            rw [List.cons_append, List.cons.injEq] at hsplit
            rw [List.flatten_cons, List.length_append, hr, ← hsplit.1] at hmore
            omega
      · rw [if_neg hr] at ha
        cases more with
        | nil => exact absurd hmore.symm hr
        | cons d more =>
            rw [List.cons_append, List.cons.injEq] at hsplit
            obtain ⟨rfl, rfl⟩ := hsplit
            rw [List.flatten_cons, List.length_append] at hmore
            refine ih rfl ?_ hrest
            rw [place_expectedRemaining_of_ne hr]
            omega

end HashSeq

/-- A run that got to `PutComplete` has taken every chunk. -/
theorem recvHashSeq_ok_inv {chunks : List (List UInt8)} {complete : TransferComplete}
    {rest : List TransferFrame} {st st' : HashSeq} {w w' : BlobWorld}
    (h : run f (recvHashSeq st (chunks.map .putChunk ++ .putComplete complete :: rest)) w
      = (.ok st', w')) :
    ∃ blobs, st.Takes chunks st' blobs ∧ OnlyStores w w' blobs := by
  induction chunks generalizing st w with
  | nil =>
      rw [List.map_nil, List.nil_append, recvHashSeq, run_pure, Prod.mk.injEq, Except.ok.injEq] at h
      obtain ⟨rfl, rfl⟩ := h
      exact ⟨[], .nil st, OnlyStores.refl w⟩
  | cons data chunks ih =>
      rw [List.map_cons, List.cons_append, recvHashSeq, run_bind] at h
      cases ht : run f (takeChunk st data) w with
      | mk taken w₁ =>
          rw [ht] at h
          cases taken with
          | error e => cases h
          | ok st₁ =>
              obtain ⟨ha, rfl, hs, -⟩ := takeChunk_ok_inv ht
              obtain ⟨blobs, htakes, hs'⟩ := ih h
              exact ⟨_, .cons ha htakes, hs.trans hs'⟩

namespace Proof

/-- **An accepted stream is stored completely exactly if it carries whole blobs.** The loop ends at
`PutComplete` wherever it stands, and what has been received of an unfinished blob is dropped. -/
theorem hashseq_complete_iff (f : StoreFormat) (w w' : BlobWorld) (chunks : List (List UInt8))
    (complete : TransferComplete) (rest : List TransferFrame) (st : HashSeq)
    (h : run f (recvHashSeq .init (chunks.map .putChunk ++ .putComplete complete :: rest)) w
      = (.ok st, w')) :
    ∃ blobs, OnlyStores w w' blobs
      ∧ (chunks.flatten = blobs.flatMap framed ↔ WholeBlobs chunks) := by
  obtain ⟨blobs, htakes, hs⟩ := recvHashSeq_ok_inv h
  refine ⟨blobs, hs, ?_⟩
  have hinit : HashSeq.init.Sound := ⟨fun _ => rfl, fun h => absurd rfl h⟩
  have hbytes : chunks.flatten = blobs.flatMap framed ++ st.pending := (htakes.accounts hinit).2
  constructor
  · intro hall
    have hnone : st.pending = [] := by
      rw [hall] at hbytes
      exact List.append_right_eq_self.mp hbytes.symm
    have hend : st.expectedRemaining = 0 := by
      by_contra hr
      rw [HashSeq.pending, if_neg hr] at hnone
      have hlen := congrArg List.length (List.append_eq_nil_iff.mp hnone).1
      rw [length_beEncode] at hlen
      cases hlen
    obtain ⟨more, tail, rfl, -, hnil, htail⟩ := htakes.whole hend
    rw [hnil rfl]
    exact htail
  · intro hwhole
    have hend := htakes.end_of_whole (List.nil_append chunks).symm rfl hwhole
    rw [hbytes, HashSeq.pending, if_pos hend, List.append_nil]

theorem hashseq_complete_one_blob :
    let f : StoreFormat := ⟨id, fun _ _ => none, fun _ => []⟩
    let w : BlobWorld := ⟨[], [], [], [], fun _ => .works, 0⟩
    let chunks : List (List UInt8) := [[0, 0, 0, 0, 0, 0, 0, 2, 9], [8]]
    ∃ st w', run f (recvHashSeq .init (chunks.map .putChunk ++ [.putComplete ⟨10⟩])) w
        = (.ok st, w')
      ∧ ∃ blobs, OnlyStores w w' blobs
        ∧ (chunks.flatten = blobs.flatMap framed ↔ WholeBlobs chunks) :=
  ⟨_, _, rfl, hashseq_complete_iff _ _ _ [[0, 0, 0, 0, 0, 0, 0, 2, 9], [8]] ⟨10⟩ [] _ rfl⟩

/-- One blob, then a length of four and one byte of it: the last nine bytes are dropped. -/
theorem hashseq_unfinished_blob :
    let f : StoreFormat := ⟨id, fun _ _ => none, fun _ => []⟩
    let w : BlobWorld := ⟨[], [], [], [], fun _ => .works, 0⟩
    let chunks : List (List UInt8) := [[0, 0, 0, 0, 0, 0, 0, 1, 9], [0, 0, 0, 0, 0, 0, 0, 4], [7]]
    ∃ st w', run f (recvHashSeq .init (chunks.map .putChunk ++ [.putComplete ⟨18⟩])) w
        = (.ok st, w')
      ∧ w'.added = [[9]]
      ∧ chunks.flatten ≠ w'.added.flatMap framed := by
  refine ⟨_, _, rfl, rfl, ?_⟩
  decide

end Proof

end Irosh
