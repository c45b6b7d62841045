import Mathlib.Tactic.SplitIfs
import Irosh.Transport.Codec

/-!
# The wire format

Two results about the codec. What the encoders write, the decoders read back,
frame by frame and whatever follows; and the decoders agree with each other on
every stream, however broken.

For the first, a frame on the wire is `encoded kind payload`: the writers append
exactly that or fail before the first byte, and each reader takes exactly that off
the stream. For the second, the two header parsers run in lockstep up to the point
where one allocates and the other resizes; from there on they read the same bytes
into different places.
-/

namespace Irosh.Wire

open BigEndian Lockstep

/-- The kind byte of a frame. -/
def TransferFrame.kind : TransferFrame → UInt8
  | .putRequest _ => kindPutRequest
  | .putReady _ => kindPutReady
  | .putChunk _ => kindPutChunk
  | .putComplete _ => kindPutComplete
  | .getRequest _ => kindGetRequest
  | .getReady _ => kindGetReady
  | .getChunk _ => kindGetChunk
  | .getComplete _ => kindGetComplete
  | .cwdRequest _ => kindCwdRequest
  | .cwdResponse _ => kindCwdResponse
  | .existsRequest _ => kindExistsRequest
  | .existsResponse _ => kindExistsResponse
  | .completionRequest _ => kindCompletionRequest
  | .completionResponse _ => kindCompletionResponse
  | .blobPutRequest _ => kindBlobPutRequest
  | .blobGetRequest _ => kindBlobGetRequest
  | .blobGetReady _ => kindBlobGetReady
  | .newEntry _ => kindNewEntry
  | .entryComplete _ => kindEntryComplete
  | .error _ => kindError

/-- The serialized payload of a frame. -/
def TransferFrame.payload (json : SerdeJson) : TransferFrame → Except String (List UInt8)
  | .putRequest request => json.toVec .putRequest request
  | .putReady ready => json.toVec .transferReady ready
  | .putChunk chunk => .ok chunk
  | .putComplete complete => json.toVec .transferComplete complete
  | .getRequest request => json.toVec .getRequest request
  | .getReady ready => json.toVec .transferReady ready
  | .getChunk chunk => .ok chunk
  | .getComplete complete => json.toVec .transferComplete complete
  | .cwdRequest request => json.toVec .cwdRequest request
  | .cwdResponse response => json.toVec .cwdResponse response
  | .existsRequest request => json.toVec .existsRequest request
  | .existsResponse response => json.toVec .existsResponse response
  | .completionRequest request => json.toVec .completionRequest request
  | .completionResponse response => json.toVec .completionResponse response
  | .blobPutRequest request => json.toVec .blobPutRequest request
  | .blobGetRequest request => json.toVec .blobGetRequest request
  | .blobGetReady ready => json.toVec .blobGetReady ready
  | .newEntry header => json.toVec .entryHeader header
  | .entryComplete complete => json.toVec .entryComplete complete
  | .error failure => json.toVec .transferFailure failure

/-- A frame on the wire. -/
def encoded (kind : UInt8) (payload : List UInt8) : List UInt8 :=
  magic ++ ([version] ++ ([kind] ++ (beEncode 4 payload.length ++ payload)))

/-! ## Writing -/

theorem maxLen_lt (kind : UInt8) : maxLen kind < 256 ^ 4 := by
  unfold maxLen
  split <;> decide

theorem writeFrame_ok {kind : UInt8} {payload : List UInt8} (h : payload.length ≤ maxLen kind)
    (out : List UInt8) : (writeFrame kind payload).run out = .ok () (out ++ encoded kind payload) := by
  have hv : validatePayloadLimit kind payload.length = .ok () := if_neg (Nat.not_lt.mpr h)
  unfold writeFrame
  rw [hv]
  simp only [encoded, ← List.append_assoc]
  rfl

theorem writeFrame_tooLarge {kind : UInt8} {payload : List UInt8}
    (h : maxLen kind < payload.length) (out : List UInt8) :
    (writeFrame kind payload).run out = .error (.payloadTooLarge payload.length) out := by
  have hv : validatePayloadLimit kind payload.length
      = .error (.payloadTooLarge payload.length) := if_pos h
  unfold writeFrame
  rw [hv]
  rfl

/-- Every writer is `write_frame` of the frame's kind and payload. -/
theorem TransferFrame.write_eq {json : SerdeJson} {f : TransferFrame} {p : List UInt8}
    (h : f.payload json = .ok p) : f.write json = writeFrame f.kind p := by
  have hjson : ∀ {q : Payload} {v : q.Value} (kind : UInt8), json.toVec q v = .ok p →
      writeJsonFrame json q kind v = writeFrame kind p := by
    intro q v kind hq
    unfold writeJsonFrame
    rw [hq]
    rfl
  cases f with
  | putChunk chunk =>
      cases h
      rfl
  | getChunk chunk =>
      cases h
      rfl
  | putRequest | putReady | putComplete | getRequest | getReady | getComplete | cwdRequest
  | cwdResponse | existsRequest | existsResponse | completionRequest | completionResponse
  | blobPutRequest | blobGetRequest | blobGetReady | newEntry | entryComplete | error =>
      exact hjson _ h

/-- A frame that cannot be serialized is not written. -/
theorem TransferFrame.write_error {json : SerdeJson} {f : TransferFrame} {e : String}
    (h : f.payload json = .error e) (out : List UInt8) : (f.write json).run out = .error (.json e) out := by
  have hjson : ∀ {q : Payload} {v : q.Value} (kind : UInt8), json.toVec q v = .error e →
      (writeJsonFrame json q kind v).run out = .error (.json e) out := by
    intro q v kind hq
    unfold writeJsonFrame
    rw [hq]
    rfl
  cases f with
  | putChunk | getChunk => cases h
  | putRequest | putReady | putComplete | getRequest | getReady | getComplete | cwdRequest
  | cwdResponse | existsRequest | existsResponse | completionRequest | completionResponse
  | blobPutRequest | blobGetRequest | blobGetReady | newEntry | entryComplete | error =>
      exact hjson _ h

/-! ## Reading back -/

theorem readExact_enough {n : Nat} {input : ByteStream} (h : n ≤ input.bytes.length)
    (buf : List UInt8) (sizes : List (UInt8 × Nat)) :
    (readExact n).run ⟨input, buf, sizes⟩
      = .ok (input.bytes.take n) ⟨{ input with bytes := input.bytes.drop n }, buf, sizes⟩ :=
  if_pos h

theorem readExact_short {n : Nat} {input : ByteStream} (h : ¬ n ≤ input.bytes.length)
    (buf : List UInt8) (sizes : List (UInt8 × Nat)) :
    (readExact n).run ⟨input, buf, sizes⟩
      = .error (.io input.ending) ⟨{ input with bytes := [] }, buf, sizes⟩ :=
  if_neg h

theorem readExact_append {n : Nat} {bs : List UInt8} (h : bs.length = n) (rest : List UInt8)
    (e : IoError) (buf : List UInt8) (sizes : List (UInt8 × Nat)) :
    (readExact n).run ⟨⟨bs ++ rest, e⟩, buf, sizes⟩ = .ok bs ⟨⟨rest, e⟩, buf, sizes⟩ := by
  subst h
  rw [readExact_enough (by simp)]
  simp

theorem readU8_cons (b : UInt8) (rest : List UInt8) (e : IoError) (buf : List UInt8)
    (sizes : List (UInt8 × Nat)) :
    readU8.run ⟨⟨[b] ++ rest, e⟩, buf, sizes⟩ = .ok b ⟨⟨rest, e⟩, buf, sizes⟩ := by
  have hread : (readExact 1).run ⟨⟨[b] ++ rest, e⟩, buf, sizes⟩ = .ok [b] ⟨⟨rest, e⟩, buf, sizes⟩ :=
    readExact_append List.length_singleton rest e buf sizes
  unfold readU8
  rw [bind_ok hread]
  rfl

theorem readU32_append {n : Nat} (h : n < 256 ^ 4) (rest : List UInt8) (e : IoError)
    (buf : List UInt8) (sizes : List (UInt8 × Nat)) :
    readU32.run ⟨⟨beEncode 4 n ++ rest, e⟩, buf, sizes⟩ = .ok n ⟨⟨rest, e⟩, buf, sizes⟩ := by
  unfold readU32
  rw [bind_ok (readExact_append (length_beEncode 4 n) rest e buf sizes), beDecode_beEncode h]
  rfl

/-- The end of `read_frame_into`. -/
def fillBuf (kind : UInt8) (length : Nat) : Reading (UInt8 × List UInt8) := do
  resizeBuf kind length
  readExactBuf
  let s ← get
  pure (kind, s.buf)

theorem resizeBuf_run (kind : UInt8) (n : Nat) (input : ByteStream) (buf : List UInt8)
    (sizes : List (UInt8 × Nat)) :
    ∃ resized : List UInt8, resized.length = n
      ∧ (resizeBuf kind n).run ⟨input, buf, sizes⟩
        = .ok () ⟨input, resized, sizes ++ [(kind, n)]⟩ := by
  refine ⟨_, ?_, rfl⟩
  simp only [List.length_append, List.length_take, List.length_replicate]
  omega

/-- Filling a resized buffer reads just as many bytes as it was resized to. -/
theorem fillBuf_enough {kind : UInt8} {length : Nat} {input : ByteStream}
    (h : length ≤ input.bytes.length) (buf : List UInt8) (sizes : List (UInt8 × Nat)) :
    (fillBuf kind length).run ⟨input, buf, sizes⟩
      = .ok (kind, input.bytes.take length)
          ⟨{ input with bytes := input.bytes.drop length }, input.bytes.take length,
            sizes ++ [(kind, length)]⟩ := by
  obtain ⟨resized, hlen, hresize⟩ := resizeBuf_run kind length input buf sizes
  subst hlen
  have hread : readExactBuf.run ⟨input, resized, sizes ++ [(kind, resized.length)]⟩
      = .ok () ⟨{ input with bytes := input.bytes.drop resized.length },
          input.bytes.take resized.length, sizes ++ [(kind, resized.length)]⟩ := if_pos h
  unfold fillBuf
  rw [bind_ok hresize, bind_ok hread]
  rfl

/-- What is left in the buffer after a short read is nobody's business. -/
theorem fillBuf_short (kind : UInt8) {length : Nat} {input : ByteStream}
    (h : ¬ length ≤ input.bytes.length) (buf : List UInt8) (sizes : List (UInt8 × Nat)) :
    ∃ buf', (fillBuf kind length).run ⟨input, buf, sizes⟩
      = .error (.io input.ending) ⟨{ input with bytes := [] }, buf', sizes ++ [(kind, length)]⟩ := by
  obtain ⟨resized, hlen, hresize⟩ := resizeBuf_run kind length input buf sizes
  subst hlen
  have hread : readExactBuf.run ⟨input, resized, sizes ++ [(kind, resized.length)]⟩
      = .error (.io input.ending) ⟨{ input with bytes := [] },
          input.bytes ++ resized.drop input.bytes.length,
          sizes ++ [(kind, resized.length)]⟩ := if_neg h
  unfold fillBuf
  rw [bind_ok hresize, bind_error hread]
  exact ⟨_, rfl⟩

/-- `read_frame_into` takes one frame off the stream. -/
theorem readFrameInto_encoded {kind : UInt8} {payload : List UInt8}
    (hkind : kind ∈ [kindPutRequest, kindPutReady, kindPutChunk, kindPutComplete, kindGetRequest,
      kindGetReady, kindGetChunk, kindGetComplete, kindError, kindCwdRequest, kindCwdResponse,
      kindExistsRequest, kindExistsResponse, kindNewEntry, kindEntryComplete, kindCompletionRequest,
      kindCompletionResponse, kindBlobPutRequest, kindBlobGetRequest, kindBlobGetReady])
    (hlen : payload.length ≤ maxLen kind) (rest : List UInt8) (e : IoError) (buf : List UInt8)
    (sizes : List (UInt8 × Nat)) :
    readFrameInto.run ⟨⟨encoded kind payload ++ rest, e⟩, buf, sizes⟩
      = .ok (kind, payload) ⟨⟨rest, e⟩, payload, sizes ++ [(kind, payload.length)]⟩ := by
  have hv : validatePayloadLimit kind payload.length = .ok () := if_neg (Nat.not_lt.mpr hlen)
  have hlt : payload.length < 256 ^ 4 := Nat.lt_of_le_of_lt hlen (maxLen_lt kind)
  have hvalid : (ofExcept (validatePayloadLimit kind payload.length) : Reading Unit).run
      ⟨⟨payload ++ rest, e⟩, buf, sizes⟩ = .ok () ⟨⟨payload ++ rest, e⟩, buf, sizes⟩ := by
    rw [hv]
    rfl
  simp only [encoded, List.append_assoc]
  unfold readFrameInto
  rw [bind_ok (readExact_append (by rfl) _ e buf sizes), bind_ok (run_refuse (by simp) _ _),
    bind_ok (readU8_cons version _ e buf sizes), bind_ok (run_refuse (by simp) _ _),
    bind_ok (readU8_cons kind _ e buf sizes), bind_ok (run_refuse (decide_eq_false fun h => h hkind) _ _),
    bind_ok (readU32_append hlt _ e buf sizes), bind_ok hvalid]
  show (fillBuf kind payload.length).run ⟨⟨payload ++ rest, e⟩, buf, sizes⟩ = _
  rw [fillBuf_enough (by simp)]
  simp

theorem TransferFrame.kind_known (f : TransferFrame) :
    f.kind ∈ [kindPutRequest, kindPutReady, kindPutChunk, kindPutComplete, kindGetRequest,
      kindGetReady, kindGetChunk, kindGetComplete, kindError, kindCwdRequest, kindCwdResponse,
      kindExistsRequest, kindExistsResponse, kindNewEntry, kindEntryComplete, kindCompletionRequest,
      kindCompletionResponse, kindBlobPutRequest, kindBlobGetRequest, kindBlobGetReady] := by
  cases f <;> simp [TransferFrame.kind]

/-- Everything a reader does with a frame once it has the kind and the payload. -/
def decodeAny (json : SerdeJson) (kind : UInt8) (payload : List UInt8) :
    Except TransferError TransferFrame :=
  if kind = kindPutChunk then .ok (.putChunk payload)
  else if kind = kindGetChunk then .ok (.getChunk payload)
  else decodeFrame json kind payload

/-- Decoding the payload a frame was serialized to gives the frame. -/
theorem decodeAny_payload {json : SerdeJson} (hjson : json.RoundTrips) {f : TransferFrame}
    {p : List UInt8} (h : f.payload json = .ok p) : decodeAny json f.kind p = .ok f := by
  have hfrom : ∀ (q : Payload) {v : q.Value} (mk : q.Value → TransferFrame),
      json.toVec q v = .ok p → mk <$> fromSlice json q p = .ok (mk v) := by
    intro q v mk hq
    unfold fromSlice
    rw [hjson q v p hq]
    rfl
  cases f with
  | putChunk chunk =>
      cases h
      rfl
  | getChunk chunk =>
      cases h
      rfl
  | putRequest v => exact hfrom .putRequest .putRequest h
  | putReady v => exact hfrom .transferReady .putReady h
  | putComplete v => exact hfrom .transferComplete .putComplete h
  | getRequest v => exact hfrom .getRequest .getRequest h
  | getReady v => exact hfrom .transferReady .getReady h
  | getComplete v => exact hfrom .transferComplete .getComplete h
  | cwdRequest v => exact hfrom .cwdRequest .cwdRequest h
  | cwdResponse v => exact hfrom .cwdResponse .cwdResponse h
  | existsRequest v => exact hfrom .existsRequest .existsRequest h
  | existsResponse v => exact hfrom .existsResponse .existsResponse h
  | completionRequest v => exact hfrom .completionRequest .completionRequest h
  | completionResponse v => exact hfrom .completionResponse .completionResponse h
  | blobPutRequest v => exact hfrom .blobPutRequest .blobPutRequest h
  | blobGetRequest v => exact hfrom .blobGetRequest .blobGetRequest h
  | blobGetReady v => exact hfrom .blobGetReady .blobGetReady h
  | newEntry v => exact hfrom .entryHeader .newEntry h
  | entryComplete v => exact hfrom .entryComplete .entryComplete h
  | error v => exact hfrom .transferFailure .error h

theorem readNextFrameInto_ok {json : SerdeJson} {s s' : ReadState} {kind : UInt8}
    {payload : List UInt8} (h : readFrameInto.run s = .ok (kind, payload) s') {f : TransferFrame}
    (hf : decodeAny json kind payload = .ok f) :
    ∃ b, (readNextFrameInto json).run s = .ok b s' ∧ b.frame = f := by
  unfold readNextFrameInto
  rw [bind_ok h]
  unfold decodeAny at hf
  dsimp only
  split_ifs at hf ⊢ with h1 h2
  · cases hf
    exact ⟨.putChunk payload, rfl, rfl⟩
  · cases hf
    exact ⟨.getChunk payload, rfl, rfl⟩
  · rw [hf]
    exact ⟨.owned f, rfl, rfl⟩

theorem readNextFrameInto_error {json : SerdeJson} {s s' : ReadState} {kind : UInt8}
    {payload : List UInt8} (h : readFrameInto.run s = .ok (kind, payload) s') {e : TransferError}
    (he : decodeAny json kind payload = .error e) :
    (readNextFrameInto json).run s = .error e s' := by
  unfold readNextFrameInto
  rw [bind_ok h]
  unfold decodeAny at he
  dsimp only
  split_ifs at he ⊢ with h1 h2
  rw [he]
  rfl

/-- Owning a borrowed frame changes nothing but the ghost. -/
theorem toOwned_run (b : TransferFrameBorrowed) (s : ReadState) :
    ∃ sizes, (toOwned b).run s = .ok b.frame { s with sizes := sizes } := by
  cases b with
  | putChunk chunk => exact ⟨_, rfl⟩
  | getChunk chunk => exact ⟨_, rfl⟩
  | owned frame => exact ⟨s.sizes, rfl⟩

theorem withOwnBuf_run {α : Type} (x : Reading α) (s : ReadState) :
    (withOwnBuf x).run s = match x.run { s with buf := [] } with
      | .ok a s' => .ok a { s' with buf := s.buf }
      | .error e s' => .error e { s' with buf := s.buf } := rfl

theorem readNextFrame_ok {json : SerdeJson} {s s' : ReadState} {b : TransferFrameBorrowed}
    (h : (readNextFrameInto json).run { s with buf := [] } = .ok b s') :
    ∃ sizes, (readNextFrame json).run s = .ok b.frame ⟨s'.input, s.buf, sizes⟩ := by
  obtain ⟨sizes, ho⟩ := toOwned_run b s'
  have hrun : ((readNextFrameInto json) >>= toOwned).run { s with buf := [] }
      = .ok b.frame { s' with sizes := sizes } := by
    rw [bind_ok h, ho]
  refine ⟨sizes, ?_⟩
  unfold readNextFrame
  rw [withOwnBuf_run, hrun]

theorem readNextFrame_error {json : SerdeJson} {s s' : ReadState} {e : TransferError}
    (h : (readNextFrameInto json).run { s with buf := [] } = .error e s') :
    (readNextFrame json).run s = .error e { s' with buf := s.buf } := by
  have hrun : ((readNextFrameInto json) >>= toOwned).run { s with buf := [] } = .error e s' :=
    bind_error h
  unfold readNextFrame
  rw [withOwnBuf_run, hrun]

/-! ## Whole streams -/

/-- A frame whose serialized payload is within the limit of its kind. -/
def Fits (json : SerdeJson) (f : TransferFrame) : Prop :=
  ∃ p, f.payload json = .ok p ∧ p.length ≤ maxLen f.kind

/-- One frame is written as bytes from which both readers get it back, leaving what follows. -/
theorem frame_round_trip {json : SerdeJson} (hjson : json.RoundTrips) {f : TransferFrame}
    (hf : Fits json f) :
    ∃ bytes, (∀ out, (f.write json).run out = .ok () (out ++ bytes))
      ∧ (∀ rest e buf sizes, ∃ sizes',
          (readNextFrame json).run ⟨⟨bytes ++ rest, e⟩, buf, sizes⟩
            = .ok f ⟨⟨rest, e⟩, buf, sizes'⟩)
      ∧ (∀ rest e buf sizes, ∃ b buf' sizes',
          (readNextFrameInto json).run ⟨⟨bytes ++ rest, e⟩, buf, sizes⟩
            = .ok b ⟨⟨rest, e⟩, buf', sizes'⟩ ∧ b.frame = f) := by
  obtain ⟨p, hp, hlen⟩ := hf
  have hdec := decodeAny_payload hjson hp
  have hinto : ∀ rest e buf sizes, ∃ b,
      (readNextFrameInto json).run ⟨⟨encoded f.kind p ++ rest, e⟩, buf, sizes⟩
        = .ok b ⟨⟨rest, e⟩, p, sizes ++ [(f.kind, p.length)]⟩ ∧ b.frame = f := by
    intro rest e buf sizes
    exact readNextFrameInto_ok (readFrameInto_encoded f.kind_known hlen rest e buf sizes) hdec
  refine ⟨encoded f.kind p, ?_, ?_, ?_⟩
  · intro out
    rw [TransferFrame.write_eq hp]
    exact writeFrame_ok hlen out
  · intro rest e buf sizes
    obtain ⟨b, hb, rfl⟩ := hinto rest e [] sizes
    exact readNextFrame_ok (s := ⟨⟨encoded b.frame.kind p ++ rest, e⟩, buf, sizes⟩) hb
  · intro rest e buf sizes
    obtain ⟨b, hb, hf⟩ := hinto rest e buf sizes
    exact ⟨b, p, _, hb, hf⟩

/-- What a list of frames is written as is read back as that list. -/
theorem frames_round_trip {json : SerdeJson} (hjson : json.RoundTrips)
    {frames : List TransferFrame} (hfits : ∀ f ∈ frames, Fits json f) :
    ∃ bytes, (∀ out, (writeFrames json frames).run out = .ok () (out ++ bytes))
      ∧ (∀ rest e buf sizes, ∃ sizes',
          (readFrames json frames.length).run ⟨⟨bytes ++ rest, e⟩, buf, sizes⟩
            = .ok frames ⟨⟨rest, e⟩, buf, sizes'⟩)
      ∧ (∀ rest e buf sizes, ∃ buf' sizes',
          (readFramesInto json frames.length).run ⟨⟨bytes ++ rest, e⟩, buf, sizes⟩
            = .ok frames ⟨⟨rest, e⟩, buf', sizes'⟩) := by
  induction frames with
  | nil =>
      refine ⟨[], ?_, ?_, ?_⟩
      · intro out
        rw [List.append_nil]
        rfl
      · intro rest e buf sizes
        exact ⟨sizes, rfl⟩
      · intro rest e buf sizes
        exact ⟨buf, sizes, rfl⟩
  | cons f frames ih =>
      obtain ⟨bytes, hw, hr, hi⟩ := frame_round_trip hjson (hfits f List.mem_cons_self)
      obtain ⟨more, hw', hr', hi'⟩ := ih fun g hg => hfits g (List.mem_cons_of_mem f hg)
      refine ⟨bytes ++ more, ?_, ?_, ?_⟩
      · intro out
        unfold writeFrames
        rw [bind_ok (hw out), hw', List.append_assoc]
      · intro rest e buf sizes
        obtain ⟨sizes₁, h1⟩ := hr (more ++ rest) e buf sizes
        obtain ⟨sizes₂, h2⟩ := hr' rest e buf sizes₁
        refine ⟨sizes₂, ?_⟩
        rw [List.append_assoc, List.length_cons, readFrames, bind_ok h1, bind_ok h2]
        rfl
      · intro rest e buf sizes
        obtain ⟨b, buf₁, sizes₁, h1, hb⟩ := hi (more ++ rest) e buf sizes
        obtain ⟨buf₂, sizes₂, h2⟩ := hi' rest e buf₁ sizes₁
        refine ⟨buf₂, sizes₂, ?_⟩
        rw [List.append_assoc, List.length_cons, readFramesInto, bind_ok h1, bind_ok h2, hb]
        rfl

/-! ## The readers among themselves -/

/-- Two states from which the same bytes can be read, whatever else they hold. -/
def SameInput (s t : ReadState) : Prop := s.input = t.input

theorem agree_readExact (n : Nat) : Agree SameInput Eq (readExact n) (readExact n) := by
  rintro ⟨input, buf, sizes⟩ ⟨_, buf', sizes'⟩ rfl
  by_cases h : n ≤ input.bytes.length
  · rw [readExact_enough h, readExact_enough h]
    exact ⟨rfl, rfl⟩
  · rw [readExact_short h, readExact_short h]
    exact ⟨rfl, rfl⟩

theorem agree_readU8 : Agree SameInput Eq readU8 readU8 := by
  refine (agree_readExact 1).bind fun bs bs' h => ?_
  subst h
  exact agree_pure rfl

theorem agree_readU32 : Agree SameInput Eq readU32 readU32 := by
  refine (agree_readExact 4).bind fun bs bs' h => ?_
  subst h
  exact agree_pure rfl

/-- Reading into a fresh buffer and filling a resized one take the same bytes. -/
theorem agree_payload (kind : UInt8) (length : Nat) :
    Agree SameInput Eq
      (do allocate kind length; let payload ← readExact length; pure (kind, payload))
      (fillBuf kind length) := by
  rintro ⟨input, buf, sizes⟩ ⟨_, buf', sizes'⟩ rfl
  have halloc : (allocate kind length).run ⟨input, buf, sizes⟩
      = .ok () ⟨input, buf, sizes ++ [(kind, length)]⟩ := rfl
  rw [bind_ok halloc]
  by_cases h : length ≤ input.bytes.length
  · rw [bind_ok (readExact_enough h _ _), fillBuf_enough h]
    exact ⟨rfl, rfl⟩
  · obtain ⟨_, hfill⟩ := fillBuf_short kind h buf' sizes'
    rw [bind_error (readExact_short h _ _), hfill]
    exact ⟨rfl, rfl⟩

/-- **`read_frame` and `read_frame_into` agree on every stream.** -/
theorem agree_readFrame : Agree SameInput Eq readFrame readFrameInto := by
  refine (agree_readExact 4).bind fun start _ h => ?_
  subst h
  refine (agree_refuse (Q := Eq) rfl _ _).bind fun _ _ _ => ?_
  refine agree_readU8.bind fun v _ h => ?_
  subst h
  refine (agree_refuse (Q := Eq) rfl _ _).bind fun _ _ _ => ?_
  refine agree_readU8.bind fun kind _ h => ?_
  subst h
  refine (agree_refuse (Q := Eq) rfl _ _).bind fun _ _ _ => ?_
  refine agree_readU32.bind fun length _ h => ?_
  subst h
  refine (agree_ofExcept SameInput (validatePayloadLimit kind length)).bind fun _ _ _ => ?_
  exact agree_payload kind length

/-- The readers that expect one kind of frame. -/
inductive TypedReader where
  | putRequest
  | putReady
  | putChunk
  | putComplete
  | getRequest
  | getReady
  | getChunk
  | getComplete
  | transferError
  | existsRequest
  | existsResponse
  deriving DecidableEq, Repr

namespace TypedReader

/-- What a typed reader returns. -/
def Value : TypedReader → Type
  | putRequest => PutRequest
  | putReady => TransferReady
  | putChunk => List UInt8
  | putComplete => TransferComplete
  | getRequest => GetRequest
  | getReady => TransferReady
  | getChunk => List UInt8
  | getComplete => TransferComplete
  | transferError => TransferFailure
  | existsRequest => ExistsRequest
  | existsResponse => ExistsResponse

def read (json : SerdeJson) : (t : TypedReader) → Reading t.Value
  | putRequest => readPutRequest json
  | putReady => readPutReady json
  | putChunk => readPutChunk
  | putComplete => readPutComplete json
  | getRequest => readGetRequest json
  | getReady => readGetReady json
  | getChunk => readGetChunk
  | getComplete => readGetComplete json
  | transferError => readTransferError json
  | existsRequest => readExistsRequest json
  | existsResponse => readExistsResponse json

/-- The frame that carries a value. -/
def frame : (t : TypedReader) → t.Value → TransferFrame
  | putRequest => .putRequest
  | putReady => .putReady
  | putChunk => .putChunk
  | putComplete => .putComplete
  | getRequest => .getRequest
  | getReady => .getReady
  | getChunk => .getChunk
  | getComplete => .getComplete
  | transferError => .error
  | existsRequest => .existsRequest
  | existsResponse => .existsResponse

/-- The kind it expects. -/
def kind : TypedReader → UInt8
  | putRequest => kindPutRequest
  | putReady => kindPutReady
  | putChunk => kindPutChunk
  | putComplete => kindPutComplete
  | getRequest => kindGetRequest
  | getReady => kindGetReady
  | getChunk => kindGetChunk
  | getComplete => kindGetComplete
  | transferError => kindError
  | existsRequest => kindExistsRequest
  | existsResponse => kindExistsResponse

/-- What it does with the payload. -/
def parse (json : SerdeJson) : (t : TypedReader) → List UInt8 → Except TransferError t.Value
  | putRequest => fromSlice json .putRequest
  | putReady => fromSlice json .transferReady
  | putChunk => .ok
  | putComplete => fromSlice json .transferComplete
  | getRequest => fromSlice json .getRequest
  | getReady => fromSlice json .transferReady
  | getChunk => .ok
  | getComplete => fromSlice json .transferComplete
  | transferError => fromSlice json .transferFailure
  | existsRequest => fromSlice json .existsRequest
  | existsResponse => fromSlice json .existsResponse

/-- All typed readers have one shape. -/
theorem read_eq (json : SerdeJson) (t : TypedReader) :
    t.read json = (do
      let r ← readFrame
      refuse (r.1 ≠ t.kind) (.unexpectedKind t.kind r.1)
      ofExcept (t.parse json r.2)) := by
  cases t <;> rfl

theorem frame_injective (t : TypedReader) {v v' : t.Value} (h : t.frame v = t.frame v') :
    v = v' := by
  cases t <;> (cases h; rfl)

theorem frame_kind (t : TypedReader) (v : t.Value) : (t.frame v).kind = t.kind := by
  cases t <;> rfl

/-- On a frame of its kind a typed reader parses what the general reader decodes. -/
theorem decodeAny_kind (json : SerdeJson) (t : TypedReader) (payload : List UInt8) :
    decodeAny json t.kind payload = t.frame <$> t.parse json payload := by
  cases t <;> rfl

end TypedReader

/-- One alternative of `decode_frame`, and the ones after it. -/
theorem kind_of_ite {α : Type} {k k' : UInt8} {mk : α → TransferFrame}
    {r : Except TransferError α} {rest : Except TransferError TransferFrame} {f : TransferFrame}
    (h : (if k = k' then mk <$> r else rest) = .ok f) (hmk : ∀ v, (mk v).kind = k')
    (hrest : rest = .ok f → f.kind = k) : f.kind = k := by
  by_cases hk : k = k'
  · rw [if_pos hk] at h
    cases r with
    | ok v =>
        cases h
        rw [hk]
        exact hmk v
    | error e => cases h
  · rw [if_neg hk] at h
    exact hrest h

/-- A decoded frame is of the kind it was decoded as. -/
theorem kind_of_decodeAny {json : SerdeJson} {k : UInt8} {payload : List UInt8}
    {f : TransferFrame} (h : decodeAny json k payload = .ok f) : f.kind = k := by
  unfold decodeAny at h
  by_cases h1 : k = kindPutChunk
  · rw [if_pos h1] at h
    cases h
    exact h1.symm
  · rw [if_neg h1] at h
    by_cases h2 : k = kindGetChunk
    · rw [if_pos h2] at h
      cases h
      exact h2.symm
    · rw [if_neg h2] at h
      unfold decodeFrame at h
      -- eighteen alternatives, and the error behind them
      iterate 18 refine kind_of_ite h (fun _ => rfl) fun h => ?_
      cases h

/-- The general reader, told from `read_frame`: it fails where that fails, and otherwise decodes. -/
theorem readNextFrame_of_readFrame (json : SerdeJson) (s : ReadState) :
    (∀ e s', readFrame.run s = .error e s' → ∃ s'', (readNextFrame json).run s = .error e s'')
      ∧ (∀ k payload s', readFrame.run s = .ok (k, payload) s' →
          (∀ f, decodeAny json k payload = .ok f → ∃ s'', (readNextFrame json).run s = .ok f s'')
            ∧ ∀ e, decodeAny json k payload = .error e →
              ∃ s'', (readNextFrame json).run s = .error e s'') := by
  have hagree := agree_readFrame s { s with buf := [] } rfl
  constructor
  · intro e s' h
    rw [h] at hagree
    cases hinto : readFrameInto.run { s with buf := [] } with
    | ok r t =>
        rw [hinto] at hagree
        exact hagree.elim
    | error e' t =>
        rw [hinto] at hagree
        obtain ⟨rfl, _⟩ := hagree
        exact ⟨_, readNextFrame_error (bind_error hinto)⟩
  · intro k payload s' h
    rw [h] at hagree
    cases hinto : readFrameInto.run { s with buf := [] } with
    | error e' t =>
        rw [hinto] at hagree
        exact hagree.elim
    | ok r t =>
        rw [hinto] at hagree
        obtain ⟨rfl, _⟩ := hagree
        constructor
        · intro f hf
          obtain ⟨b, hb, rfl⟩ := readNextFrameInto_ok hinto hf
          obtain ⟨sizes, hnext⟩ := readNextFrame_ok hb
          exact ⟨_, hnext⟩
        · intro e he
          exact ⟨_, readNextFrame_error (readNextFrameInto_error hinto he)⟩

/-- A typed reader returns a value exactly where the general reader returns the frame carrying it;
where it fails, so does the general reader, or the frame was of another kind. -/
theorem typed_iff (json : SerdeJson) (t : TypedReader) (s : ReadState) :
    (∀ v, (∃ s', (t.read json).run s = .ok v s')
        ↔ ∃ s', (readNextFrame json).run s = .ok (t.frame v) s')
      ∧ ∀ e s', (t.read json).run s = .error e s' →
          (∃ e' s'', (readNextFrame json).run s = .error e' s'')
            ∨ ∃ actual, e = .unexpectedKind t.kind actual := by
  obtain ⟨hfail, hread⟩ := readNextFrame_of_readFrame json s
  rw [t.read_eq json]
  cases hr : readFrame.run s with
  | error e s' =>
      obtain ⟨s'', hnext⟩ := hfail e s' hr
      rw [bind_error hr]
      refine ⟨fun v => ⟨?_, ?_⟩, fun _ _ _ => .inl ⟨e, s'', hnext⟩⟩
      · rintro ⟨_, h⟩
        cases h
      · rintro ⟨_, h⟩
        rw [hnext] at h
        cases h
  | ok r s' =>
      obtain ⟨hok, herr⟩ := hread r.1 r.2 s' hr
      rw [bind_ok hr]
      by_cases hk : r.1 = t.kind
      · -- the frame it expects: both come down to the parser
        rw [hk, TypedReader.decodeAny_kind] at hok herr
        rw [bind_ok (run_refuse (by simp [hk]) _ _)]
        cases hp : t.parse json r.2 with
        | ok v =>
            rw [hp] at hok
            obtain ⟨s'', hnext⟩ := hok (t.frame v) rfl
            refine ⟨fun w => ⟨?_, ?_⟩, nofun⟩
            · rintro ⟨_, h⟩
              cases h
              exact ⟨s'', hnext⟩
            · rintro ⟨_, h⟩
              rw [hnext] at h
              injection h with hf _
              rw [t.frame_injective hf]
              exact ⟨s', rfl⟩
        | error e =>
            rw [hp] at herr
            obtain ⟨s'', hnext⟩ := herr e rfl
            refine ⟨fun w => ⟨?_, ?_⟩, fun _ _ _ => .inl ⟨e, s'', hnext⟩⟩
            · rintro ⟨_, h⟩
              cases h
            · rintro ⟨_, h⟩
              rw [hnext] at h
              cases h
      · -- another kind: refused here, and no frame of the expected kind there
        have hrefuse : (refuse (r.1 ≠ t.kind) (.unexpectedKind t.kind r.1) : Reading Unit).run s'
            = .error (.unexpectedKind t.kind r.1) s' := by
          simp only [hk, ne_eq, not_false_eq_true, decide_true]
          rfl
        rw [bind_error hrefuse]
        refine ⟨fun w => ⟨?_, ?_⟩, ?_⟩
        · rintro ⟨_, h⟩
          cases h
        · rintro ⟨_, h⟩
          cases hd : decodeAny json r.1 r.2 with
          | ok f =>
              obtain ⟨s'', hnext⟩ := hok f hd
              rw [hnext] at h
              injection h with hf _
              have hkind := kind_of_decodeAny hd
              rw [hf, t.frame_kind] at hkind
              exact absurd hkind.symm hk
          | error e =>
              obtain ⟨s'', hnext⟩ := herr e hd
              rw [hnext] at h
              cases h
        · intro e _ h
          cases h
          exact .inr ⟨r.1, rfl⟩

/-! ## Buffers -/

/-- No buffer was given more than the limit of the kind it was for. -/
def InLimits (s : ReadState) : Prop := ∀ x ∈ s.sizes, x.2 ≤ maxLen x.1

theorem inLimits_snoc {input input' : ByteStream} {buf buf' : List UInt8}
    {sizes : List (UInt8 × Nat)} {kind : UInt8} {n : Nat} (h : InLimits ⟨input, buf, sizes⟩)
    (hn : n ≤ maxLen kind) : InLimits ⟨input', buf', sizes ++ [(kind, n)]⟩ := by
  intro x hx
  rcases List.mem_append.mp hx with hx | hx
  · exact h x hx
  · rw [List.mem_singleton.mp hx]
    exact hn

theorem le_of_validate {kind : UInt8} {n : Nat} {u : Unit}
    (h : validatePayloadLimit kind n = .ok u) : n ≤ maxLen kind := by
  by_contra hn
  rw [validatePayloadLimit, if_pos (Nat.not_le.mp hn)] at h
  cases h

theorem keeps_readExact (n : Nat) : Keeps InLimits (fun bs => bs.length = n) (readExact n) := by
  rintro ⟨input, buf, sizes⟩ hs
  by_cases h : n ≤ input.bytes.length
  · rw [readExact_enough h]
    exact ⟨by simp only [List.length_take]; omega, hs⟩
  · rw [readExact_short h]
    exact hs

theorem keeps_readU8 : Keeps InLimits (fun _ => True) readU8 :=
  (keeps_readExact 1).bind fun _ _ => keeps_pure trivial

theorem keeps_readU32 : Keeps InLimits (fun _ => True) readU32 :=
  (keeps_readExact 4).bind fun _ _ => keeps_pure trivial

theorem keeps_allocate {kind : UInt8} {n : Nat} (h : n ≤ maxLen kind) :
    Keeps InLimits (fun _ => True) (allocate kind n) :=
  fun _ hs => ⟨trivial, inLimits_snoc hs h⟩

theorem keeps_fillBuf {kind : UInt8} {n : Nat} (hn : n ≤ maxLen kind) :
    Keeps InLimits (fun r => r.2.length ≤ maxLen r.1) (fillBuf kind n) := by
  rintro ⟨input, buf, sizes⟩ hs
  by_cases h : n ≤ input.bytes.length
  · rw [fillBuf_enough h]
    exact ⟨by simp only [List.length_take]; omega, inLimits_snoc hs hn⟩
  · obtain ⟨_, hfill⟩ := fillBuf_short kind h buf sizes
    rw [hfill]
    exact inLimits_snoc hs hn

/-- The header lets only lengths within the limit through. -/
theorem keeps_readFrame : Keeps InLimits (fun r => r.2.length ≤ maxLen r.1) readFrame := by
  refine (keeps_readExact 4).bind fun _ _ => ?_
  refine (keeps_refuse InLimits _ _).bind fun _ _ => ?_
  refine keeps_readU8.bind fun _ _ => ?_
  refine (keeps_refuse InLimits _ _).bind fun _ _ => ?_
  refine keeps_readU8.bind fun kind _ => ?_
  refine (keeps_refuse InLimits _ _).bind fun _ _ => ?_
  refine keeps_readU32.bind fun length _ => ?_
  refine (keeps_ofExcept InLimits _).bind fun _ hv => ?_
  refine (keeps_allocate (le_of_validate hv)).bind fun _ _ => ?_
  refine (keeps_readExact length).bind fun payload hlen => ?_
  exact keeps_pure (hlen ▸ le_of_validate hv)

theorem keeps_readFrameInto :
    Keeps InLimits (fun r => r.2.length ≤ maxLen r.1) readFrameInto := by
  refine (keeps_readExact 4).bind fun _ _ => ?_
  refine (keeps_refuse InLimits _ _).bind fun _ _ => ?_
  refine keeps_readU8.bind fun _ _ => ?_
  refine (keeps_refuse InLimits _ _).bind fun _ _ => ?_
  refine keeps_readU8.bind fun kind _ => ?_
  refine (keeps_refuse InLimits _ _).bind fun _ _ => ?_
  refine keeps_readU32.bind fun length _ => ?_
  refine (keeps_ofExcept InLimits _).bind fun _ hv => ?_
  exact keeps_fillBuf (le_of_validate hv)

/-- A borrowed chunk is within the limit of its kind. -/
def Borrowable : TransferFrameBorrowed → Prop
  | .putChunk chunk => chunk.length ≤ maxLen kindPutChunk
  | .getChunk chunk => chunk.length ≤ maxLen kindGetChunk
  | .owned _ => True

theorem keeps_readNextFrameInto (json : SerdeJson) :
    Keeps InLimits Borrowable (readNextFrameInto json) := by
  refine keeps_readFrameInto.bind fun r hr => ?_
  obtain ⟨kind, payload⟩ := r
  dsimp only
  split_ifs with h1 h2
  · subst h1
    exact keeps_pure hr
  · subst h2
    exact keeps_pure hr
  · exact (keeps_ofExcept InLimits _).bind fun _ _ => keeps_pure trivial

theorem keeps_toOwned {b : TransferFrameBorrowed} (hb : Borrowable b) :
    Keeps InLimits (fun _ => True) (toOwned b) := by
  cases b with
  | putChunk chunk => exact (keeps_allocate hb).bind fun _ _ => keeps_pure trivial
  | getChunk chunk => exact (keeps_allocate hb).bind fun _ _ => keeps_pure trivial
  | owned frame => exact keeps_pure trivial

theorem keeps_readNextFrame (json : SerdeJson) :
    Keeps InLimits (fun _ => True) (readNextFrame json) := by
  intro s hs
  have h := (keeps_readNextFrameInto json).bind (fun _ => keeps_toOwned) { s with buf := [] } hs
  unfold readNextFrame
  rw [withOwnBuf_run]
  cases hr : EStateM.run (readNextFrameInto json >>= toOwned) { s with buf := [] } with
  | ok f s' =>
      rw [hr] at h
      exact h
  | error e s' =>
      rw [hr] at h
      exact h

theorem keeps_typed (json : SerdeJson) (t : TypedReader) :
    Keeps InLimits (fun _ => True) (t.read json) := by
  rw [t.read_eq json]
  refine keeps_readFrame.bind fun r _ => ?_
  refine (keeps_refuse InLimits _ _).bind fun _ _ => ?_
  exact (keeps_ofExcept InLimits _).weaken fun _ _ => trivial

end Irosh.Wire

namespace Irosh.Proof

open Lockstep Wire

/-- **The wire format round trips.** Frames within their limits are written in full and read back by
both readers with any buffer and anything behind them; a frame over its limit is refused before a
byte is written. -/
theorem wire_round_trip {json : SerdeJson} (hjson : json.RoundTrips) :
    (∀ frames : List TransferFrame, (∀ f ∈ frames, Fits json f) →
      ∃ bytes, (∀ out, (writeFrames json frames).run out = .ok () (out ++ bytes))
        ∧ (∀ rest e buf sizes, ∃ sizes',
            (readFrames json frames.length).run ⟨⟨bytes ++ rest, e⟩, buf, sizes⟩
              = .ok frames ⟨⟨rest, e⟩, buf, sizes'⟩)
        ∧ (∀ rest e buf sizes, ∃ buf' sizes',
            (readFramesInto json frames.length).run ⟨⟨bytes ++ rest, e⟩, buf, sizes⟩
              = .ok frames ⟨⟨rest, e⟩, buf', sizes'⟩))
      ∧ ∀ (f : TransferFrame) (p : List UInt8), f.payload json = .ok p → maxLen f.kind < p.length →
          ∀ out, (f.write json).run out = .error (.payloadTooLarge p.length) out := by
  refine ⟨fun frames hfits => frames_round_trip hjson hfits, ?_⟩
  intro f p hp hlen out
  rw [TransferFrame.write_eq hp]
  exact writeFrame_tooLarge hlen out

/-- JSON for the two payloads that are `null`, and for no other. -/
def nullJson : SerdeJson where
  toVec
    | .cwdRequest, _ => .ok [0x6e, 0x75, 0x6c, 0x6c]
    | .entryComplete, _ => .ok [0x6e, 0x75, 0x6c, 0x6c]
    | _, _ => .error "unsupported"
  fromSlice
    | .cwdRequest, bytes =>
        if bytes = [0x6e, 0x75, 0x6c, 0x6c] then .ok ⟨⟩ else .error "expected null"
    | .entryComplete, bytes =>
        if bytes = [0x6e, 0x75, 0x6c, 0x6c] then .ok ⟨⟩ else .error "expected null"
    | _, _ => .error "unsupported"

theorem nullJson_roundTrips : nullJson.RoundTrips := by
  intro p v bytes h
  cases p <;> cases h <;> rfl

/-- Three frames and a byte that is not theirs. -/
theorem wire_round_trip_three :
    ∃ bytes, bytes.length = 41
      ∧ (writeFrames nullJson [.cwdRequest ⟨⟩, .putChunk [1, 2, 3], .entryComplete ⟨⟩]).run []
        = .ok () bytes
      ∧ ∃ sizes, (readFrames nullJson 3).run ⟨⟨bytes ++ [7], .unexpectedEof⟩, [9, 9], []⟩
        = .ok [.cwdRequest ⟨⟩, .putChunk [1, 2, 3], .entryComplete ⟨⟩]
            ⟨⟨[7], .unexpectedEof⟩, [9, 9], sizes⟩ := by
  have hfits : ∀ f ∈ [TransferFrame.cwdRequest ⟨⟩, .putChunk [1, 2, 3], .entryComplete ⟨⟩],
      Fits nullJson f := by
    intro f hf
    simp only [List.mem_cons, List.not_mem_nil, or_false] at hf
    rcases hf with rfl | rfl | rfl
    · exact ⟨_, rfl, by decide⟩
    · exact ⟨_, rfl, by decide⟩
    · exact ⟨_, rfl, by decide⟩
  obtain ⟨bytes, hw, hr, _⟩ := (wire_round_trip nullJson_roundTrips).1 _ hfits
  have hout := hw []
  have hbytes : bytes.length = 41 := by
    injection hout with _ h
    rw [← List.nil_append bytes, ← h]
    rfl
  exact ⟨bytes, hbytes, by simpa using hout, hr [7] .unexpectedEof [9, 9] []⟩

/-- **All readers agree.** On every stream, `read_frame` and `read_frame_into` return the same or
fail alike, having taken the same bytes; a typed reader returns a value exactly if the general
reader returns the frame that carries it, and otherwise both fail or the kind is reported; and no
buffer is made longer than the limit of its kind. -/
theorem readers_agree (json : SerdeJson) :
    Agree SameInput Eq readFrame readFrameInto
      ∧ (∀ (t : TypedReader) (s : ReadState),
          (∀ v, (∃ s', (t.read json).run s = .ok v s')
              ↔ ∃ s', (readNextFrame json).run s = .ok (t.frame v) s')
            ∧ ∀ e s', (t.read json).run s = .error e s' →
                (∃ e' s'', (readNextFrame json).run s = .error e' s'')
                  ∨ ∃ actual, e = .unexpectedKind t.kind actual)
      ∧ Keeps InLimits (fun _ => True) (readNextFrame json)
      ∧ Keeps InLimits Borrowable (readNextFrameInto json)
      ∧ Keeps InLimits (fun r => r.2.length ≤ maxLen r.1) readFrame
      ∧ Keeps InLimits (fun r => r.2.length ≤ maxLen r.1) readFrameInto
      ∧ ∀ t : TypedReader, Keeps InLimits (fun _ => True) (t.read json) :=
  ⟨agree_readFrame, typed_iff json, keeps_readNextFrame json, keeps_readNextFrameInto json,
    keeps_readFrame, keeps_readFrameInto, keeps_typed json⟩

end Irosh.Proof
