import Mathlib.Algebra.Order.BigOperators.Group.List
import Irosh.Transport.Metadata

/-!
# What becomes of peer metadata

Filtering works on characters, cutting on bytes. If byte 255 of the filtered text lies
inside a character the cut is a panic, and the text is the peer's choice. That is the only
thing that can go wrong: otherwise the fields are clean, cleaning them again changes
nothing, and what a node writes of them is read back.
-/

namespace Irosh.Metadata

open BigEndian Lockstep Wire

/-! ## Cutting text -/

@[simp] theorem byteLen_nil : byteLen [] = 0 := rfl

@[simp] theorem byteLen_cons (c : Char) (s : List Char) :
    byteLen (c :: s) = c.utf8Size + byteLen s := rfl

@[simp] theorem byteLen_append (s t : List Char) : byteLen (s ++ t) = byteLen s + byteLen t := by
  simp [byteLen]

/-- A character lies on both sides of byte `n`. -/
def StraddledAt (n : Nat) (s : List Char) : Prop :=
  ∃ front c back, s = front ++ c :: back ∧ byteLen front < n ∧ n < byteLen front + c.utf8Size

theorem not_straddledAt_zero (s : List Char) : ¬ StraddledAt 0 s := by
  rintro ⟨front, c, back, -, hlt, -⟩
  exact absurd hlt (Nat.not_lt_zero _)

/-- A text begins with `n` bytes of whole characters, or is too short, or is straddled there. -/
theorem takeBytes_cases (n : Nat) (s : List Char) :
    (∃ t back, takeBytes n s = some t ∧ s = t ++ back ∧ byteLen t = n ∧ ¬ StraddledAt n s)
      ∨ (takeBytes n s = none ∧ byteLen s < n ∧ ¬ StraddledAt n s)
      ∨ (takeBytes n s = none ∧ n < byteLen s ∧ StraddledAt n s) := by
  induction s generalizing n with
  | nil =>
      have hno : ∀ n, ¬ StraddledAt n [] := by
        rintro n ⟨front, c, back, heq, -⟩
        simp at heq
      cases n with
      | zero => exact .inl ⟨[], [], rfl, rfl, rfl, hno 0⟩
      | succ n => exact .inr (.inl ⟨rfl, Nat.succ_pos n, hno _⟩)
  | cons c s ih =>
      cases n with
      | zero => exact .inl ⟨[], c :: s, rfl, rfl, rfl, not_straddledAt_zero _⟩
      | succ n =>
          have hpos := c.utf8Size_pos
          by_cases hc : c.utf8Size ≤ n + 1
          · -- the character lies before the cut, so whatever straddles comes after it
            have hiff : StraddledAt (n + 1) (c :: s) ↔ StraddledAt (n + 1 - c.utf8Size) s := by
              constructor
              · rintro ⟨front, d, back, heq, hlt, hgt⟩
                cases front with
                | nil =>
                    cases heq
                    simp only [byteLen_nil] at hgt
                    omega
                | cons e front =>
                    cases heq
                    simp only [byteLen_cons] at hlt hgt
                    exact ⟨front, d, back, rfl, by omega, by omega⟩
              · rintro ⟨front, d, back, heq, hlt, hgt⟩
                refine ⟨c :: front, d, back, by rw [heq, List.cons_append], ?_, ?_⟩
                all_goals
                  rw [byteLen_cons]
                  omega
            have htake : takeBytes (n + 1) (c :: s)
                = (takeBytes (n + 1 - c.utf8Size) s).map (c :: ·) := by rw [takeBytes, if_pos hc]
            rw [htake, hiff, byteLen_cons]
            rcases ih (n + 1 - c.utf8Size) with ⟨t, back, ht, hs, hlen, hno⟩ | ⟨ht, hlen,
              hno⟩ | ⟨ht, hlen, hin⟩
            · refine .inl ⟨c :: t, back, by rw [ht]; rfl, by rw [hs, List.cons_append], ?_, hno⟩
              rw [byteLen_cons]
              omega
            · exact .inr (.inl ⟨by rw [ht]; rfl, by omega, hno⟩)
            · exact .inr (.inr ⟨by rw [ht]; rfl, by omega, hin⟩)
          · refine .inr (.inr ⟨by rw [takeBytes, if_neg hc], ?_, [], c, s, rfl, Nat.succ_pos n, ?_⟩)
            · rw [byteLen_cons]
              omega
            · rw [byteLen_nil]
              omega

/-- `truncate` panics on straddled text, and only there. -/
theorem truncate_cases (n : Nat) (s : List Char) :
    (∃ t back, truncate n s = some t ∧ s = t ++ back ∧ byteLen t ≤ n ∧ (back = [] ∨ byteLen t = n)
        ∧ ¬ StraddledAt n s)
      ∨ (truncate n s = none ∧ StraddledAt n s) := by
  unfold truncate
  rcases takeBytes_cases n s with ⟨t, back, ht, hs, hlen, hno⟩ | ⟨-, hlen, hno⟩ | ⟨ht, hlen, hin⟩
  · have hle : n ≤ byteLen s := by
      rw [hs, byteLen_append]
      omega
    rw [if_pos hle, ht]
    exact .inl ⟨t, back, rfl, hs, by omega, .inr hlen, hno⟩
  · rw [if_neg (by omega)]
    exact .inl ⟨s, [], rfl, (List.append_nil s).symm, by omega, .inl rfl, hno⟩
  · rw [if_pos (by omega), ht]
    exact .inr ⟨rfl, hin⟩

theorem truncate_of_le {n : Nat} {s : List Char} (h : byteLen s ≤ n) : truncate n s = some s := by
  rcases truncate_cases n s with ⟨t, back, ht, hs, -, hend, -⟩ | ⟨-, front, c, back, hs, -, hgt⟩
  · cases back with
    | nil => rw [ht, hs, List.append_nil]
    | cons c back =>
        have hpos := c.utf8Size_pos
        rcases hend with hnil | hlen
        · cases hnil
        · rw [hs, byteLen_append, byteLen_cons] at h
          omega
  · rw [hs, byteLen_append, byteLen_cons] at h
    omega

/-! ## Clean fields -/

/-- At most 255 bytes, and no control character but the tab. -/
structure CleanField (s : List Char) : Prop where
  short : byteLen s ≤ 255
  plain : ∀ c ∈ s, c.toNat < 0x20 → c = '\t'

/-- Byte 255 of the filtered text lies inside a character. -/
def CutInside (s : List Char) : Prop := StraddledAt maxFieldLen (s.filter keptChar)

theorem keptChar_iff {c : Char} : keptChar c = true ↔ (c.toNat < 0x20 → c = '\t') := by
  have hspace : ' ' ≤ c ↔ 0x20 ≤ c.toNat := Iff.rfl
  rw [keptChar, Bool.or_eq_true, decide_eq_true_iff, beq_iff_eq, hspace]
  constructor
  · rintro (hle | htab) hlt
    · omega
    · exact htab
  · intro h
    rcases Nat.lt_or_ge c.toNat 0x20 with hlt | hge
    · exact .inr (h hlt)
    · exact .inl hge

theorem sanitizeField_cases (s : List Char) :
    (∃ t, sanitizeField s = some t ∧ CleanField t ∧ ¬ CutInside s)
      ∨ (sanitizeField s = none ∧ CutInside s) := by
  unfold sanitizeField CutInside
  rcases truncate_cases maxFieldLen (s.filter keptChar) with ⟨t, back, ht, hs, hlen, -, hno⟩ | hpanic
  · refine .inl ⟨t, ht, ⟨hlen, fun c hc => ?_⟩, hno⟩
    have hmem : c ∈ s.filter keptChar := by
      rw [hs]
      exact List.mem_append_left _ hc
    exact keptChar_iff.mp (List.mem_filter.mp hmem).2
  · exact .inr hpanic

/-- A clean field is left as it is. -/
theorem sanitizeField_clean {s : List Char} (h : CleanField s) : sanitizeField s = some s := by
  have hfilter : s.filter keptChar = s :=
    List.filter_eq_self.mpr fun c hc => keptChar_iff.mpr (h.plain c hc)
  rw [sanitizeField, hfilter]
  exact truncate_of_le h.short

namespace PeerMetadata

/-- Every field is clean. -/
structure Clean (m : PeerMetadata) : Prop where
  hostname : CleanField m.hostname
  user : CleanField m.user
  os : CleanField m.os

/-- Some field is cut inside a character. -/
def IsCutInside (m : PeerMetadata) : Prop :=
  CutInside m.hostname ∨ CutInside m.user ∨ CutInside m.os

theorem new_cases (hostname user os : List Char) :
    (∃ m, new hostname user os = some m ∧ m.Clean ∧ ¬ IsCutInside ⟨hostname, user, os⟩)
      ∨ (new hostname user os = none ∧ IsCutInside ⟨hostname, user, os⟩) := by
  unfold new
  rcases sanitizeField_cases hostname with ⟨h', hh, hhc, hhn⟩ | ⟨hh, hhc⟩
  · rcases sanitizeField_cases user with ⟨u', hu, huc, hun⟩ | ⟨hu, huc⟩
    · rcases sanitizeField_cases os with ⟨o', ho, hoc, hon⟩ | ⟨ho, hoc⟩
      · rw [hh, hu, ho]
        refine .inl ⟨⟨h', u', o'⟩, rfl, ⟨hhc, huc, hoc⟩, ?_⟩
        rintro (hin | hin | hin)
        · exact hhn hin
        · exact hun hin
        · exact hon hin
      · rw [hh, hu, ho]
        exact .inr ⟨rfl, .inr (.inr hoc)⟩
    · rw [hh, hu]
      exact .inr ⟨rfl, .inr (.inl huc)⟩
  · rw [hh]
    exact .inr ⟨rfl, .inl hhc⟩

theorem clean_of_new {hostname user os : List Char} {m : PeerMetadata}
    (h : new hostname user os = some m) : m.Clean := by
  rcases new_cases hostname user os with ⟨m', hm', hclean, -⟩ | ⟨hnone, -⟩
  · cases hm'.symm.trans h
    exact hclean
  · cases hnone.symm.trans h

theorem new_of_clean {m : PeerMetadata} (h : m.Clean) : new m.hostname m.user m.os = some m := by
  rw [new, sanitizeField_clean h.hostname, sanitizeField_clean h.user, sanitizeField_clean h.os]
  rfl

end PeerMetadata

/-! ## On the wire -/

/-- A frame on the wire. -/
def encodedFrame (kind : UInt8) (payload : List UInt8) : List UInt8 :=
  magic ++ ([version] ++ ([kind] ++ (beEncode 4 payload.length ++ payload)))

theorem writeFrame_ok {kind : UInt8} {payload : List UInt8} (h : payload.length ≤ maxMetadataBytes)
    (out : List UInt8) : (writeFrame kind payload).run out = .ok () (out ++ encodedFrame kind payload) := by
  have hlimit : decide (maxMetadataBytes < payload.length) = false :=
    decide_eq_false (Nat.not_lt.mpr h)
  unfold writeFrame
  rw [bind_ok (run_refuse hlimit _ _)]
  simp only [encodedFrame, ← List.append_assoc]
  rfl

theorem readExact_append {n : Nat} {bs : List UInt8} (h : bs.length = n) (rest : List UInt8)
    (e : IoError) : (readExact n).run ⟨bs ++ rest, e⟩ = .ok bs ⟨rest, e⟩ := by
  subst h
  have hle : bs.length ≤ (bs ++ rest).length := by simp
  show (if bs.length ≤ (bs ++ rest).length then _ else _) = _
  rw [if_pos hle]
  simp

theorem readU8_cons (b : UInt8) (rest : List UInt8) (e : IoError) :
    readU8.run ⟨[b] ++ rest, e⟩ = .ok b ⟨rest, e⟩ := by
  unfold readU8
  rw [bind_ok (readExact_append List.length_singleton rest e)]
  rfl

theorem readU32_append {n : Nat} (h : n < 256 ^ 4) (rest : List UInt8) (e : IoError) :
    readU32.run ⟨beEncode 4 n ++ rest, e⟩ = .ok n ⟨rest, e⟩ := by
  unfold readU32
  rw [bind_ok (readExact_append (length_beEncode 4 n) rest e), beDecode_beEncode h]
  rfl

/-- `read_frame` takes one metadata frame off the stream. -/
theorem readFrame_encoded {kind : UInt8} {payload : List UInt8}
    (hkind : kind = kindPeerMetadata ∨ kind = kindMetadataRequest)
    (h : payload.length ≤ maxMetadataBytes) (rest : List UInt8) (e : IoError) :
    readFrame.run ⟨encodedFrame kind payload ++ rest, e⟩ = .ok (kind, payload) ⟨rest, e⟩ := by
  have hknown : (kind ≠ kindPeerMetadata && kind ≠ kindMetadataRequest) = false := by
    rcases hkind with rfl | rfl <;> decide
  have hlimit : decide (maxMetadataBytes < payload.length) = false :=
    decide_eq_false (Nat.not_lt.mpr h)
  have hlt : payload.length < 256 ^ 4 := Nat.lt_of_le_of_lt h (by decide)
  unfold readFrame
  simp only [encodedFrame, List.append_assoc]
  rw [bind_ok (@readExact_append 4 magic rfl _ e), bind_ok (run_refuse (by decide) _ _),
    bind_ok (readU8_cons version _ e), bind_ok (run_refuse (by decide) _ _),
    bind_ok (readU8_cons kind _ e), bind_ok (run_refuse hknown _ _),
    bind_ok (readU32_append hlt _ e), bind_ok (run_refuse hlimit _ _),
    bind_ok (readExact_append rfl rest e)]
  rfl

/-- `read_metadata` on a frame that holds metadata. -/
theorem readMetadata_encoded {fromSlice : FromSlice} {payload : List UInt8} {raw : PeerMetadata}
    (h : payload.length ≤ maxMetadataBytes) (hraw : fromSlice payload = .ok raw)
    (rest : List UInt8) (e : IoError) :
    (readMetadata fromSlice).run ⟨encodedFrame kindPeerMetadata payload ++ rest, e⟩
      = match PeerMetadata.new raw.hostname raw.user raw.os with
        | some m => .ok m ⟨rest, e⟩
        | none => .error .panicked ⟨rest, e⟩ := by
  unfold readMetadata
  rw [bind_ok (readFrame_encoded (.inl rfl) h rest e)]
  dsimp only
  have hparse : (ofExcept ((fromSlice payload).mapError fun e => .error (.json e)) :
      Reading PeerMetadata).run ⟨rest, e⟩ = .ok raw ⟨rest, e⟩ := by
    rw [hraw]
    rfl
  rw [bind_ok (run_refuse (by decide) _ _), bind_ok hparse]
  cases PeerMetadata.new raw.hostname raw.user raw.os with
  | some m => rfl
  | none => rfl

/-- A request that is written is read back, and nothing behind it. -/
theorem metadataRequest_round_trip (rest : List UInt8) (e : IoError) :
    ∃ bytes, writeMetadataRequest.run [] = .ok () bytes
      ∧ readMetadataRequest.run ⟨bytes ++ rest, e⟩ = .ok () ⟨rest, e⟩ := by
  refine ⟨encodedFrame kindMetadataRequest [], writeFrame_ok (Nat.zero_le _) [], ?_⟩
  unfold readMetadataRequest
  rw [bind_ok (readFrame_encoded (.inr rfl) (Nat.zero_le _) rest e)]
  dsimp only
  rw [bind_ok (run_refuse (by decide) _ _)]
  exact run_refuse (by decide) _ _

/-! ## What is written fits into a frame -/

theorem length_escapeChar (c : Char) : (escapeChar c).length ≤ 6 * c.utf8Size := by
  have hpos := c.utf8Size_pos
  unfold escapeChar
  repeat' split
  all_goals try simp only [List.length_cons, List.length_nil]
  all_goals try omega
  rw [String.length_utf8EncodeChar]
  omega

theorem length_jsonString (s : List Char) : (jsonString s).length ≤ 2 + 6 * byteLen s := by
  have hbody : (s.flatMap escapeChar).length ≤ 6 * byteLen s := by
    induction s with
    | nil => exact Nat.le_refl _
    | cons c s ih =>
        have hc := length_escapeChar c
        rw [List.flatMap_cons, List.length_append, byteLen_cons]
        omega
  simp only [jsonString, List.length_append, List.length_singleton]
  omega

theorem PeerMetadata.Clean.length_toVec {m : PeerMetadata} (h : m.Clean) :
    m.toVec.length ≤ maxMetadataBytes := by
  have hhost := length_jsonString m.hostname
  have huser := length_jsonString m.user
  have hos := length_jsonString m.os
  have hshort := h.hostname.short
  have hshort' := h.user.short
  have hshort'' := h.os.short
  have htexts : (ascii "\x7b\"hostname\":").length = 12 ∧ (ascii ",\"user\":").length = 8
      ∧ (ascii ",\"os\":").length = 6 ∧ (ascii "\x7d").length = 1 := by
    refine ⟨rfl, rfl, rfl, rfl⟩
  obtain ⟨h1, h2, h3, h4⟩ := htexts
  simp only [PeerMetadata.toVec, List.length_append, h1, h2, h3, h4, maxMetadataBytes]
  omega

end Irosh.Metadata

namespace Irosh.Proof

open Metadata Wire

/-- Metadata is read, and clean, exactly if no field is cut inside a character. Clean metadata stays as
it is, and what is written of it is read back, to the last byte. -/
theorem metadata_sanitised_iff (fromSlice : FromSlice) :
    (∀ payload raw rest ending, payload.length ≤ maxMetadataBytes → fromSlice payload = .ok raw →
      ((∃ m, (readMetadata fromSlice).run ⟨encodedFrame kindPeerMetadata payload ++ rest, ending⟩
          = .ok m ⟨rest, ending⟩ ∧ m.Clean)
        ↔ ¬ raw.IsCutInside))
    ∧ (∀ hostname user os m, PeerMetadata.new hostname user os = some m →
        PeerMetadata.new m.hostname m.user m.os = some m)
    ∧ ∀ hostname user os m, PeerMetadata.new hostname user os = some m → fromSlice m.toVec = .ok m →
        ∀ out, ∃ bytes, (writeMetadata m).run out = .ok () (out ++ bytes)
          ∧ ∀ rest ending, (readMetadata fromSlice).run ⟨bytes ++ rest, ending⟩
            = .ok m ⟨rest, ending⟩ := by
  refine ⟨?_, ?_, ?_⟩
  · intro payload raw rest ending hlen hraw
    rw [readMetadata_encoded hlen hraw]
    rcases PeerMetadata.new_cases raw.hostname raw.user raw.os with ⟨m, hm, hclean, hno⟩ | ⟨hm, hin⟩
    · rw [hm]
      exact ⟨fun _ => hno, fun _ => ⟨m, rfl, hclean⟩⟩
    · rw [hm]
      refine ⟨fun ⟨m, hread, _⟩ => ?_, fun hno => absurd hin hno⟩
      cases hread
  · intro hostname user os m hm
    exact PeerMetadata.new_of_clean (PeerMetadata.clean_of_new hm)
  · intro hostname user os m hm hjson out
    have hclean := PeerMetadata.clean_of_new hm
    refine ⟨_, writeFrame_ok hclean.length_toVec out, fun rest ending => ?_⟩
    rw [readMetadata_encoded hclean.length_toVec hjson, PeerMetadata.new_of_clean hclean]

/-- `serde_json`, where it has one text to read. -/
def readsBack (m : PeerMetadata) : FromSlice := fun bytes =>
  if bytes = m.toVec then .ok m else .error "expected value at line 1 column 1"

def shortMetadata : PeerMetadata := ⟨['a'], ['é', '\t'], []⟩

theorem metadata_sanitised_short :
    PeerMetadata.new ['a'] ['é', '\n', '\t'] [] = some shortMetadata
      ∧ ∃ bytes, (writeMetadata shortMetadata).run [] = .ok () ([] ++ bytes)
        ∧ ∀ rest ending, (readMetadata (readsBack shortMetadata)).run ⟨bytes ++ rest, ending⟩
          = .ok shortMetadata ⟨rest, ending⟩ := by
  have hnew : PeerMetadata.new ['a'] ['é', '\n', '\t'] [] = some shortMetadata := by decide
  exact ⟨hnew, (metadata_sanitised_iff (readsBack shortMetadata)).2.2 _ _ _ _ hnew (if_pos rfl) []⟩

/-- 254 bytes, then a character of two. -/
def longName : List Char := List.replicate 254 'a' ++ ['é']

/-- A host name that no node can read. -/
theorem metadata_panics :
    ∃ payload, payload.length ≤ maxMetadataBytes
      ∧ readsBack ⟨longName, [], []⟩ payload = .ok ⟨longName, [], []⟩
      ∧ ∀ rest ending, (readMetadata (readsBack ⟨longName, [], []⟩)).run
        ⟨encodedFrame kindPeerMetadata payload ++ rest, ending⟩ = .error .panicked ⟨rest, ending⟩ := by
  have hlen : (PeerMetadata.toVec ⟨longName, [], []⟩).length ≤ maxMetadataBytes := by decide +kernel
  have hraw : readsBack ⟨longName, [], []⟩ (PeerMetadata.toVec ⟨longName, [], []⟩)
      = .ok ⟨longName, [], []⟩ := if_pos rfl
  refine ⟨_, hlen, hraw, fun rest ending => ?_⟩
  have hnew : PeerMetadata.new longName [] [] = none := by decide +kernel
  rw [readMetadata_encoded hlen hraw, hnew]

end Irosh.Proof
