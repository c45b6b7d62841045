import Mathlib.Algebra.GroupWithZero.Nat
import Mathlib.Data.List.TakeWhile

/-!
# Bytes as text

`String::from_utf8_lossy`: a character that is encoded correctly is decoded, and the
longest beginning of one that is not becomes U+FFFD. Text that was encoded as a whole
reads back as it was.
-/

namespace Utf8

def isCont (b : UInt8) : Bool := 0x80 ≤ b && b ≤ 0xbf

/-- Whether `b` may come after `a`, where `a` begins a character of several bytes. -/
def isSecond (a b : UInt8) : Bool :=
  if a = 0xe0 then 0xa0 ≤ b && b ≤ 0xbf
  else if a = 0xed then 0x80 ≤ b && b ≤ 0x9f
  else if a = 0xf0 then 0x90 ≤ b && b ≤ 0xbf
  else if a = 0xf4 then 0x80 ≤ b && b ≤ 0x8f
  else isCont b

/-- How many bytes come after `a` in a character. -/
def more (a : UInt8) : Nat :=
  if 0xc2 ≤ a && a ≤ 0xdf then 1
  else if 0xe0 ≤ a && a ≤ 0xef then 2
  else if 0xf0 ≤ a && a ≤ 0xf4 then 3
  else 0

/-- The bytes that do go on with the character `a` begins. -/
def tail (a : UInt8) : List UInt8 → List UInt8
  | [] => []
  | b :: rest =>
      if 0 < more a && isSecond a b then b :: (rest.take (more a - 1)).takeWhile isCont else []

def replacement : Char := '\ufffd'

/-- The character `a` begins, if the bytes that belong to it are all there. -/
def decodeOne (a : UInt8) (rest : List UInt8) : Char :=
  if a < 0x80 then Char.ofNat a.toNat
  else if 0 < more a ∧ (tail a rest).length = more a then
    Char.ofNat ((tail a rest).foldl (fun n b => n * 64 + b.toNat % 64) (a.toNat % 2 ^ (6 - more a)))
  else replacement

/-- Decoding, for as many characters as there is fuel. -/
def decodeFuel : Nat → List UInt8 → List Char
  | _, [] => []
  | 0, _ => []
  | fuel + 1, a :: rest =>
      decodeOne a rest :: decodeFuel fuel (rest.drop (tail a rest).length)

/-- `String::from_utf8_lossy`. -/
def decodeLossy (bytes : List UInt8) : List Char := decodeFuel bytes.length bytes

/-- The bytes of a text. -/
def encode (s : List Char) : List UInt8 := s.flatMap String.utf8EncodeChar

/-- `String::from_utf8`: bytes that are those of a text. -/
def fromUtf8 (bytes : List UInt8) : Option (List Char) :=
  if encode (decodeLossy bytes) = bytes then some (decodeLossy bytes) else none

@[simp] theorem encode_nil : encode [] = [] := rfl

@[simp] theorem encode_cons (c : Char) (s : List Char) :
    encode (c :: s) = String.utf8EncodeChar c ++ encode s := List.flatMap_cons

@[simp] theorem encode_append (s t : List Char) : encode (s ++ t) = encode s ++ encode t :=
  List.flatMap_append

/-! ## What is encoded is decoded again -/

theorem isCont_iff (b : UInt8) : isCont b = true ↔ 0x80 ≤ b.toNat ∧ b.toNat ≤ 0xbf := by
  simp [isCont, UInt8.le_iff_toNat_le]

theorem toNat_byte {n : Nat} (h : n < 256) : (UInt8.ofNat n).toNat = n :=
  UInt8.toNat_ofNat_of_lt' h

theorem isCont_byte (n : Nat) : isCont (UInt8.ofNat (n % 64 + 128)) = true := by
  rw [isCont_iff, toNat_byte (by omega)]
  omega

theorem more_one {a : UInt8} (h : 0xc2 ≤ a.toNat) (h' : a.toNat ≤ 0xdf) : more a = 1 := by
  simp only [more, Bool.and_eq_true, decide_eq_true_eq, UInt8.le_iff_toNat_le]
  exact if_pos ⟨h, h'⟩

theorem more_two {a : UInt8} (h : 0xe0 ≤ a.toNat) (h' : a.toNat ≤ 0xef) : more a = 2 := by
  simp only [more, Bool.and_eq_true, decide_eq_true_eq, UInt8.le_iff_toNat_le]
  rw [if_neg, if_pos ⟨h, h'⟩]
  show ¬ (0xc2 ≤ a.toNat ∧ a.toNat ≤ 0xdf)
  omega

theorem more_three {a : UInt8} (h : 0xf0 ≤ a.toNat) (h' : a.toNat ≤ 0xf4) : more a = 3 := by
  simp only [more, Bool.and_eq_true, decide_eq_true_eq, UInt8.le_iff_toNat_le]
  rw [if_neg, if_neg, if_pos ⟨h, h'⟩]
  · show ¬ (0xe0 ≤ a.toNat ∧ a.toNat ≤ 0xef)
    omega
  · show ¬ (0xc2 ≤ a.toNat ∧ a.toNat ≤ 0xdf)
    omega

theorem more_ascii {a : UInt8} (h : a.toNat < 0x80) : more a = 0 := by
  simp only [more, Bool.and_eq_true, decide_eq_true_eq, UInt8.le_iff_toNat_le]
  rw [if_neg, if_neg, if_neg]
  · show ¬ (0xf0 ≤ a.toNat ∧ a.toNat ≤ 0xf4)
    omega
  · show ¬ (0xe0 ≤ a.toNat ∧ a.toNat ≤ 0xef)
    omega
  · show ¬ (0xc2 ≤ a.toNat ∧ a.toNat ≤ 0xdf)
    omega

/-- A second byte may be any that continues, but for the shortest and the longest characters. -/
theorem isSecond_iff (a b : UInt8) : isSecond a b = true ↔
    0x80 ≤ b.toNat ∧ b.toNat ≤ 0xbf
      ∧ (a.toNat = 0xe0 → 0xa0 ≤ b.toNat) ∧ (a.toNat = 0xed → b.toNat ≤ 0x9f)
      ∧ (a.toNat = 0xf0 → 0x90 ≤ b.toNat) ∧ (a.toNat = 0xf4 → b.toNat ≤ 0x8f) := by
  have hiff (n : Nat) (hn : n < 256) : a = UInt8.ofNat n ↔ a.toNat = n := by
    rw [← UInt8.toNat_inj, toNat_byte hn]
  have hE0 : a = 0xe0 ↔ a.toNat = 0xe0 := hiff 0xe0 (by omega)
  have hED : a = 0xed ↔ a.toNat = 0xed := hiff 0xed (by omega)
  have hF0 : a = 0xf0 ↔ a.toNat = 0xf0 := hiff 0xf0 (by omega)
  have hF4 : a = 0xf4 ↔ a.toNat = 0xf4 := hiff 0xf4 (by omega)
  simp only [isSecond, hE0, hED, hF0, hF4]
  split
  · simp [UInt8.le_iff_toNat_le]
    omega
  · split
    · simp [UInt8.le_iff_toNat_le]
      omega
    · split
      · simp [UInt8.le_iff_toNat_le]
        omega
      · split
        · simp [UInt8.le_iff_toNat_le]
          omega
        · rw [isCont_iff]
          omega

/-- The bytes that go on with a character, when they are all there. -/
theorem tail_append {a b : UInt8} {cont : List UInt8} (hmore : more a = (b :: cont).length)
    (hb : isSecond a b = true) (hcont : ∀ x ∈ cont, isCont x = true) (rest : List UInt8) :
    tail a (b :: cont ++ rest) = b :: cont := by
  have hpos : 0 < more a := by
    rw [hmore]
    exact Nat.succ_pos _
  have htake : (cont ++ rest).take (more a - 1) = cont := by
    rw [hmore]
    exact List.take_left' rfl
  rw [List.cons_append, tail, hb, htake, List.takeWhile_eq_self_iff.mpr hcont]
  simp [hpos]

theorem decodeOne_append {a b : UInt8} {cont : List UInt8} (hmore : more a = (b :: cont).length)
    (hb : isSecond a b = true) (hcont : ∀ x ∈ cont, isCont x = true) (ha : 0x80 ≤ a.toNat)
    (rest : List UInt8) :
    decodeOne a (b :: cont ++ rest)
      = Char.ofNat ((b :: cont).foldl (fun n b => n * 64 + b.toNat % 64)
          (a.toNat % 2 ^ (6 - (b :: cont).length))) := by
  have hnot : ¬ a < 0x80 := by
    rw [UInt8.lt_iff_toNat_lt]
    exact Nat.not_lt.mpr ha
  rw [decodeOne, if_neg hnot, tail_append hmore hb hcont, hmore, if_pos ⟨Nat.succ_pos _, rfl⟩]

/-- The bytes of one character, whatever comes behind them. -/
theorem decodeOne_encode (c : Char) (rest : List UInt8) :
    ∃ a cont, String.utf8EncodeChar c = a :: cont ∧ tail a (cont ++ rest) = cont
      ∧ decodeOne a (cont ++ rest) = c := by
  have hvalid : c.toNat < 0xd800 ∨ 0xdfff < c.toNat ∧ c.toNat < 0x110000 := c.valid
  have hback : Char.ofNat c.toNat = c := Char.ofNat_toNat c
  have hval : c.val.toNat = c.toNat := rfl
  generalize c.toNat = v at hvalid hback hval
  unfold String.utf8EncodeChar
  simp only [hval]
  -- the cases are the numbers of bytes
  split
  · rename_i h1
    have ha : (UInt8.ofNat v).toNat = v := toNat_byte (by omega)
    refine ⟨_, [], rfl, ?_, ?_⟩
    · have hmore : more (UInt8.ofNat v) = 0 := more_ascii (by omega)
      cases rest with
      | nil => rfl
      | cons b rest => simp [tail, hmore]
    · have hlt : UInt8.ofNat v < 0x80 := by
        rw [UInt8.lt_iff_toNat_lt, ha]
        show v < 0x80
        omega
      rw [decodeOne, if_pos hlt, ha, hback]
  · have hlast : (UInt8.ofNat (v % 64 + 128)).toNat = v % 64 + 128 := toNat_byte (by omega)
    have hmid : (UInt8.ofNat (v / 64 % 64 + 128)).toNat = v / 64 % 64 + 128 := toNat_byte (by omega)
    split
    · rename_i h1 h2
      have ha : (UInt8.ofNat (v / 64 % 32 + 192)).toNat = v / 64 + 192 := by
        rw [toNat_byte (by omega)]
        omega
      have hmore : more (UInt8.ofNat (v / 64 % 32 + 192)) = 1 := more_one (by omega) (by omega)
      have hsecond : isSecond (UInt8.ofNat (v / 64 % 32 + 192)) (UInt8.ofNat (v % 64 + 128)) = true := by
        rw [isSecond_iff, ha, hlast]
        omega
      refine ⟨_, _, rfl, tail_append hmore hsecond (fun x hx => absurd hx List.not_mem_nil) rest, ?_⟩
      rw [decodeOne_append hmore hsecond (fun x hx => absurd hx List.not_mem_nil) (by omega)]
      simp only [List.foldl_cons, List.foldl_nil, List.length_cons, List.length_nil, ha, hlast]
      rw [← hback]
      congr 1
      omega
    · split
      · rename_i h1 h2 h3
        have ha : (UInt8.ofNat (v / 4096 % 16 + 224)).toNat = v / 4096 + 224 := by
          rw [toNat_byte (by omega)]
          omega
        have hmore : more (UInt8.ofNat (v / 4096 % 16 + 224)) = 2 := more_two (by omega) (by omega)
        have hsecond : isSecond (UInt8.ofNat (v / 4096 % 16 + 224)) (UInt8.ofNat (v / 64 % 64 + 128))
            = true := by
          rw [isSecond_iff, ha, hmid]
          omega
        have hcont : ∀ x ∈ [UInt8.ofNat (v % 64 + 128)], isCont x = true := by
          intro x hx
          rw [List.mem_singleton.mp hx]
          exact isCont_byte v
        refine ⟨_, _, rfl, tail_append hmore hsecond hcont rest, ?_⟩
        rw [decodeOne_append hmore hsecond hcont (by omega)]
        simp only [List.foldl_cons, List.foldl_nil, List.length_cons, List.length_nil, ha, hmid, hlast]
        rw [← hback]
        congr 1
        omega
      · rename_i h1 h2 h3
        have ha : (UInt8.ofNat (v / 262144 % 8 + 240)).toNat = v / 262144 + 240 := by
          rw [toNat_byte (by omega)]
          omega
        have hhigh : (UInt8.ofNat (v / 4096 % 64 + 128)).toNat = v / 4096 % 64 + 128 :=
          toNat_byte (by omega)
        have hmore : more (UInt8.ofNat (v / 262144 % 8 + 240)) = 3 := more_three (by omega) (by omega)
        have hsecond : isSecond (UInt8.ofNat (v / 262144 % 8 + 240))
            (UInt8.ofNat (v / 4096 % 64 + 128)) = true := by
          rw [isSecond_iff, ha, hhigh]
          omega
        have hcont : ∀ x ∈ [UInt8.ofNat (v / 64 % 64 + 128), UInt8.ofNat (v % 64 + 128)],
            isCont x = true := by
          intro x hx
          rcases List.mem_cons.mp hx with rfl | hx
          · exact isCont_byte _
          · rw [List.mem_singleton.mp hx]
            exact isCont_byte _
        refine ⟨_, _, rfl, tail_append hmore hsecond hcont rest, ?_⟩
        rw [decodeOne_append hmore hsecond hcont (by omega)]
        simp only [List.foldl_cons, List.foldl_nil, List.length_cons, List.length_nil, ha, hhigh, hmid,
          hlast]
        rw [← hback]
        congr 1
        omega

theorem decodeFuel_encode (s : List Char) {fuel : Nat} (h : s.length ≤ fuel) :
    decodeFuel fuel (encode s) = s := by
  induction s generalizing fuel with
  | nil => cases fuel <;> rfl
  | cons c s ih =>
      obtain ⟨a, cont, henc, htail, hone⟩ := decodeOne_encode c (encode s)
      cases fuel with
      | zero => exact absurd h (Nat.not_succ_le_zero _)
      | succ fuel =>
          rw [encode_cons, henc, List.cons_append, decodeFuel, htail, hone, List.drop_left,
            ih (Nat.le_of_succ_le_succ h)]

theorem length_le_encode (s : List Char) : s.length ≤ (encode s).length := by
  induction s with
  | nil => exact Nat.le_refl 0
  | cons c s ih =>
      have hpos : 0 < (String.utf8EncodeChar c).length :=
        List.length_pos_iff.mpr String.utf8EncodeChar_ne_nil
      rw [encode_cons, List.length_append, List.length_cons]
      omega

theorem length_encode_le (s : List Char) : (encode s).length ≤ 4 * s.length := by
  induction s with
  | nil => exact Nat.le_refl 0
  | cons c s ih =>
      have hchar : (String.utf8EncodeChar c).length ≤ 4 := by
        rw [String.length_utf8EncodeChar]
        exact c.utf8Size_le_four
      rw [encode_cons, List.length_append, List.length_cons]
      omega

/-- **A text reads back from its bytes.** -/
theorem decodeLossy_encode (s : List Char) : decodeLossy (encode s) = s :=
  decodeFuel_encode s (length_le_encode s)

@[simp] theorem fromUtf8_encode (s : List Char) : fromUtf8 (encode s) = some s := by
  rw [fromUtf8, decodeLossy_encode, if_pos rfl]

/-- No byte of a character is zero but for that of the character zero. -/
theorem zero_mem_utf8EncodeChar {c : Char} (h : (0 : UInt8) ∈ String.utf8EncodeChar c) :
    c = '\x00' := by
  have hval : c.val.toNat = c.toNat := rfl
  have hback : Char.ofNat c.toNat = c := Char.ofNat_toNat c
  have hzero (n : Nat) (hn : n < 256) (he : (0 : UInt8) = UInt8.ofNat n) : n = 0 := by
    have := congrArg UInt8.toNat he
    rw [toNat_byte hn] at this
    exact this.symm
  unfold String.utf8EncodeChar at h
  simp only [hval] at h
  split at h
  · have hv := hzero _ (by omega) (List.mem_singleton.mp h)
    rw [← hback, hv]
  · exfalso
    split at h
    · simp only [List.mem_cons, List.not_mem_nil, or_false] at h
      rcases h with he | he <;>
      · have := hzero _ (by omega) he
        omega
    · split at h
      · simp only [List.mem_cons, List.not_mem_nil, or_false] at h
        rcases h with he | he | he <;>
        · have := hzero _ (by omega) he
          omega
      · simp only [List.mem_cons, List.not_mem_nil, or_false] at h
        rcases h with he | he | he | he <;>
        · have := hzero _ (by omega) he
          omega

theorem zero_notMem_encode {s : List Char} (h : '\x00' ∉ s) : (0 : UInt8) ∉ encode s := by
  intro hm
  obtain ⟨c, hc, hz⟩ := List.mem_flatMap.mp hm
  rw [zero_mem_utf8EncodeChar hz] at hc
  exact h hc

end Utf8
