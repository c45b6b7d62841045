import Mathlib.Data.List.Perm.Basic
import Irosh.Proof.RecursiveUpload
import Irosh.Proof.Wire
import Irosh.Transfer.Listing

/-!
# The two listings agree

Whether the server walks a tree itself or reads what `find` prints of it, the client is
told of the same entries. `find` separates its fields by NULs, which no name contains, so
what was printed is read back field by field; `%s` and `%m` are numbers, and are read as
the numbers they were.

The headers differ in two ways that do not matter: a directory has a length of its own in
one of them, and permissions have three more bits in the other.
-/

namespace Irosh

open UnixPath Wire FileTree

namespace Serve

/-! ## Reading back what `find` has printed -/

/-- A field and the NUL behind it. -/
theorem readUntil_field {bytes : List UInt8} (h : (0 : UInt8) ∉ bytes) (rest : List UInt8) :
    readUntil false (bytes ++ 0 :: rest) = some (bytes ++ [0], rest) := by
  have hall : ∀ b ∈ bytes, (decide (b ≠ 0)) = true := by
    intro b hb
    refine decide_eq_true fun hzero => ?_
    rw [hzero] at hb
    exact h hb
  have hdrop : (bytes ++ 0 :: rest).dropWhile (· ≠ 0) = 0 :: rest := by
    rw [List.dropWhile_append_of_pos hall]
    rfl
  have htake : (bytes ++ 0 :: rest).takeWhile (· ≠ 0) = bytes := by
    rw [List.takeWhile_append_of_pos hall]
    exact List.append_nil bytes
  rw [readUntil, hdrop, htake]

/-- A field as far as there are bytes, and what is left behind it. It loses its last byte, which is the
NUL if the field is whole. -/
theorem readUntil_cut {f : List UInt8} (hf : (0 : UInt8) ∉ f) (rest : List UInt8) (n : Nat) :
    ∃ buf, readUntil false ((f ++ 0 :: rest).take n) = some (buf, rest.take (n - (f.length + 1)))
      ∧ field buf = Utf8.decodeLossy (f.take (n - 1)) ∧ (0 < n → buf ≠ []) := by
  by_cases hn : n ≤ f.length
  · refine ⟨f.take n, ?_, ?_, ?_⟩
    · have hall : ∀ b ∈ f.take n, decide (b ≠ 0) = true := by
        intro b hb
        refine decide_eq_true fun hzero => hf ?_
        rw [← hzero]
        exact List.mem_of_mem_take hb
      have hdrop : (f.take n).dropWhile (· ≠ 0) = [] := List.dropWhile_eq_nil_iff.mpr hall
      rw [List.take_append_of_le_length hn, readUntil, hdrop, Nat.sub_eq_zero_of_le (by omega),
        List.take_zero]
      rfl
    · rw [field, List.length_take_of_le hn, List.take_take, Nat.min_eq_left (Nat.sub_le n 1)]
    · intro hpos hnil
      have hlen := congrArg List.length hnil
      rw [List.length_take_of_le hn, List.length_nil] at hlen
      omega
  · refine ⟨f ++ [0], ?_, ?_, fun _ => by simp⟩
    · obtain ⟨k, rfl⟩ : ∃ k, n = f.length + (k + 1) := ⟨n - f.length - 1, by omega⟩
      have hk : f.length + (k + 1) - (f.length + 1) = k := by omega
      rw [List.take_length_add_append, List.take_succ_cons, readUntil_field hf, hk]
    · have hlen : (f ++ [(0 : UInt8)]).length - 1 = f.length := by
        rw [List.length_append, List.length_singleton, Nat.add_sub_cancel]
      rw [field, hlen, List.take_left' rfl, List.take_of_length_le (by omega)]

/-- What becomes of the fields of a record. -/
def recordEntry (root : Path) (type path size mode : List Char) : Option WalkEntry :=
  if type = ['l'] then none
  else
    some
      { relative := path
        fullPath := root.join (parse path)
        isDir := type = ['d']
        size := UInt64.ofNat ((parseUnsigned 10 (2 ^ 64) size).getD 0)
        mode := (parseUnsigned 8 (2 ^ 32) mode).map UInt32.ofNat }

/-- **One record, as far as there are bytes**, and what comes behind it. -/
theorem findEntries_record (root : Path) {type path size mode : List UInt8} (htype : (0 : UInt8) ∉ type)
    (hpath : (0 : UInt8) ∉ path) (hsize : (0 : UInt8) ∉ size) (hmode : (0 : UInt8) ∉ mode) {record : Nat}
    (hrecord : record = type.length + path.length + size.length + mode.length + 4) (n fuel : Nat)
    (bytes : List UInt8) :
    findEntries root false (fuel + 1)
        ((type ++ 0 :: (path ++ 0 :: (size ++ 0 :: (mode ++ 0 :: bytes)))).take (n + 1))
      = ((recordEntry root (Utf8.decodeLossy (type.take n))
            (Utf8.decodeLossy (path.take (n - (type.length + 1))))
            (Utf8.decodeLossy (size.take (n - (type.length + path.length + 2))))
            (Utf8.decodeLossy (mode.take (n - (type.length + path.length + size.length + 3))))).toList
          ++ (findEntries root false fuel (bytes.take (n + 1 - record))).1,
        (findEntries root false fuel (bytes.take (n + 1 - record))).2) := by
  obtain ⟨typeBuf, htypeBuf, htypeField, hne⟩ := readUntil_cut htype
    (path ++ 0 :: (size ++ 0 :: (mode ++ 0 :: bytes))) (n + 1)
  obtain ⟨pathBuf, hpathBuf, hpathField, -⟩ := readUntil_cut hpath
    (size ++ 0 :: (mode ++ 0 :: bytes)) (n + 1 - (type.length + 1))
  obtain ⟨sizeBuf, hsizeBuf, hsizeField, -⟩ := readUntil_cut hsize
    (mode ++ 0 :: bytes) (n + 1 - (type.length + 1) - (path.length + 1))
  obtain ⟨modeBuf, hmodeBuf, hmodeField, -⟩ := readUntil_cut hmode
    bytes (n + 1 - (type.length + 1) - (path.length + 1) - (size.length + 1))
  have hpathLen : n + 1 - (type.length + 1) - 1 = n - (type.length + 1) := by omega
  have hsizeLen : n + 1 - (type.length + 1) - (path.length + 1) - 1
      = n - (type.length + path.length + 2) := by omega
  have hmodeLen : n + 1 - (type.length + 1) - (path.length + 1) - (size.length + 1) - 1
      = n - (type.length + path.length + size.length + 3) := by omega
  have hrest : n + 1 - (type.length + 1) - (path.length + 1) - (size.length + 1) - (mode.length + 1)
      = n + 1 - record := by omega
  rw [hpathLen] at hpathField
  rw [hsizeLen] at hsizeField
  rw [hmodeLen] at hmodeField
  -- there is a byte at least, so this is not the end of the output
  obtain ⟨b, typeBuf, rfl⟩ := List.exists_cons_of_ne_nil (hne (Nat.succ_pos n))
  rw [findEntries, htypeBuf]
  dsimp only
  rw [hpathBuf]
  dsimp only
  rw [hsizeBuf]
  dsimp only
  rw [hmodeBuf]
  dsimp only
  rw [hrest, ← hpathField, ← hsizeField, ← hmodeField, show n = n + 1 - 1 from rfl, ← htypeField]
  rfl

/-- A record that is whole. -/
theorem findEntries_whole (root : Path) {type path size mode : List UInt8} (htype : (0 : UInt8) ∉ type)
    (hpath : (0 : UInt8) ∉ path) (hsize : (0 : UInt8) ∉ size) (hmode : (0 : UInt8) ∉ mode) (fuel : Nat)
    (bytes : List UInt8) :
    findEntries root false (fuel + 1) (type ++ 0 :: (path ++ 0 :: (size ++ 0 :: (mode ++ 0 :: bytes))))
      = ((recordEntry root (Utf8.decodeLossy type) (Utf8.decodeLossy path) (Utf8.decodeLossy size)
            (Utf8.decodeLossy mode)).toList ++ (findEntries root false fuel bytes).1,
        (findEntries root false fuel bytes).2) := by
  obtain ⟨n, hn⟩ : ∃ n, n = type.length + path.length + size.length + mode.length + bytes.length + 4 :=
    ⟨_, rfl⟩
  have hrecord := findEntries_record root htype hpath hsize hmode rfl n fuel bytes
  have hwhole : (type ++ 0 :: (path ++ 0 :: (size ++ 0 :: (mode ++ 0 :: bytes)))).length ≤ n + 1 := by
    simp only [List.length_append, List.length_cons]
    omega
  have hbytes : bytes.length ≤ n + 1 - (type.length + path.length + size.length + mode.length + 4) := by omega
  have hpathLen : path.length ≤ n - (type.length + 1) := by omega
  have hsizeLen : size.length ≤ n - (type.length + path.length + 2) := by omega
  have hmodeLen : mode.length ≤ n - (type.length + path.length + size.length + 3) := by omega
  rw [List.take_of_length_le hwhole, List.take_of_length_le hbytes, List.take_of_length_le hpathLen,
    List.take_of_length_le hsizeLen, List.take_of_length_le hmodeLen,
    List.take_of_length_le (show type.length ≤ n by omega)] at hrecord
  exact hrecord

theorem digitChar_spec {d : Nat} (h : d < 10) :
    d.digitChar.isDigit = true ∧ d.digitChar.toNat - 48 = d := by
  rcases d with _ | _ | _ | _ | _ | _ | _ | _ | _ | _ | d
  all_goals first | exact ⟨rfl, rfl⟩ | omega

/-- The digits of a number have its digits as their values. -/
theorem mapM_toDigits {radix : Nat} (hlo : 1 < radix) (hhi : radix ≤ 10) (n : Nat) :
    ∃ ds : List Nat, ((Nat.toDigits radix n).mapM fun c =>
        if c.isDigit ∧ c.toNat - 48 < radix then some (c.toNat - 48) else none) = some ds
      ∧ ds.foldl (fun n d => n * radix + d) 0 = n := by
  induction n using Nat.strongRecOn with
  | ind n ih =>
      have hdigit (d : Nat) (hd : d < radix) :
          (if d.digitChar.isDigit ∧ d.digitChar.toNat - 48 < radix then some (d.digitChar.toNat - 48)
            else none) = some d := by
        obtain ⟨hisDigit, hvalue⟩ := digitChar_spec (Nat.lt_of_lt_of_le hd hhi)
        rw [hvalue, if_pos ⟨hisDigit, hd⟩]
      by_cases hn : n < radix
      · refine ⟨[n], ?_, by simp⟩
        rw [Nat.toDigits_of_lt_base hn]
        simp only [List.mapM_cons, List.mapM_nil, hdigit n hn]
        rfl
      · have hge : radix ≤ n := Nat.not_lt.mp hn
        obtain ⟨ds, hds, hvalue⟩ := ih (n / radix) (Nat.div_lt_self (by omega) hlo)
        have hlast := hdigit (n % radix) (Nat.mod_lt n (by omega))
        refine ⟨ds ++ [n % radix], ?_, ?_⟩
        · rw [Nat.toDigits_of_base_le hlo hge, List.mapM_append, hds]
          simp only [List.mapM_cons, List.mapM_nil, hlast]
          rfl
        · rw [List.foldl_append, hvalue, List.foldl_cons, List.foldl_nil, Nat.mul_comm]
          exact Nat.div_add_mod n radix

/-- **A number is read as it was printed.** -/
theorem parseUnsigned_toDigits {radix bound n : Nat} (hlo : 1 < radix) (hhi : radix ≤ 10)
    (hn : n < bound) : parseUnsigned radix bound (Nat.toDigits radix n) = some n := by
  obtain ⟨ds, hds, hvalue⟩ := mapM_toDigits hlo hhi n
  have hplus : ∀ rest, Nat.toDigits radix n ≠ '+' :: rest := by
    intro rest hcons
    have hmem : '+' ∈ Nat.toDigits radix n := by
      rw [hcons]
      exact List.mem_cons_self
    have hisDigit := Nat.isDigit_of_mem_toDigits (by omega) hhi hmem
    cases hisDigit
  unfold parseUnsigned
  dsimp only
  split
  · rename_i rest hcons
    exact absurd hcons (hplus rest)
  · rw [if_neg Nat.toDigits_ne_nil, hds]
    dsimp only
    rw [hvalue, if_pos hn]

theorem zero_notMem_digits {radix : Nat} (hlo : 1 < radix) (hhi : radix ≤ 10) (k : Nat) :
    (0 : UInt8) ∉ Utf8.encode (Nat.toDigits radix k) := by
  refine Utf8.zero_notMem_encode fun hmem => ?_
  have hisDigit := Nat.isDigit_of_mem_toDigits (by omega) hhi hmem
  cases hisDigit

/-- What the live walk makes of an entry. -/
def listedOf (root : Path) (t : DirTree) (q : Spot) : Option WalkEntry :=
  match t.stat q with
  | some (.dir, metadata) => some ⟨(relPath q).display, root.join (parse (relPath q).display), true,
      metadata.len, some (metadata.mode &&& 0o7777)⟩
  | some (.file, metadata) => some ⟨(relPath q).display, root.join (parse (relPath q).display), false,
      metadata.len, some (metadata.mode &&& 0o7777)⟩
  | some (.symlink, _) => none
  | none => none

/-- What the native walk makes of it. -/
def walkedOf (root : Path) (t : DirTree) (q : Spot) : Option WalkEntry :=
  match t.stat q with
  | some (.dir, metadata) => some ⟨(relPath q).display, root.join (relPath q), true, 0,
      some (metadata.mode &&& 0o777)⟩
  | some (.file, metadata) => some ⟨(relPath q).display, root.join (relPath q), false, metadata.len,
      some (metadata.mode &&& 0o777)⟩
  | some (.symlink, _) => none
  | none => none

variable {root : Path} {t : DirTree}

theorem recordEntry_printed (root : Path) (t : DirTree) {q : Spot} {kind : NodeKind} {metadata : FileMeta}
    (hq : t.stat q = some (kind, metadata)) :
    recordEntry root [kind.letter] (relPath q).display (Nat.toDigits 10 metadata.len.toNat)
      (Nat.toDigits 8 (metadata.mode &&& 0o7777).toNat) = listedOf root t q := by
  have hsize : parseUnsigned 10 (2 ^ 64) (Nat.toDigits 10 metadata.len.toNat) = some metadata.len.toNat :=
    parseUnsigned_toDigits (by omega) (by omega) metadata.len.toNat_lt
  have hmode : parseUnsigned 8 (2 ^ 32) (Nat.toDigits 8 (metadata.mode &&& 0o7777).toNat)
      = some (metadata.mode &&& 0o7777).toNat :=
    parseUnsigned_toDigits (by omega) (by omega) (metadata.mode &&& 0o7777).toNat_lt
  have hlen : UInt64.ofNat metadata.len.toNat = metadata.len := UInt64.ofNat_toNat
  have hbits : UInt32.ofNat (metadata.mode &&& 0o7777).toNat = metadata.mode &&& 0o7777 :=
    UInt32.ofNat_toNat
  rw [recordEntry, hsize, hmode, Option.getD_some, Option.map_some, hlen, hbits, listedOf, hq]
  cases kind with
  | dir => rfl
  | file => rfl
  | symlink => rfl

/-- One record, and what comes behind it. -/
theorem findEntries_printed {q : Spot} (hq : t.stat q ≠ none) (fuel : Nat) (bytes : List UInt8) :
    findEntries root false (fuel + 1) (t.printed q ++ bytes)
      = ((listedOf root t q).toList ++ (findEntries root false fuel bytes).1,
          (findEntries root false fuel bytes).2) := by
  obtain ⟨⟨kind, metadata⟩, hstat⟩ := Option.ne_none_iff_exists'.mp hq
  have hletter : (0 : UInt8) ∉ Utf8.encode [kind.letter] := by
    refine Utf8.zero_notMem_encode ?_
    cases kind <;> decide
  have hpath : (0 : UInt8) ∉ Utf8.encode (relPath q).display := by
    refine Utf8.zero_notMem_encode fun hmem => ?_
    rcases mem_display_names hmem with hslash | ⟨n, hn, hc⟩
    · cases hslash
    · exact t.named q hq n hn hc
  have hprinted : t.printed q ++ bytes
      = Utf8.encode [kind.letter] ++ 0 :: (Utf8.encode (relPath q).display
        ++ 0 :: (Utf8.encode (Nat.toDigits 10 metadata.len.toNat)
          ++ 0 :: (Utf8.encode (Nat.toDigits 8 (metadata.mode &&& 0o7777).toNat) ++ 0 :: bytes))) := by
    simp only [DirTree.printed, hstat, List.append_assoc, List.cons_append, List.nil_append]
  have hsize : (0 : UInt8) ∉ Utf8.encode (Nat.toDigits 10 metadata.len.toNat) :=
    zero_notMem_digits (by omega) (by omega) _
  have hmode : (0 : UInt8) ∉ Utf8.encode (Nat.toDigits 8 (metadata.mode &&& 0o7777).toNat) :=
    zero_notMem_digits (by omega) (by omega) _
  rw [hprinted, findEntries_whole root hletter hpath hsize hmode, Utf8.decodeLossy_encode,
    Utf8.decodeLossy_encode, Utf8.decodeLossy_encode, Utf8.decodeLossy_encode,
    recordEntry_printed root t hstat]

/-- **The whole output.** -/
theorem findEntries_listing {found : List Spot} (h : ∀ q ∈ found, t.stat q ≠ none) {fuel : Nat}
    (hfuel : found.length < fuel) :
    findEntries root false fuel (found.flatMap t.printed)
      = (found.filterMap (listedOf root t), false) := by
  induction found generalizing fuel with
  | nil =>
      cases fuel with
      | zero => exact absurd hfuel (Nat.not_lt_zero _)
      | succ fuel => rfl
  | cons q found ih =>
      cases fuel with
      | zero => exact absurd hfuel (Nat.not_lt_zero _)
      | succ fuel =>
          have hrest := ih (fun r hr => h r (List.mem_cons_of_mem _ hr)) (Nat.lt_of_succ_lt_succ hfuel)
          rw [List.flatMap_cons, findEntries_printed (h q List.mem_cons_self), hrest]
          dsimp only
          cases hq : listedOf root t q with
          | none => rw [List.filterMap_cons_none hq, Option.toList_none, List.nil_append]
          | some entry => rw [List.filterMap_cons_some hq, Option.toList_some, List.singleton_append]

theorem length_le_output {found : List Spot} (h : ∀ q ∈ found, t.stat q ≠ none) :
    found.length ≤ (found.flatMap t.printed).length := by
  induction found with
  | nil => exact Nat.le_refl 0
  | cons q found ih =>
      have hrest := ih fun r hr => h r (List.mem_cons_of_mem _ hr)
      obtain ⟨⟨kind, metadata⟩, hstat⟩ := Option.ne_none_iff_exists'.mp (h q List.mem_cons_self)
      have hpos : 0 < (t.printed q).length := by
        simp only [DirTree.printed, hstat, List.length_append, List.length_cons]
        omega
      rw [List.flatMap_cons, List.length_append, List.length_cons]
      omega

/-! ## What the native walk collects -/

theorem collectTree_shown {walk : List Spot} (h : ∀ q ∈ walk, q ≠ [] ∧ t.stat q ≠ none) :
    collectTree root (walk.map t.shown) = some (walk.filterMap (walkedOf root t)) := by
  induction walk with
  | nil => rfl
  | cons q walk ih =>
      obtain ⟨hne, hsome⟩ := h q List.mem_cons_self
      have hrest := ih fun r hr => h r (List.mem_cons_of_mem _ hr)
      have hdisplay := display_relPath_ne_nil hne
      obtain ⟨⟨kind, metadata⟩, hstat⟩ := Option.ne_none_iff_exists'.mp hsome
      have hentry :
          walkedEntry root ⟨relPath q, kind.fileType, some metadata⟩ = some (walkedOf root t q) := by
        rw [walkedEntry, if_neg hdisplay, walkedOf, hstat]
        cases kind with
        | dir => rfl
        | file => rfl
        | symlink => rfl
      rw [List.map_cons, DirTree.shown, hstat]
      dsimp only
      rw [collectTree, hentry, hrest]
      cases hq : walkedOf root t q with
      | none =>
          rw [List.filterMap_cons_none hq]
          rfl
      | some entry =>
          rw [List.filterMap_cons_some hq]
          rfl

end Serve

/-! ## What is sent -/

/-- The headers among the frames. -/
def headers (frames : List TransferFrame) : List Wire.EntryHeader :=
  frames.filterMap fun
    | .newEntry header => some header
    | _ => none

theorem headers_append (a b : List TransferFrame) : headers (a ++ b) = headers a ++ headers b :=
  List.filterMap_append

section

variable {json : SerdeJson} {hs hs' : List Wire.EntryHeader}

/-- What is written is what the codec takes. -/
theorem sendable_iff {frame : TransferFrame} : sendable json frame = true ↔ Fits json frame := by
  unfold sendable
  cases hp : frame.payload json with
  | error e =>
      rw [TransferFrame.write_error hp]
      refine iff_of_false Bool.false_ne_true ?_
      rintro ⟨payload, hpayload, -⟩
      rw [hp] at hpayload
      cases hpayload
  | ok payload =>
      rw [TransferFrame.write_eq hp]
      by_cases hlen : payload.length ≤ maxLen frame.kind
      · rw [writeFrame_ok hlen]
        exact iff_of_true rfl ⟨payload, hp, hlen⟩
      · rw [writeFrame_tooLarge (Nat.not_le.mp hlen)]
        refine iff_of_false Bool.false_ne_true ?_
        rintro ⟨other, hother, hfits⟩
        rw [hp] at hother
        cases hother
        exact hlen hfits

/-- The frames of a download that carry neither a text nor a chunk are within their limits. -/
structure Brief (json : SerdeJson) : Prop where
  ready : ∀ ready, Fits json (.getReady ready)
  entryComplete : ∀ complete, Fits json (.entryComplete complete)
  complete : ∀ complete, Fits json (.getComplete complete)

/-- The headers before the first one that is too long for a frame. -/
def admitted (json : SerdeJson) (hs : List Wire.EntryHeader) : List Wire.EntryHeader :=
  hs.takeWhile fun h => sendable json (.newEntry h)

theorem admitted_isPrefix (json : SerdeJson) (hs : List Wire.EntryHeader) : admitted json hs <+: hs :=
  List.takeWhile_prefix _

theorem admitted_eq_self : admitted json hs = hs ↔ ∀ h ∈ hs, Fits json (.newEntry h) := by
  rw [admitted, List.takeWhile_eq_self_iff]
  exact forall₂_congr fun h _ => sendable_iff

theorem admitted_cons_of_fits {h : Wire.EntryHeader} (hh : Fits json (.newEntry h))
    (hs : List Wire.EntryHeader) : admitted json (h :: hs) = h :: admitted json hs :=
  List.takeWhile_cons_of_pos (sendable_iff.mpr hh)

theorem admitted_cons_of_not_fits {h : Wire.EntryHeader} (hh : ¬ Fits json (.newEntry h))
    (hs : List Wire.EntryHeader) : admitted json (h :: hs) = [] :=
  List.takeWhile_cons_of_neg fun hsend => hh (sendable_iff.mp hsend)

theorem admitted_append_of_eq (h : admitted json hs = hs) (hs' : List Wire.EntryHeader) :
    admitted json (hs ++ hs') = hs ++ admitted json hs' := by
  rw [admitted, List.takeWhile_eq_self_iff] at h
  exact List.takeWhile_append_of_pos h

theorem admitted_append_of_ne (h : admitted json hs ≠ hs) (hs' : List Wire.EntryHeader) :
    admitted json (hs ++ hs') = admitted json hs := by
  have hlen : ¬ (hs.takeWhile fun h => sendable json (.newEntry h)).length = hs.length := fun hlen =>
    h ((admitted_isPrefix json hs).eq_of_length hlen)
  rw [admitted, List.takeWhile_append, if_neg hlen, admitted]

/-- Nothing gets past a header that is too long. -/
theorem mem_of_mem_admitted {g h : Wire.EntryHeader} (hg : ¬ Fits json (.newEntry g))
    (hh : h ∈ admitted json (hs ++ g :: hs')) : h ∈ hs := by
  by_cases hall : admitted json hs = hs
  · rw [admitted_append_of_eq hall, admitted_cons_of_not_fits hg, List.append_nil] at hh
    exact hh
  · rw [admitted_append_of_ne hall] at hh
    exact (admitted_isPrefix json hs).subset hh

end

namespace ListingWorld

variable {α β : Type} {json : SerdeJson} {w : ListingWorld} {hs hs' : List Wire.EntryHeader}

def wrote (w : ListingWorld) (frames : List TransferFrame) : ListingWorld :=
  { w with sent := w.sent ++ frames }

theorem wrote_wrote (w : ListingWorld) (a b : List TransferFrame) :
    (w.wrote a).wrote b = w.wrote (a ++ b) := by
  simp only [wrote, List.append_assoc]

theorem wrote_nil (w : ListingWorld) : w.wrote [] = w := by
  simp only [wrote, List.append_nil]

theorem run_bind (p : ServeProg α) (k : α → ServeProg β) :
    run json (p >>= k) w = run json (k (run json p w).1) (run json p w).2 := Prog.eval_bind p k w

theorem run_pure (a : α) : run json (pure a) w = (a, w) := rfl

theorem run_send_eq (frame : TransferFrame) (w : ListingWorld) :
    run json (Serve.send frame) w
      = if sendable json frame then (.ok (), w.wrote [frame]) else (.error "stream write failed", w) := by
  have hrun (sent : Bool) (w' : ListingWorld) (h : answer json (.blob (.send frame)) w = (sent, w')) :
      run json (Serve.send frame) w = (if sent then .ok () else .error "stream write failed", w') := by
    show run json _ (answer json (.blob (.send frame)) w).2 = _
    rw [h]
    rfl
  by_cases h : sendable json frame = true
  · rw [hrun true (w.wrote [frame]) (if_pos h), if_pos h, if_pos rfl]
  · rw [hrun false w (if_neg h), if_neg h, if_neg Bool.false_ne_true]

/-- A frame that the codec takes. -/
theorem run_send {frame : TransferFrame} (h : sendable json frame = true) (w : ListingWorld) :
    run json (Serve.send frame) w = (.ok (), w.wrote [frame]) := by
  rw [run_send_eq, if_pos h]

/-- A program that sends these headers, up to the first one that is too long, and ends well if none is. -/
def Sends (json : SerdeJson) (p : ServeProg (Except String α)) (hs : List Wire.EntryHeader)
    (w : ListingWorld) : Prop :=
  ∃ r frames, run json p w = (r, w.wrote frames) ∧ headers frames = admitted json hs
    ∧ ((∃ a, r = .ok a) ↔ admitted json hs = hs)

theorem Sends.bind {p : ServeProg (Except String α)} {k : Except String α → ServeProg (Except String β)}
    (hp : Sends json p hs w) (hk : ∀ a frames, Sends json (k (.ok a)) hs' (w.wrote frames))
    (hfail : ∀ e, k (.error e) = pure (.error e)) : Sends json (p >>= k) (hs ++ hs') w := by
  obtain ⟨r, front, hrun, hfront, hok⟩ := hp
  by_cases hall : admitted json hs = hs
  · obtain ⟨a, rfl⟩ := hok.mpr hall
    obtain ⟨r', back, hrun', hback, hok'⟩ := hk a front
    refine ⟨r', front ++ back, ?_, ?_, ?_⟩
    · rw [run_bind, hrun]
      dsimp only
      rw [hrun', wrote_wrote]
    · rw [headers_append, hfront, hback, hall, admitted_append_of_eq hall]
    · rw [hok', admitted_append_of_eq hall, List.append_cancel_left_eq]
  · -- the rest is not reached
    cases r with
    | ok a => exact absurd (hok.mp ⟨a, rfl⟩) hall
    | error e =>
        refine ⟨.error e, front, ?_, ?_, ?_⟩
        · rw [run_bind, hrun]
          dsimp only
          rw [hfail, run_pure]
        · rw [hfront, admitted_append_of_ne hall]
        · rw [admitted_append_of_ne hall]
          refine iff_of_false (fun ⟨a, ha⟩ => by cases ha) fun heq => ?_
          have hle := (admitted_isPrefix json hs).length_le
          have hlen := congrArg List.length heq
          rw [List.length_append] at hlen
          exact hall ((admitted_isPrefix json hs).eq_of_length (by omega))

/-- An operation that leaves everything as it is. -/
theorem sends_perform {o : ServeOp} {r : o.Answer} {k : o.Answer → ServeProg (Except String β)}
    (ho : answer json o w = (r, w)) (hk : Sends json (k r) hs w) : Sends json (o.perform >>= k) hs w := by
  obtain ⟨b, frames, hrun, hframes⟩ := hk
  refine ⟨b, frames, ?_, hframes⟩
  rw [run_bind]
  show run json (k (answer json o w).1) (answer json o w).2 = _
  rw [ho, hrun]

theorem sends_pure (a : α) : Sends json (pure (.ok a)) [] w := by
  refine ⟨.ok a, [], ?_, rfl, iff_of_true ⟨a, rfl⟩ rfl⟩
  rw [wrote_nil, run_pure]

/-- A frame that is no header. -/
theorem sends_send {frame : TransferFrame} (h : Fits json frame) (hplain : headers [frame] = []) :
    Sends json (Serve.send frame) [] w :=
  ⟨.ok (), [frame], run_send (sendable_iff.mpr h) w, hplain, iff_of_true ⟨(), rfl⟩ rfl⟩

theorem sends_newEntry (header : Wire.EntryHeader) :
    Sends json (Serve.send (.newEntry header)) [header] w := by
  by_cases hfits : Fits json (.newEntry header)
  · have hadmitted : admitted json [header] = [header] := admitted_cons_of_fits hfits []
    exact ⟨.ok (), [.newEntry header], run_send (sendable_iff.mpr hfits) w, hadmitted.symm,
      iff_of_true ⟨(), rfl⟩ hadmitted⟩
  · have hadmitted : admitted json [header] = [] := admitted_cons_of_not_fits hfits []
    refine ⟨.error "stream write failed", [], ?_, ?_, ?_⟩
    · rw [run_send_eq, if_neg fun hsend => hfits (sendable_iff.mp hsend), wrote_nil]
    · rw [hadmitted]
      rfl
    · rw [hadmitted]
      exact iff_of_false (fun ⟨a, ha⟩ => by cases ha) (List.cons_ne_nil _ _).symm

theorem sends_streamReads {reads : List (List UInt8)} (hreads : ∀ chunk ∈ reads, chunk.length ≤ maxChunkBytes)
    (total : Nat) : Sends json (Serve.streamReads false total reads) [] w := by
  induction reads generalizing w total with
  | nil => exact sends_pure total
  | cons chunk rest ih =>
      rw [Serve.streamReads]
      split
      · exact sends_pure total
      · have hchunk : Fits json (.getChunk chunk) := ⟨chunk, rfl, hreads chunk List.mem_cons_self⟩
        exact (sends_send hchunk rfl).bind
          (fun _ _ => ih (fun c hc => hreads c (List.mem_cons_of_mem _ hc)) _) fun _ => rfl

/-- The contents of a file have no headers. -/
theorem sends_streamFileContent (hjson : Brief json) (p : Path) (total : Nat) :
    Sends json (Serve.streamFileContent p total) [] w := by
  show Sends json (Serve.streamReads false total (w.contents p) >>= _) _ _
  refine (sends_streamReads (w.bounded p) total).bind (fun totalSent _ => ?_) fun _ => rfl
  exact (sends_send (hjson.entryComplete ⟨⟩) rfl).bind (fun _ _ => sends_pure totalSent) fun _ => rfl

/-- **The loop over entries sends a header for each of them.** -/
theorem sends_sendEntries (hjson : Brief json) (entries : List WalkEntry) (total : Nat) :
    Sends json (Serve.sendEntries total entries) (entries.map Client.entryHeader) w := by
  induction entries generalizing w total with
  | nil => exact sends_pure total
  | cons entry rest ih =>
      rw [Serve.sendEntries]
      refine (sends_newEntry (Client.entryHeader entry)).bind (fun _ _ => ?_) fun _ => rfl
      dsimp only
      split
      · exact ih _
      · exact (sends_streamFileContent hjson entry.fullPath total).bind (fun _ _ => ih _) fun _ => rfl

/-- The headers of the tree, in the order in which it is gone through. -/
def listing (w : ListingWorld) (context : ShellContext) (root : Path) : List Wire.EntryHeader :=
  if context.isLive then (w.found.filterMap (Serve.listedOf root w.tree)).map Client.entryHeader
  else (w.walk.filterMap (Serve.walkedOf root w.tree)).map Client.entryHeader

/-- **Without a live shell** the entries are those of the walk, and with one those `find` has printed. -/
theorem sends_sendTree (hjson : Brief json) (context : ShellContext) (root : Path) :
    Sends json (Serve.sendTree context root) (w.listing context root) w := by
  by_cases hc : context.isLive = true
  · have hsome : ∀ q ∈ w.found, w.tree.stat q ≠ none := fun q hq => ((w.finds.mem q).mp hq).2
    have hentries : Serve.findEntries root false ((w.found.flatMap w.tree.printed).length + 1)
        (w.found.flatMap w.tree.printed) = (w.found.filterMap (Serve.listedOf root w.tree), false) :=
      Serve.findEntries_listing hsome (Nat.lt_succ_of_le (Serve.length_le_output hsome))
    have hrest : Sends json (Serve.sendListed root (w.found.flatMap w.tree.printed) false)
        ((w.found.filterMap (Serve.listedOf root w.tree)).map Client.entryHeader) w := by
      rw [Serve.sendListed, hentries, ← List.append_nil (List.map _ _)]
      exact (sends_sendEntries hjson _ 0).bind (fun totalSent _ => sends_pure totalSent) fun _ => rfl
    rw [Serve.sendTree, if_pos hc, listing, if_pos hc]
    exact hrest
  · have hwalk : answer json (.walkTree root) w
        = (some (w.walk.filterMap (Serve.walkedOf root w.tree)), w) := by
      rw [answer, Serve.collectTree, Serve.collectTree_shown fun q hq => (w.walks.mem q).mp hq]
      rfl
    rw [Serve.sendTree, if_neg hc, listing, if_neg hc]
    exact sends_perform hwalk (sends_sendEntries hjson _ 0)

/-- The headers that a recursive download sends. -/
def headersSent (json : SerdeJson) (w : ListingWorld) (context : ShellContext) (request : GetRequest) :
    List Wire.EntryHeader := headers (run json (Serve.handleRecursiveGet context request) w).2.sent

/-- They are those of the tree, up to the first one that is too long. -/
theorem headersSent_eq (hjson : Brief json) (hw : w.sent = []) {context : ShellContext}
    {request : GetRequest} {root : Path} (hroot : context.resolvePath request.path.toList = .ok root) :
    w.headersSent json context request = admitted json (w.listing context root) := by
  have hall :
      Sends json (Serve.handleRecursiveGet context request) ([] ++ (w.listing context root ++ [])) w := by
    rw [Serve.handleRecursiveGet, hroot]
    refine (sends_send (hjson.ready ⟨0, none⟩) rfl).bind (fun _ frames => ?_) fun _ => rfl
    exact (sends_sendTree (w := w.wrote frames) hjson context root).bind
      (fun _ _ => sends_send (hjson.complete _) rfl) fun _ => rfl
  obtain ⟨_, frames, hrun, hheaders, -⟩ := hall
  rw [headersSent, hrun]
  show headers (w.sent ++ frames) = _
  rw [hw, List.nil_append, hheaders, List.nil_append, List.append_nil]

end ListingWorld

/-! ## Directories first -/

/-- Every directory is announced before what is in it, at any depth. -/
def AnnouncedFirst (hs : List Wire.EntryHeader) : Prop :=
  ∀ before h after, hs = before ++ h :: after → ∀ d rest, h.path.toList = d ++ '/' :: rest →
    ∃ g ∈ before, g.path.toList = d ∧ g.isDir = true

namespace DirTree

variable {t : DirTree}

theorem isDir_above {q : Spot} {n : Name} {rest : Spot} (hq : q ≠ []) (h : t.stat (q ++ n :: rest) ≠ none) :
    ∃ m, t.stat q = some (.dir, m) := by
  induction rest using List.reverseRecOn generalizing n with
  | nil => exact t.grounded q n h hq
  | append_singleton rest last ih =>
      have hsnoc : q ++ n :: (rest ++ [last]) = (q ++ n :: rest) ++ [last] := by
        rw [List.append_assoc, List.cons_append]
      rw [hsnoc] at h
      obtain ⟨m, hdir⟩ := t.grounded _ last h (by simp)
      exact ih (by rw [hdir]; exact Option.some_ne_none _)

/-- Whatever is met, everything above it has been met before. -/
theorem Lists.above_mem {walk : List Spot} (h : t.Lists walk) {before after : List Spot} {r back : Spot}
    (hsplit : walk = before ++ (r ++ back) :: after) (hr : r ≠ []) (hback : back ≠ []) : r ∈ before := by
  have hlast := List.dropLast_append_getLast hback
  rw [← hlast, ← List.append_assoc] at hsplit
  have hparent := h.parentFirst before _ _ after hsplit (by simp [hr])
  exact above_mem_of_parentFirst h.parentFirst hsplit hparent (List.prefix_append r _) hr

/-- Headers in the order of a walk. -/
theorem Lists.announcedFirst {walk : List Spot} (h : t.Lists walk) (header : Spot → Option Wire.EntryHeader)
    (hpath : ∀ q g, header q = some g → g.path.toList = (relPath q).display)
    (hdir : ∀ q m, t.stat q = some (.dir, m) → ∃ g, header q = some g ∧ g.isDir = true) :
    AnnouncedFirst (walk.filterMap header) := by
  intro before g after hsplit d rest hslash
  obtain ⟨front, back, hwalk, hfront, hback⟩ := List.filterMap_eq_append_iff.mp hsplit
  obtain ⟨skipped, q, tail, hcons, hskipped, hq, htail⟩ := List.filterMap_eq_cons_iff.mp hback
  rw [hpath q g hq] at hslash
  obtain ⟨r, deeper, hr, hdeeper, hsplitq, hdisplay⟩ := display_before hslash
  have hwalk' : walk = (front ++ skipped) ++ q :: tail := by rw [hwalk, hcons, List.append_assoc]
  have hmem := h.above_mem (hsplitq ▸ hwalk') hr hdeeper
  have hsome : t.stat q ≠ none := by
    refine ((h.mem q).mp ?_).2
    rw [hwalk']
    exact List.mem_append_right _ List.mem_cons_self
  obtain ⟨n, deeper, rfl⟩ := List.exists_cons_of_ne_nil hdeeper
  rw [hsplitq] at hsome
  obtain ⟨m, hstat⟩ := isDir_above hr hsome
  obtain ⟨above, habove, hisDir⟩ := hdir r m hstat
  refine ⟨above, ?_, (hpath r above habove).trans hdisplay, hisDir⟩
  rw [← hfront]
  refine List.mem_filterMap.mpr ⟨r, ?_, habove⟩
  rcases List.mem_append.mp hmem with hin | hin
  · exact hin
  · rw [hskipped r hin] at habove
    cases habove

/-- What a client is to be told of a place: links are left out. -/
def announced (t : DirTree) (q : Spot) : Option Wire.EntryHeader :=
  match t.stat q with
  | some (.dir, metadata) =>
      some ⟨String.ofList (relPath q).display, 0, some (metadata.mode &&& 0o777), true⟩
  | some (.file, metadata) =>
      some ⟨String.ofList (relPath q).display, metadata.len, some (metadata.mode &&& 0o777), false⟩
  | some (.symlink, _) => none
  | none => none

theorem announced_path {q : Spot} {g : Wire.EntryHeader} (h : t.announced q = some g) :
    g.path.toList = (relPath q).display := by
  unfold announced at h
  split at h
  · exact (congrArg (fun g : Wire.EntryHeader => g.path.toList) (Option.some.inj h)).symm.trans
      String.toList_ofList
  · exact (congrArg (fun g : Wire.EntryHeader => g.path.toList) (Option.some.inj h)).symm.trans
      String.toList_ofList
  · cases h
  · cases h

theorem Lists.mem_announced {walk : List Spot} (h : t.Lists walk) (g : Wire.EntryHeader) :
    g ∈ walk.filterMap t.announced ↔ ∃ q, q ≠ [] ∧ t.announced q = some g := by
  rw [List.mem_filterMap]
  constructor
  · intro hq
    obtain ⟨q, hmem, hq⟩ := hq
    exact ⟨q, ((h.mem q).mp hmem).1, hq⟩
  · intro hq
    obtain ⟨q, hne, hq⟩ := hq
    refine ⟨q, (h.mem q).mpr ⟨hne, fun hnone => ?_⟩, hq⟩
    rw [announced, hnone] at hq
    cases hq

end DirTree

/-- A header without what depends on how it was found: the length of a directory, and the bits above
the permissions. -/
def plainHeader (h : Wire.EntryHeader) : Wire.EntryHeader :=
  { h with
    size := if h.isDir then 0 else h.size
    mode := h.mode.map (· &&& 0o777) }

section

variable (root : Path) (t : DirTree)

theorem plain_walked (q : Spot) :
    ((Serve.walkedOf root t q).map Client.entryHeader).map plainHeader = t.announced q := by
  have hmask (mode : UInt32) : mode &&& 0o777 &&& 0o777 = mode &&& 0o777 := by
    rw [UInt32.and_assoc]
    rfl
  unfold Serve.walkedOf DirTree.announced
  split <;> simp [plainHeader, Client.entryHeader, hmask]

theorem plain_listed (q : Spot) :
    ((Serve.listedOf root t q).map Client.entryHeader).map plainHeader = t.announced q := by
  have hmask (mode : UInt32) : mode &&& 0o7777 &&& 0o777 = mode &&& 0o777 := by
    rw [UInt32.and_assoc]
    rfl
  unfold Serve.listedOf DirTree.announced
  split <;> simp [plainHeader, Client.entryHeader, hmask]

end

/-- The headers of either listing, compared with the tree. -/
theorem DirTree.Lists.headers_spec {t : DirTree} {walk : List Spot} (h : t.Lists walk)
    {entry : Spot → Option WalkEntry}
    (hplain : ∀ q, ((entry q).map Client.entryHeader).map plainHeader = t.announced q) :
    ((walk.filterMap entry).map Client.entryHeader).map plainHeader = walk.filterMap t.announced
      ∧ AnnouncedFirst ((walk.filterMap entry).map Client.entryHeader) := by
  have hmap : (walk.filterMap entry).map Client.entryHeader
      = walk.filterMap fun q => (entry q).map Client.entryHeader := List.map_filterMap
  rw [hmap]
  refine ⟨?_, h.announcedFirst _ ?_ ?_⟩
  · rw [List.map_filterMap]
    exact List.filterMap_congr fun q _ => hplain q
  · intro q g hg
    have hq := hplain q
    rw [hg] at hq
    exact DirTree.announced_path (g := plainHeader g) hq.symm
  · intro q m hstat
    have hq := hplain q
    rw [DirTree.announced, hstat] at hq
    obtain ⟨g, hg, hplaing⟩ := Option.map_eq_some_iff.mp hq
    exact ⟨g, hg, congrArg Wire.EntryHeader.isDir hplaing⟩

namespace ListingWorld

/-- Either listing, compared with the tree. -/
theorem listing_spec (w : ListingWorld) (context : ShellContext) (root : Path) :
    ((w.listing context root).map plainHeader).Perm (w.walk.filterMap w.tree.announced)
      ∧ AnnouncedFirst (w.listing context root) := by
  have hperm : w.found.Perm w.walk := by
    rw [List.perm_ext_iff_of_nodup w.finds.nodup w.walks.nodup]
    intro q
    rw [w.walks.mem, w.finds.mem]
  unfold listing
  split
  · have hfind := w.finds.headers_spec (plain_listed root w.tree)
    rw [hfind.1]
    exact ⟨hperm.filterMap w.tree.announced, hfind.2⟩
  · have hwalk := w.walks.headers_spec (plain_walked root w.tree)
    rw [hwalk.1]
    exact ⟨.refl _, hwalk.2⟩

theorem listing_path {w : ListingWorld} {context : ShellContext} {root : Path} {h : Wire.EntryHeader}
    (hh : h ∈ w.listing context root) :
    ∃ q, q ≠ [] ∧ w.tree.stat q ≠ none ∧ h.path.toList = (relPath q).display := by
  have hmem := (w.listing_spec context root).1.mem_iff.mp (List.mem_map_of_mem hh)
  obtain ⟨q, hq, hannounced⟩ := List.mem_filterMap.mp hmem
  obtain ⟨hne, hsome⟩ := (w.walks.mem q).mp hq
  exact ⟨q, hne, hsome, DirTree.announced_path (g := plainHeader h) hannounced⟩

end ListingWorld

theorem AnnouncedFirst.of_isPrefix {hs hs' : List Wire.EntryHeader} (h : AnnouncedFirst hs)
    (hp : hs' <+: hs) :
    AnnouncedFirst hs' := by
  obtain ⟨rest, rfl⟩ := hp
  intro before g after hsplit
  refine h before g (after ++ rest) ?_
  rw [hsplit, List.append_assoc, List.cons_append]

namespace Proof

/-- **The native and the live listing of a tree are the same**, up to order: they announce its
directories and files and nothing else, and each directory before what is in it. Either ends early
where a header is too long for its frame. Which of the contexts has a live shell does not matter. -/
theorem listings_agree {json : SerdeJson} (hjson : Brief json) (w : ListingWorld) (hw : w.sent = [])
    {native live : ShellContext} {walked listed : GetRequest} {walkedRoot listedRoot : Path}
    (hwalked : native.resolvePath walked.path.toList = .ok walkedRoot)
    (hlisted : live.resolvePath listed.path.toList = .ok listedRoot) :
    w.headersSent json native walked = admitted json (w.listing native walkedRoot)
      ∧ w.headersSent json live listed = admitted json (w.listing live listedRoot)
      ∧ AnnouncedFirst (w.headersSent json native walked) ∧ AnnouncedFirst (w.headersSent json live listed)
      ∧ ((∀ h ∈ w.listing native walkedRoot ++ w.listing live listedRoot, Fits json (.newEntry h)) →
        ((w.headersSent json native walked).map plainHeader).Perm
            ((w.headersSent json live listed).map plainHeader)
          ∧ ∀ h, h ∈ (w.headersSent json native walked).map plainHeader
            ↔ ∃ q, q ≠ [] ∧ w.tree.announced q = some h) := by
  have hnative := ListingWorld.headersSent_eq hjson hw hwalked
  have hlive := ListingWorld.headersSent_eq hjson hw hlisted
  obtain ⟨hpermWalked, hwalkedFirst⟩ := w.listing_spec native walkedRoot
  obtain ⟨hpermListed, hlistedFirst⟩ := w.listing_spec live listedRoot
  refine ⟨hnative, hlive, ?_, ?_, ?_⟩
  · rw [hnative]
    exact hwalkedFirst.of_isPrefix (admitted_isPrefix json _)
  · rw [hlive]
    exact hlistedFirst.of_isPrefix (admitted_isPrefix json _)
  · intro hfits
    have hall := admitted_eq_self.mpr fun h hh => hfits h (List.mem_append_left _ hh)
    have hall' := admitted_eq_self.mpr fun h hh => hfits h (List.mem_append_right _ hh)
    rw [hnative, hlive, hall, hall']
    refine ⟨hpermWalked.trans hpermListed.symm, fun h => ?_⟩
    rw [hpermWalked.mem_iff, w.walks.mem_announced]

/-! ### The JSON of a download -/

/-- What `serde_json` writes for a character of a string. -/
def jsonChar (c : Char) : List Char :=
  if c = '\x22' ∨ c = '\\' then ['\\', c]
  else if c = '\x08' then ['\\', 'b']
  else if c = '\t' then ['\\', 't']
  else if c = '\n' then ['\\', 'n']
  else if c = '\x0c' then ['\\', 'f']
  else if c = '\r' then ['\\', 'r']
  else if c.toNat < 32 then ['\\', 'u', '0', '0', (c.toNat / 16).digitChar, (c.toNat % 16).digitChar]
  else [c]

def jsonMode : Option UInt32 → List Char
  | some mode => Nat.toDigits 10 mode.toNat
  | none => ['n', 'u', 'l', 'l']

def jsonReady (ready : TransferReady) : List Char :=
  "\x7b\"size\":".toList ++ (Nat.toDigits 10 ready.size.toNat ++ (",\"mode\":".toList
    ++ (jsonMode ready.mode ++ "\x7d".toList)))

def jsonComplete (complete : TransferComplete) : List Char :=
  "\x7b\"size\":".toList ++ (Nat.toDigits 10 complete.size.toNat ++ "\x7d".toList)

def jsonHeader (header : Wire.EntryHeader) : List Char :=
  "\x7b\"path\":\"".toList ++ (header.path.toList.flatMap jsonChar ++ ("\",\"size\":".toList
    ++ (Nat.toDigits 10 header.size.toNat ++ (",\"mode\":".toList ++ (jsonMode header.mode
      ++ (",\"is_dir\":".toList ++ ((if header.isDir then "true".toList else "false".toList)
        ++ "\x7d".toList)))))))

/-- The JSON of the frames of a download. -/
def downloadJson : SerdeJson where
  toVec
    | .transferReady, ready => .ok (Utf8.encode (jsonReady ready))
    | .transferComplete, complete => .ok (Utf8.encode (jsonComplete complete))
    | .entryComplete, _ => .ok (Utf8.encode ['n', 'u', 'l', 'l'])
    | .entryHeader, header => .ok (Utf8.encode (jsonHeader header))
    | _, _ => .error "unsupported"
  fromSlice _ _ := .error "unsupported"

theorem length_size_le (n : UInt64) : (Nat.toDigits 10 n.toNat).length ≤ 20 := by
  rw [Nat.length_toDigits_le_iff (by omega) (by omega)]
  have hlt := n.toNat_lt
  omega

theorem length_jsonMode_le (mode : Option UInt32) : (jsonMode mode).length ≤ 10 := by
  cases mode with
  | none => decide
  | some mode =>
      rw [jsonMode, Nat.length_toDigits_le_iff (by omega) (by omega)]
      have hlt := mode.toNat_lt
      omega

theorem length_jsonReady (ready : TransferReady) :
    (jsonReady ready).length
      = (Nat.toDigits 10 ready.size.toNat).length + (jsonMode ready.mode).length + 17 := by
  unfold jsonReady
  simp
  omega

theorem length_jsonComplete (complete : TransferComplete) :
    (jsonComplete complete).length = (Nat.toDigits 10 complete.size.toNat).length + 9 := by
  unfold jsonComplete
  simp

theorem length_jsonHeader (header : Wire.EntryHeader) :
    ∃ n ≤ 5, (jsonHeader header).length
      = (header.path.toList.flatMap jsonChar).length + (Nat.toDigits 10 header.size.toNat).length
        + (jsonMode header.mode).length + n + 37 := by
  have hbool : (if header.isDir then "true".toList else "false".toList).length ≤ 5 := by
    split <;> decide
  refine ⟨_, hbool, ?_⟩
  unfold jsonHeader
  simp
  omega

/-- A frame with a short text is within the limit. -/
theorem fits_of_length {frame : TransferFrame} {s : List Char}
    (hpayload : frame.payload downloadJson = .ok (Utf8.encode s))
    (hkind : maxLen frame.kind = maxControlBytes) (hs : s.length ≤ 2048) : Fits downloadJson frame := by
  have hbytes := Utf8.length_encode_le s
  refine ⟨_, hpayload, ?_⟩
  rw [hkind, maxControlBytes]
  omega

theorem downloadJson_brief : Brief downloadJson where
  ready := by
    intro ready
    have hsize := length_size_le ready.size
    have hmode := length_jsonMode_le ready.mode
    refine fits_of_length (s := jsonReady ready) rfl rfl ?_
    rw [length_jsonReady]
    omega
  entryComplete := fun _ => fits_of_length (s := ['n', 'u', 'l', 'l']) rfl rfl (by decide)
  complete := by
    intro complete
    have hsize := length_size_le complete.size
    refine fits_of_length (s := jsonComplete complete) rfl rfl ?_
    rw [length_jsonComplete]
    omega

/-- Where the path is short the header fits. -/
theorem fits_newEntry {header : Wire.EntryHeader}
    (h : (header.path.toList.flatMap jsonChar).length ≤ 1024) : Fits downloadJson (.newEntry header) := by
  have hsize := length_size_le header.size
  have hmode := length_jsonMode_le header.mode
  obtain ⟨n, hn, hlen⟩ := length_jsonHeader header
  refine fits_of_length (s := jsonHeader header) rfl rfl ?_
  rw [hlen]
  omega

/-- Where it is too long the header does not. -/
theorem not_fits_newEntry {header : Wire.EntryHeader}
    (h : maxControlBytes < (header.path.toList.flatMap jsonChar).length) :
    ¬ Fits downloadJson (.newEntry header) := by
  rintro ⟨payload, hpayload, hlen⟩
  have hencoded : Utf8.encode (jsonHeader header) = payload := Except.ok.inj hpayload
  have hmax : maxLen (TransferFrame.newEntry header).kind = maxControlBytes := rfl
  have hbytes := Utf8.length_le_encode (jsonHeader header)
  obtain ⟨n, -, htext⟩ := length_jsonHeader header
  rw [hmax, ← hencoded] at hlen
  rw [htext] at hbytes
  omega

/-- A directory with a file in it, and a link. -/
def linkedTree : DirTree where
  stat := fun q =>
    if q = [nameA] then some (.dir, ⟨4096, 0o40755⟩)
    else if q = [nameA, nameB] then some (.file, ⟨5, 0o100644⟩)
    else if q = [nameB] then some (.symlink, ⟨1, 0o120777⟩)
    else none
  grounded := by
    intro q n h hq
    cases q with
    | nil => exact absurd rfl hq
    | cons a q =>
        cases q with
        | nil =>
            split_ifs at h with h₁ h₂ h₃
            · simp at h₁
            · have ha : a = nameA := (List.cons.inj h₂).1
              exact ⟨⟨4096, 0o40755⟩, if_pos (by rw [ha])⟩
            · simp at h₃
            · exact absurd rfl h
        | cons b q =>
            split_ifs at h with h₁ h₂ h₃
            · simp at h₁
            · simp at h₂
            · simp at h₃
            · exact absurd rfl h
  named := by
    intro q h n hn
    split_ifs at h with h₁ h₂ h₃
    · rw [h₁, List.mem_singleton] at hn
      rw [hn]
      decide
    · rw [h₂, List.mem_cons, List.mem_singleton] at hn
      rcases hn with hn | hn <;> rw [hn] <;> decide
    · rw [h₃, List.mem_singleton] at hn
      rw [hn]
      decide
    · exact absurd rfl h

theorem linkedTree_mem (q : Spot) :
    q ∈ [[nameA], [nameA, nameB], [nameB]] ↔ q ≠ [] ∧ linkedTree.stat q ≠ none := by
  simp only [List.mem_cons, List.not_mem_nil, or_false, linkedTree]
  split_ifs with h₁ h₂ h₃
  · simp [h₁]
  · simp [h₂]
  · simp [h₃]
  · simp [h₁, h₂, h₃]

/-- Parents come first if that is so at every index. -/
theorem parentFirst_of_index {walk : List Spot}
    (h : ∀ i < walk.length, (walk.getD i []).dropLast ≠ [] → (walk.getD i []).dropLast ∈ walk.take i)
    (before : List Spot) (q : Spot) (n : Name) (after : List Spot)
    (hsplit : walk = before ++ (q ++ [n]) :: after) (hq : q ≠ []) : q ∈ before := by
  have hlt : before.length < walk.length := by
    rw [hsplit, List.length_append, List.length_cons]
    omega
  have hget : walk.getD before.length [] = q ++ [n] := by
    rw [hsplit, List.getD_eq_getElem?_getD, List.getElem?_append_right (Nat.le_refl _), Nat.sub_self]
    rfl
  have htake : walk.take before.length = before := by rw [hsplit, List.take_left' rfl]
  have hmem := h before.length hlt
  rw [hget, htake, List.dropLast_concat] at hmem
  exact hmem hq

/-- `find` meets the link first. -/
def linkedWorld : ListingWorld where
  tree := linkedTree
  rootMeta := ⟨4096, 0o40755⟩
  walk := [[nameA], [nameA, nameB], [nameB]]
  found := [[nameB], [nameA], [nameA, nameB]]
  walks := ⟨by decide, linkedTree_mem, parentFirst_of_index (by decide)⟩
  finds :=
    { nodup := by decide
      mem := by
        intro q
        rw [← linkedTree_mem]
        simp only [List.mem_cons, List.not_mem_nil, or_false]
        constructor
        · intro h
          rcases h with h | h | h <;> simp [h]
        · intro h
          rcases h with h | h | h <;> simp [h]
      parentFirst := parentFirst_of_index (by decide) }
  contents := fun _ => [[1, 2, 3, 4, 5]]
  bounded := by
    intro p chunk hchunk
    rw [List.mem_singleton.mp hchunk]
    decide
  sent := []

theorem linkedWorld_fits {context : ShellContext} {root : Path} :
    ∀ h ∈ linkedWorld.listing context root, Fits downloadJson (.newEntry h) := by
  intro h hh
  obtain ⟨q, hne, hsome, hpath⟩ := ListingWorld.listing_path hh
  have hmem := (linkedTree_mem q).mpr ⟨hne, hsome⟩
  refine fits_newEntry ?_
  rw [hpath]
  simp only [List.mem_cons, List.not_mem_nil, or_false] at hmem
  rcases hmem with rfl | rfl | rfl
  · decide
  · decide
  · decide

/-- The directory and the file are announced, the link is not. -/
theorem listings_agree_linked :
    (⟨"a/b", 5, some 0o644, false⟩ : Wire.EntryHeader)
        ∈ (linkedWorld.headersSent downloadJson (.live 1 none none) ⟨"/l", true⟩).map plainHeader
      ∧ AnnouncedFirst (linkedWorld.headersSent downloadJson (.live 1 none none) ⟨"/l", true⟩) := by
  obtain ⟨-, -, -, hfirst, hagree⟩ := @listings_agree downloadJson downloadJson_brief linkedWorld rfl
    (.stateless none) (.live 1 none none) ⟨"/l", true⟩ ⟨"/l", true⟩ (parse ['/', 'l']) (parse ['/', 'l'])
    rfl rfl
  obtain ⟨hperm, htree⟩ := hagree fun h hh => (List.mem_append.mp hh).elim (linkedWorld_fits h)
    (linkedWorld_fits h)
  exact ⟨hperm.mem_iff.mp ((htree _).mpr ⟨[nameA, nameB], List.cons_ne_nil _ _, rfl⟩), hfirst⟩

/-! ### A path that is too long -/

/-- A name that grows in JSON. -/
def nameCtrl : Name := ⟨List.replicate 250 '\x01', by decide⟩

/-- Six directories, each in the one before. -/
def nested : List Spot := (List.range 6).map fun k => List.replicate (k + 1) nameCtrl

theorem mem_nested {q : Spot} : q ∈ nested ↔ ∃ k < 6, List.replicate (k + 1) nameCtrl = q := by
  simp only [nested, List.mem_map, List.mem_range]

theorem nested_contains {q : Spot} :
    nested.contains q ↔ ∃ k < 6, List.replicate (k + 1) nameCtrl = q :=
  List.contains_iff_mem.trans mem_nested

theorem nameA_notMem_nested : [nameA] ∉ nested := by
  intro hmem
  obtain ⟨k, -, hk⟩ := mem_nested.mp hmem
  rw [List.replicate_succ] at hk
  exact absurd (List.cons.inj hk).1 (by decide)

theorem nodup_nested : nested.Nodup := by
  refine List.nodup_range.map fun i j hij => ?_
  have hlen := congrArg List.length hij
  rw [List.length_replicate, List.length_replicate] at hlen
  omega

theorem nested_parent {i : Nat} (hi : i < nested.length) (hne : (nested.getD i []).dropLast ≠ []) :
    (nested.getD i []).dropLast ∈ nested.take i := by
  have hlt : i < 6 := by simpa [nested] using hi
  have hget : nested.getD i [] = List.replicate (i + 1) nameCtrl := by
    simp [nested, List.getD_eq_getElem?_getD, hlt]
  have htake : nested.take i = (List.range i).map fun k => List.replicate (k + 1) nameCtrl := by
    rw [nested, ← List.map_take, List.take_range, Nat.min_eq_left (by omega)]
  rw [hget, List.dropLast_replicate, Nat.add_sub_cancel] at hne ⊢
  cases i with
  | zero => exact absurd rfl hne
  | succ i =>
      rw [htake]
      exact List.mem_map.mpr ⟨i, List.mem_range.mpr (Nat.lt_succ_self i), rfl⟩

/-- The directories, and a file beside the first of them. -/
def nestedTree : DirTree where
  stat := fun q =>
    if q = [nameA] then some (.file, ⟨5, 0o100644⟩)
    else if nested.contains q then some (.dir, ⟨4096, 0o40755⟩)
    else none
  grounded := by
    intro q n h hq
    split_ifs at h with hfile hdir
    · exact absurd (List.append_eq_singleton_iff.mp hfile) (by simp [hq])
    · obtain ⟨k, hk, hreplicate⟩ := nested_contains.mp hdir
      rw [List.replicate_succ', List.append_singleton_inj] at hreplicate
      obtain ⟨hreplicate, -⟩ := hreplicate
      cases k with
      | zero => exact absurd hreplicate.symm hq
      | succ k =>
          have hne : q ≠ [nameA] := by
            rw [← hreplicate, List.replicate_succ]
            intro h
            exact absurd (List.cons.inj h).1 (by decide)
          exact ⟨_, by rw [if_neg hne, if_pos (nested_contains.mpr ⟨k, by omega, hreplicate⟩)]⟩
    · exact absurd rfl h
  named := by
    intro q h n hn
    split_ifs at h with hfile hdir
    · rw [hfile, List.mem_singleton] at hn
      rw [hn]
      decide
    · obtain ⟨k, -, rfl⟩ := nested_contains.mp hdir
      rw [List.eq_of_mem_replicate hn]
      decide
    · exact absurd rfl h

theorem nestedTree_mem (q : Spot) : q = [nameA] ∨ q ∈ nested ↔ q ≠ [] ∧ nestedTree.stat q ≠ none := by
  simp only [nestedTree]
  split_ifs with hfile hdir
  · simp [hfile]
  · have hmem := List.contains_iff_mem.mp hdir
    obtain ⟨k, -, rfl⟩ := mem_nested.mp hmem
    simp [hmem]
  · simp [hfile, mt List.contains_iff_mem.mpr hdir]

/-- The walk meets the file last, and `find` meets it first. -/
def deepWorld : ListingWorld where
  tree := nestedTree
  rootMeta := ⟨4096, 0o40755⟩
  walk := nested ++ [[nameA]]
  found := [nameA] :: nested
  walks :=
    { nodup := List.nodup_append'.mpr ⟨nodup_nested, List.nodup_singleton _,
        List.disjoint_singleton.mpr nameA_notMem_nested⟩
      mem := by
        intro q
        rw [← nestedTree_mem, List.mem_append, List.mem_singleton, or_comm]
      parentFirst := by
        refine parentFirst_of_index fun i hi hne => ?_
        by_cases hlt : i < nested.length
        · have hget : (nested ++ [[nameA]]).getD i [] = nested.getD i [] := by
            rw [List.getD_eq_getElem?_getD, List.getElem?_append_left hlt, List.getD_eq_getElem?_getD]
          rw [hget] at hne ⊢
          rw [List.take_append_of_le_length (Nat.le_of_lt hlt)]
          exact nested_parent hlt hne
        · have hlast : i = nested.length := by
            rw [List.length_append, List.length_singleton] at hi
            omega
          rw [hlast, List.getD_eq_getElem?_getD, List.getElem?_append_right (Nat.le_refl _),
            Nat.sub_self] at hne
          exact absurd rfl hne }
  finds :=
    { nodup := List.nodup_cons.mpr ⟨nameA_notMem_nested, nodup_nested⟩
      mem := by
        intro q
        rw [← nestedTree_mem, List.mem_cons]
      parentFirst := by
        refine parentFirst_of_index fun i hi hne => ?_
        cases i with
        | zero => exact absurd rfl hne
        | succ i =>
            rw [List.getD_cons_succ] at hne ⊢
            rw [List.take_succ_cons]
            exact List.mem_cons_of_mem _ (nested_parent (Nat.lt_of_succ_lt_succ hi) hne) }
  contents := fun _ => [[1, 2, 3, 4, 5]]
  bounded := by
    intro p chunk hchunk
    rw [List.mem_singleton.mp hchunk]
    decide
  sent := []

theorem nestedTree_dir {q : Spot} (hq : q ∈ nested) :
    nestedTree.stat q = some (.dir, ⟨4096, 0o40755⟩) := by
  have hne : q ≠ [nameA] := fun h => nameA_notMem_nested (h ▸ hq)
  exact (if_neg hne).trans (if_pos (List.contains_iff_mem.mpr hq))

theorem nestedTree_walked (root : Path) {q : Spot} (hq : q ∈ nested) :
    Serve.walkedOf root nestedTree q = some ⟨(relPath q).display, root.join (relPath q), true, 0,
      some (0o40755 &&& 0o777)⟩ := by
  rw [Serve.walkedOf, nestedTree_dir hq]

/-- The innermost directory cannot be announced. -/
theorem nested_too_long (size : UInt64) (mode : Option UInt32) :
    ¬ Fits downloadJson (.newEntry ⟨String.ofList (relPath (List.replicate 6 nameCtrl)).display, size, mode,
      true⟩) := by
  refine not_fits_newEntry ?_
  rw [String.toList_ofList]
  decide +kernel

/-- **The limit cuts the two listings off at different places.** -/
theorem listings_cut_off :
    ¬ ((deepWorld.headersSent downloadJson (.stateless none) ⟨"/l", true⟩).map plainHeader).Perm
      ((deepWorld.headersSent downloadJson (.live 1 none none) ⟨"/l", true⟩).map plainHeader) := by
  have hnative : deepWorld.headersSent downloadJson (.stateless none) ⟨"/l", true⟩
      = admitted downloadJson (deepWorld.listing (.stateless none) (parse ['/', 'l'])) :=
    deepWorld.headersSent_eq downloadJson_brief rfl rfl
  have hlive : deepWorld.headersSent downloadJson (.live 1 none none) ⟨"/l", true⟩
      = admitted downloadJson (deepWorld.listing (.live 1 none none) (parse ['/', 'l'])) :=
    deepWorld.headersSent_eq downloadJson_brief rfl rfl
  -- only the live one gets as far as the file
  have hfile : (⟨"a", 5, some 0o644, false⟩ : Wire.EntryHeader)
      ∈ (admitted downloadJson (deepWorld.listing (.live 1 none none) (parse ['/', 'l']))).map
        plainHeader := by
    have hlisting : deepWorld.listing (.live 1 none none) (parse ['/', 'l'])
        = ⟨"a", 5, some 0o644, false⟩
          :: (nested.filterMap (Serve.listedOf (parse ['/', 'l']) nestedTree)).map Client.entryHeader := rfl
    rw [hlisting, admitted_cons_of_fits (fits_newEntry (by decide))]
    exact List.mem_cons_self
  have hdirs : ∀ h ∈ admitted downloadJson (deepWorld.listing (.stateless none) (parse ['/', 'l'])),
      h.isDir = true := by
    intro h hh
    have hsplit : deepWorld.walk = nested.take 5 ++ List.replicate 6 nameCtrl :: [[nameA]] := rfl
    have hinner : List.replicate 6 nameCtrl ∈ nested := mem_nested.mpr ⟨5, by omega, rfl⟩
    have hlisting : deepWorld.listing (.stateless none) (parse ['/', 'l'])
        = (deepWorld.walk.filterMap (Serve.walkedOf (parse ['/', 'l']) nestedTree)).map
          Client.entryHeader := rfl
    rw [hlisting, hsplit, List.filterMap_append, List.filterMap_cons_some (nestedTree_walked _ hinner),
      List.map_append, List.map_cons] at hh
    obtain ⟨entry, hentry, rfl⟩ := List.mem_map.mp (mem_of_mem_admitted (nested_too_long _ _) hh)
    obtain ⟨q, hq, hwalked⟩ := List.mem_filterMap.mp hentry
    rw [nestedTree_walked _ (List.mem_of_mem_take hq)] at hwalked
    cases hwalked
    rfl
  rw [hnative, hlive]
  intro hperm
  obtain ⟨h, hh, hplain⟩ := List.mem_map.mp (hperm.mem_iff.mpr hfile)
  have hdir : h.isDir = false := congrArg Wire.EntryHeader.isDir hplain
  rw [hdirs h hh] at hdir
  cases hdir

end Proof

end Irosh
