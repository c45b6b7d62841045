import Irosh.Proof.Listings
import Irosh.Transfer.FaultyTree

/-!
# Where `find` is cut off

A live walk reads what `find` prints until there is no more of it, and does not look at how
`find` has ended. A record that is cut anywhere is read like any other: the field in which
the output ends loses its last byte, for that is taken to be the NUL, and the fields behind
it are empty. So a name may be announced that nothing has.

Reading is another matter: if that fails the download fails.
-/

namespace Irosh

open UnixPath Wire

namespace RemoteEntry

/-! ## What is announced -/

/-- What the native walk announces of it. -/
def walkedAt (root : Path) (e : RemoteEntry) : Option WalkEntry :=
  if e.fileType = .symlink then none
  else
    some
      { relative := e.shown
        fullPath := root.join (parse e.shown)
        isDir := e.fileType = .dir
        size := if e.fileType = .dir then 0 else e.metadata.len
        mode := some (e.metadata.mode &&& 0o777) }

/-- What the live walk announces of it, where `n` bytes are left of the output. Each field loses its last
byte, which is the NUL if the field is whole; a type that is lost is that of a file. -/
def listedAt (root : Path) (n : Nat) (e : RemoteEntry) : Option WalkEntry :=
  if 1 < n ∧ e.fileType = .symlink then none
  else
    let path := Utf8.decodeLossy (e.path.take (n - 3))
    let size := Utf8.decodeLossy (e.sizeField.take (n - (4 + e.path.length)))
    let mode := Utf8.decodeLossy (e.modeField.take (n - (5 + e.path.length + e.sizeField.length)))
    some
      { relative := path
        fullPath := root.join (parse path)
        isDir := 1 < n ∧ e.fileType = .dir
        size := UInt64.ofNat ((Serve.parseUnsigned 10 (2 ^ 64) size).getD 0)
        mode := (Serve.parseUnsigned 8 (2 ^ 32) mode).map UInt32.ofNat }

/-- What it announces of all that `find` meets, where `n` bytes are left of the output. -/
def listing (root : Path) : Nat → List RemoteEntry → List WalkEntry
  | 0, _ => []
  | _, [] => []
  | n + 1, e :: es => (e.listedAt root (n + 1)).toList ++ listing root (n + 1 - e.printed.length) es

/-! ## Output that ends anywhere -/

theorem zero_notMem_sizeField (e : RemoteEntry) : (0 : UInt8) ∉ e.sizeField :=
  Serve.zero_notMem_digits (by omega) (by omega) _

theorem zero_notMem_modeField (e : RemoteEntry) : (0 : UInt8) ∉ e.modeField :=
  Serve.zero_notMem_digits (by omega) (by omega) _

theorem zero_notMem_letter (e : RemoteEntry) : (0 : UInt8) ∉ Utf8.encode [e.fileType.letter] := by
  refine Utf8.zero_notMem_encode ?_
  cases e.fileType <;> decide

theorem length_letter (e : RemoteEntry) : (Utf8.encode [e.fileType.letter]).length = 1 := by
  cases e.fileType <;> rfl

theorem length_printed (e : RemoteEntry) :
    e.printed.length = 5 + e.path.length + e.sizeField.length + e.modeField.length := by
  simp only [printed, List.length_append, List.length_cons, List.length_nil, e.length_letter]
  omega

/-- The letter is there unless the output ends with it. -/
theorem letter_cut (e : RemoteEntry) (n : Nat) (c : Char) (fileType : FileType)
    (hc : ∀ t : FileType, t.letter = c ↔ t = fileType) :
    Utf8.decodeLossy ((Utf8.encode [e.fileType.letter]).take n) = [c] ↔ 0 < n ∧ e.fileType = fileType := by
  cases n with
  | zero => exact iff_of_false (by simp [Utf8.decodeLossy, Utf8.decodeFuel]) fun h => Nat.lt_irrefl 0 h.1
  | succ n =>
      rw [List.take_of_length_le (by rw [e.length_letter]; omega), Utf8.decodeLossy_encode]
      simp only [List.cons.injEq, and_true, Nat.succ_pos, true_and, hc]

theorem recordEntry_cut (root : Path) (e : RemoteEntry) (n : Nat) :
    Serve.recordEntry root (Utf8.decodeLossy ((Utf8.encode [e.fileType.letter]).take n))
      (Utf8.decodeLossy (e.path.take (n - (1 + 1))))
      (Utf8.decodeLossy (e.sizeField.take (n - (1 + e.path.length + 2))))
      (Utf8.decodeLossy (e.modeField.take (n - (1 + e.path.length + e.sizeField.length + 3))))
      = e.listedAt root (n + 1) := by
  have hlink := e.letter_cut n 'l' .symlink fun t => by cases t <;> decide
  have hdir := e.letter_cut n 'd' .dir fun t => by cases t <;> decide
  have hpath : n + 1 - 3 = n - (1 + 1) := by omega
  have hsize : n + 1 - (4 + e.path.length) = n - (1 + e.path.length + 2) := by omega
  have hmode : n + 1 - (5 + e.path.length + e.sizeField.length)
      = n - (1 + e.path.length + e.sizeField.length + 3) := by omega
  unfold Serve.recordEntry listedAt
  simp only [hlink, hdir, hpath, hsize, hmode, Nat.lt_add_left_iff_pos]

/-- **One record, as far as there are bytes.** -/
theorem findEntries_printed (root : Path) (e : RemoteEntry) (n fuel : Nat) (bytes : List UInt8) :
    Serve.findEntries root false (fuel + 1) ((e.printed ++ bytes).take (n + 1))
      = ((e.listedAt root (n + 1)).toList
          ++ (Serve.findEntries root false fuel (bytes.take (n + 1 - e.printed.length))).1,
        (Serve.findEntries root false fuel (bytes.take (n + 1 - e.printed.length))).2) := by
  have hprinted : e.printed ++ bytes = Utf8.encode [e.fileType.letter]
      ++ 0 :: (e.path ++ 0 :: (e.sizeField ++ 0 :: (e.modeField ++ 0 :: bytes))) := by
    simp only [printed, List.append_assoc, List.cons_append, List.nil_append]
  have hlen : e.printed.length = (Utf8.encode [e.fileType.letter]).length + e.path.length
      + e.sizeField.length + e.modeField.length + 4 := by
    rw [e.length_printed, e.length_letter]
    omega
  rw [hprinted, Serve.findEntries_record root e.zero_notMem_letter e.noNul e.zero_notMem_sizeField
    e.zero_notMem_modeField hlen, e.length_letter, e.recordEntry_cut]

/-- Where the output is whole, the names are whole. -/
theorem listing_shown {root : Path} {n : Nat} {es : List RemoteEntry} (hn : (es.flatMap printed).length ≤ n)
    {entry : WalkEntry} (h : entry ∈ listing root n es) : ∃ e ∈ es, entry.relative = e.shown := by
  induction es generalizing n with
  | nil => cases n <;> exact absurd h List.not_mem_nil
  | cons e es ih =>
      rw [List.flatMap_cons, List.length_append] at hn
      have hlen := e.length_printed
      cases n with
      | zero => exact absurd h List.not_mem_nil
      | succ n =>
          rcases List.mem_append.mp h with hthis | hrest
          · refine ⟨e, List.mem_cons_self, ?_⟩
            rw [Option.mem_toList, listedAt] at hthis
            split at hthis
            · cases hthis
            · cases hthis
              dsimp only
              rw [List.take_of_length_le (by omega), shown]
          · obtain ⟨e', he', hshown⟩ := ih (by omega) hrest
            exact ⟨e', List.mem_cons_of_mem _ he', hshown⟩

/-- **The whole output, as far as there are bytes.** -/
theorem findEntries_output (root : Path) (es : List RemoteEntry) (n : Nat) {fuel : Nat}
    (hfuel : ((es.flatMap printed).take n).length < fuel) :
    Serve.findEntries root false fuel ((es.flatMap printed).take n) = (listing root n es, false) := by
  induction es generalizing n fuel with
  | nil =>
      cases fuel with
      | zero => exact absurd hfuel (Nat.not_lt_zero _)
      | succ fuel =>
          rw [List.flatMap_nil, List.take_nil]
          cases n <;> rfl
  | cons e es ih =>
      cases fuel with
      | zero => exact absurd hfuel (Nat.not_lt_zero _)
      | succ fuel =>
          cases n with
          | zero => rfl
          | succ n =>
              have hpos : 0 < e.printed.length := by
                rw [e.length_printed]
                omega
              have hrest : ((es.flatMap printed).take (n + 1 - e.printed.length)).length < fuel := by
                rw [List.flatMap_cons, List.length_take, List.length_append] at hfuel
                rw [List.length_take]
                omega
              rw [List.flatMap_cons, findEntries_printed, ih _ hrest]
              rfl

end RemoteEntry

namespace Serve

theorem readUntil_broken {bytes buf rest : List UInt8} (h : readUntil true bytes = some (buf, rest)) :
    buf ≠ [] ∧ rest.length < bytes.length := by
  unfold readUntil at h
  split at h
  · rename_i b rest' hdrop
    obtain ⟨hbuf, rfl⟩ := Prod.mk.inj (Option.some.inj h)
    have hle := List.length_dropWhile_le (· ≠ 0) bytes
    rw [hdrop, List.length_cons] at hle
    exact ⟨by rw [← hbuf]; simp, hle⟩
  · cases h

/-- A read that fails is noticed, wherever it does. -/
theorem findEntries_broken (root : Path) {fuel : Nat} {bytes : List UInt8} (h : bytes.length < fuel) :
    (findEntries root true fuel bytes).2 = true := by
  induction fuel generalizing bytes with
  | zero => exact absurd h (Nat.not_lt_zero _)
  | succ fuel ih =>
      rw [findEntries]
      split
      · rfl
      · rename_i htype
        exact absurd rfl (readUntil_broken htype).1
      · rename_i type bytes₁ hne htype
        split
        · rfl
        · rename_i path bytes₂ hpath
          split
          · rfl
          · rename_i size bytes₃ hsize
            split
            · rfl
            · rename_i mode bytes₄ hmode
              have htypeLen := (readUntil_broken htype).2
              have hpathLen := (readUntil_broken hpath).2
              have hsizeLen := (readUntil_broken hsize).2
              have hmodeLen := (readUntil_broken hmode).2
              exact ih (by omega)

end Serve

/-! ## What the native walk collects -/

namespace RemoteEntry

theorem shown_ne (e : RemoteEntry) : e.shown ≠ [] := by
  have hne := e.named
  unfold shown Utf8.decodeLossy
  cases hpath : e.path with
  | nil => exact absurd hpath hne
  | cons b bytes =>
      rw [List.length_cons, Utf8.decodeFuel]
      exact List.cons_ne_nil _ _

theorem walkedEntry_walked (root : Path) (e : RemoteEntry) :
    Serve.walkedEntry root e.walked = some (e.walkedAt root) := by
  have hdisplay : (parse e.shown).display = e.shown := e.normal
  unfold Serve.walkedEntry walkedAt walked
  dsimp only
  rw [hdisplay, if_neg e.shown_ne]
  split <;> rfl

theorem collectTree_walked (root : Path) (walk : List RemoteEntry) :
    Serve.collectTree root (walk.map fun e => some e.walked) = some (walk.filterMap (walkedAt root)) := by
  induction walk with
  | nil => rfl
  | cons e walk ih =>
      rw [List.map_cons, Serve.collectTree, e.walkedEntry_walked, ih]
      cases hentry : e.walkedAt root with
      | none =>
          rw [List.filterMap_cons_none hentry]
          rfl
      | some entry =>
          rw [List.filterMap_cons_some hentry]
          rfl

end RemoteEntry

end Irosh
