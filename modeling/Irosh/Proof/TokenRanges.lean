import Irosh.Input.CompleteLine
import Irosh.Proof.MetadataFields

/-!
# Where the tokens of a line lie

The tokenizer is one pass over the line. What it carries along, seen from outside, is the
words it has finished and where the word it is in began: quotes and escapes decide only
whether a whitespace ends that word. So the invariant is about these two, and about the part
of the line that has been read.
-/

namespace Irosh

namespace CompleteLine

open Metadata

/-! ## Boundaries -/

/-- Whole characters take up the first `n` bytes. -/
def Boundary (s : List Char) (n : Nat) : Prop := ∃ front back, s = front ++ back ∧ byteLen front = n

theorem boundary_zero (s : List Char) : Boundary s 0 := ⟨[], s, rfl, rfl⟩

theorem boundary_byteLen (s : List Char) : Boundary s (byteLen s) := ⟨s, [], (List.append_nil s).symm, rfl⟩

theorem Boundary.append {s : List Char} {n : Nat} (h : Boundary s n) (t : List Char) :
    Boundary (s ++ t) n := by
  obtain ⟨front, back, rfl, hlen⟩ := h
  exact ⟨front, back ++ t, List.append_assoc front back t, hlen⟩

theorem Boundary.le {s : List Char} {n : Nat} (h : Boundary s n) : n ≤ byteLen s := by
  obtain ⟨front, back, rfl, rfl⟩ := h
  rw [byteLen_append]
  omega

/-- A first character takes up some of the bytes. -/
theorem byteLen_succ (c : Char) (s : List Char) :
    ∃ n, byteLen (c :: s) = n + 1 ∧ c.utf8Size ≤ n + 1 ∧ n + 1 - c.utf8Size = byteLen s := by
  have hpos := c.utf8Size_pos
  rw [byteLen_cons]
  exact ⟨c.utf8Size + byteLen s - 1, by omega, by omega, by omega⟩

theorem byteLen_eq_zero {s : List Char} (h : byteLen s = 0) : s = [] := by
  cases s with
  | nil => rfl
  | cons c s =>
      obtain ⟨n, hn, -⟩ := byteLen_succ c s
      omega

theorem takeBytes_append (front back : List Char) :
    takeBytes (byteLen front) (front ++ back) = some front := by
  induction front with
  | nil =>
      rw [byteLen_nil]
      unfold takeBytes
      rfl
  | cons c front ih =>
      obtain ⟨n, hn, hle, hrest⟩ := byteLen_succ c front
      rw [hn, List.cons_append, takeBytes, if_pos hle, hrest, ih]
      rfl

theorem dropBytes_append (front back : List Char) :
    dropBytes (byteLen front) (front ++ back) = some back := by
  induction front with
  | nil =>
      rw [byteLen_nil]
      unfold dropBytes
      rfl
  | cons c front ih =>
      obtain ⟨n, hn, hle, hrest⟩ := byteLen_succ c front
      rw [hn, List.cons_append, dropBytes, if_pos hle, hrest, ih]

/-- The slice up to `n` does not panic exactly at a boundary. -/
theorem isCharBoundary_iff (s : List Char) (n : Nat) : isCharBoundary s n = true ↔ Boundary s n := by
  unfold isCharBoundary
  constructor
  · intro h
    obtain ⟨t, back, ht, hs, hlen, -⟩ | ⟨ht, -, -⟩ | ⟨ht, -, -⟩ := takeBytes_cases n s
    · exact ⟨t, back, hs, hlen⟩
    · rw [ht] at h
      cases h
    · rw [ht] at h
      cases h
  · intro h
    obtain ⟨front, back, rfl, rfl⟩ := h
    rw [takeBytes_append]
    rfl

/-- Two boundaries cut a text in three. -/
theorem boundary_between {s : List Char} {a b : Nat} (ha : Boundary s a) (hb : Boundary s b) (hle : a ≤ b) :
    ∃ front mid back, s = front ++ mid ++ back ∧ byteLen front = a ∧ byteLen (front ++ mid) = b := by
  obtain ⟨front, rest, rfl, rfl⟩ := ha
  obtain ⟨upTo, back, heq, rfl⟩ := hb
  obtain ⟨mid, hup, -⟩ | ⟨extra, hfront, hback⟩ := List.append_eq_append_iff.mp heq
  · subst hup
    exact ⟨front, mid, back, by rw [heq], rfl, rfl⟩
  · -- the second cut is not before the first, so they are the same
    subst hfront
    have hextra : extra = [] := by
      refine byteLen_eq_zero ?_
      rw [byteLen_append] at hle
      omega
    subst hextra
    exact ⟨upTo, [], rest, by simp, by simp, by simp⟩

/-- The greatest boundary that is not above `n`. -/
theorem floorBoundary_spec (s : List Char) (n : Nat) :
    Boundary s (floorBoundary s n) ∧ floorBoundary s n ≤ n
      ∧ ∀ m, m ≤ n → Boundary s m → m ≤ floorBoundary s n := by
  induction n with
  | zero => exact ⟨boundary_zero s, Nat.le_refl _, fun m hm _ => hm⟩
  | succ n ih =>
      rw [floorBoundary]
      split
      · rename_i hb
        exact ⟨(isCharBoundary_iff s _).mp hb, Nat.le_refl _, fun m hm _ => hm⟩
      · rename_i hb
        refine ⟨ih.1, Nat.le_succ_of_le ih.2.1, fun m hm hbm => ?_⟩
        have hne : m ≠ n + 1 := by
          intro heq
          exact hb ((isCharBoundary_iff s _).mpr (heq ▸ hbm))
        exact ih.2.2 m (by omega) hbm

/-! ## Words -/

/-- A token that takes up some of the text. -/
structure Word (s : List Char) (t : Token) : Prop where
  starts : Boundary s t.rawStart
  ends : Boundary s t.rawEnd
  nonempty : t.rawStart < t.rawEnd

theorem Word.append {s : List Char} {t : Token} (h : Word s t) (rest : List Char) : Word (s ++ rest) t :=
  ⟨h.starts.append rest, h.ends.append rest, h.nonempty⟩

/-- A byte lies in one of the tokens. -/
def Covered (tokens : List Token) (i : Nat) : Prop := ∃ t ∈ tokens, t.rawStart ≤ i ∧ i < t.rawEnd

/-- The words of a text: they follow one another, and all that lies outside is whitespace. -/
structure Words (s : List Char) (tokens : List Token) : Prop where
  words : ∀ t ∈ tokens, Word s t
  sorted : tokens.Pairwise fun a b => a.rawEnd < b.rawStart
  gaps : ∀ front c back, s = front ++ c :: back →
    isWhitespace c = true ∨ Covered tokens (byteLen front)

/-- What the pass has found in the part of the line it has read: words, and where the word it is in
began. -/
structure Scanned (s : List Char) (tokens : List Token) (tokenStart : Option Nat) : Prop where
  words : ∀ t ∈ tokens, Word s t
  sorted : tokens.Pairwise fun a b => a.rawEnd < b.rawStart
  opened : ∀ start, tokenStart = some start → Boundary s start ∧ start < byteLen s
    ∧ ∀ t ∈ tokens, t.rawEnd < start
  closed : tokenStart = none → ∀ t ∈ tokens, t.rawEnd < byteLen s
  gaps : ∀ front c back, s = front ++ c :: back → isWhitespace c = true ∨ Covered tokens (byteLen front)
    ∨ ∃ start, tokenStart = some start ∧ start ≤ byteLen front

variable {s : List Char} {scan : Scan} {c : Char}

theorem scanned_init : Scanned [] [] none where
  words t ht := nomatch ht
  sorted := List.Pairwise.nil
  opened start hstart := nomatch hstart
  closed _ t ht := nomatch ht
  gaps front c back heq := by simp at heq

/-- A character in a text with one more: it is the last one, or one of the others. -/
theorem split_snoc {front back : List Char} {d : Char} (heq : s ++ [c] = front ++ d :: back) :
    (front = s ∧ d = c ∧ back = []) ∨ ∃ back', s = front ++ d :: back' := by
  cases back using List.reverseRecOn with
  | nil =>
      obtain ⟨hs, hc⟩ := List.append_inj' heq rfl
      exact .inl ⟨hs.symm, (List.cons.inj hc).1.symm, rfl⟩
  | append_singleton back' e =>
      have heq' : s ++ [c] = (front ++ d :: back') ++ [e] := by rw [heq]; simp
      exact .inr ⟨back', (List.append_inj' heq' rfl).1⟩

/-- The word the pass is in ends with what has been read. -/
theorem Scanned.finish (h : Scanned s scan.tokens scan.tokenStart) :
    Words s (scan.finishToken (byteLen s)).tokens := by
  unfold Scan.finishToken
  cases hstart : scan.tokenStart with
  | none =>
      refine ⟨h.words, h.sorted, fun front c back heq => ?_⟩
      obtain hw | hcov | ⟨start, hsome, -⟩ := h.gaps front c back heq
      · exact .inl hw
      · exact .inr hcov
      · rw [hstart] at hsome
        cases hsome
  | some start =>
      obtain ⟨hb, hlt, hafter⟩ := h.opened start hstart
      refine ⟨fun t ht => ?_, ?_, fun front c back heq => ?_⟩
      · obtain ht | ht := List.mem_append.mp ht
        · exact h.words t ht
        · rw [List.mem_singleton.mp ht]
          exact ⟨hb, boundary_byteLen s, hlt⟩
      · refine List.pairwise_append.mpr ⟨h.sorted, List.pairwise_singleton _ _, fun t ht last hlast => ?_⟩
        rw [List.mem_singleton.mp hlast]
        exact hafter t ht
      · obtain hw | ⟨t, ht, hcov⟩ | ⟨start', hsome, hle⟩ := h.gaps front c back heq
        · exact .inl hw
        · exact .inr ⟨t, List.mem_append_left _ ht, hcov⟩
        · -- a character of the last word
          rw [hstart] at hsome
          cases hsome
          refine .inr ⟨_, List.mem_append_right _ (List.mem_singleton.mpr rfl), hle, ?_⟩
          have hpos := c.utf8Size_pos
          show byteLen front < byteLen s
          rw [heq, byteLen_append, byteLen_cons]
          omega

/-- A whitespace between words. -/
theorem Words.space {tokens : List Token} (h : Words s tokens) (hc : isWhitespace c = true) :
    Scanned (s ++ [c]) tokens none where
  words t ht := (h.words t ht).append [c]
  sorted := h.sorted
  opened start hstart := nomatch hstart
  closed _ t ht := by
    have hle := (h.words t ht).ends.le
    have hpos := c.utf8Size_pos
    rw [byteLen_append, byteLen_cons, byteLen_nil]
    omega
  gaps front d back heq := by
    obtain ⟨rfl, rfl, -⟩ | ⟨back', hs⟩ := split_snoc heq
    · exact .inl hc
    · obtain hw | hcov := h.gaps front d back' hs
      · exact .inl hw
      · exact .inr (.inl hcov)

/-- A character of a word. -/
theorem Scanned.inWord {tokens : List Token} {tokenStart : Option Nat} (h : Scanned s tokens tokenStart)
    (c : Char) : Scanned (s ++ [c]) tokens (some (tokenStart.getD (byteLen s))) where
  words t ht := (h.words t ht).append [c]
  sorted := h.sorted
  opened start hstart := by
    have hpos := c.utf8Size_pos
    rw [byteLen_append, byteLen_cons, byteLen_nil]
    cases tokenStart with
    | none =>
        cases hstart
        exact ⟨(boundary_byteLen s).append [c], by show byteLen s < _; omega, h.closed rfl⟩
    | some first =>
        cases hstart
        obtain ⟨hb, hlt, hafter⟩ := h.opened first rfl
        exact ⟨hb.append [c], by show first < _; omega, hafter⟩
  closed hnone := nomatch hnone
  gaps front d back heq := by
    obtain ⟨rfl, rfl, -⟩ | ⟨back', hs⟩ := split_snoc heq
    · refine .inr (.inr ⟨_, rfl, ?_⟩)
      cases tokenStart with
      | none => exact Nat.le_refl _
      | some first => exact Nat.le_of_lt (h.opened first rfl).2.1
    · obtain hw | hcov | ⟨start, rfl, hle⟩ := h.gaps front d back' hs
      · exact .inl hw
      · exact .inr (.inl hcov)
      · exact .inr (.inr ⟨start, rfl, hle⟩)

namespace Scan

theorem begin_spec (scan : Scan) (index : Nat) :
    (scan.begin index).tokens = scan.tokens
      ∧ (scan.begin index).tokenStart = some (scan.tokenStart.getD index) := by
  unfold begin
  cases h : scan.tokenStart with
  | none => exact ⟨rfl, rfl⟩
  | some start => exact ⟨rfl, h⟩

/-- A character belongs to a word, or it is a whitespace that ends one. -/
theorem step_cases (scan : Scan) (index : Nat) (ch : Char) :
    ((scan.step index ch).tokens = scan.tokens
        ∧ (scan.step index ch).tokenStart = some (scan.tokenStart.getD index))
      ∨ (isWhitespace ch = true ∧ scan.step index ch = scan.finishToken index) := by
  have hbegin := scan.begin_spec index
  unfold step
  split
  · exact .inl hbegin
  · split
    · exact .inl hbegin
    · split
      · exact .inl hbegin
      · split
        · exact .inl hbegin
        · split
          · rename_i hspace
            exact .inr ⟨hspace.1, rfl⟩
          · exact .inl hbegin

theorem finishToken_tokenStart (scan : Scan) (tail : Nat) : (scan.finishToken tail).tokenStart = none := by
  unfold finishToken
  cases h : scan.tokenStart with
  | none => exact h
  | some start => rfl

theorem step_scanned (h : Scanned s scan.tokens scan.tokenStart) (c : Char) :
    Scanned (s ++ [c]) (scan.step (byteLen s) c).tokens (scan.step (byteLen s) c).tokenStart := by
  obtain ⟨htokens, hstart⟩ | ⟨hspace, hstep⟩ := scan.step_cases (byteLen s) c
  · rw [htokens, hstart]
    exact h.inWord c
  · rw [hstep, finishToken_tokenStart]
    exact h.finish.space hspace

theorem run_scanned (rest : List Char) (h : Scanned s scan.tokens scan.tokenStart) :
    Scanned (s ++ rest) (scan.run (byteLen s) rest).tokens (scan.run (byteLen s) rest).tokenStart := by
  induction rest generalizing s scan with
  | nil => simpa [run] using h
  | cons c rest ih =>
      have hrun := ih (step_scanned h c)
      have hlen : byteLen (s ++ [c]) = byteLen s + c.utf8Size := by
        rw [byteLen_append, byteLen_cons, byteLen_nil]
        omega
      rw [hlen, List.append_assoc] at hrun
      exact hrun

end Scan

/-! ## The parsed line -/

/-- What the loop of `parse_line` finds. -/
def wordsOf (raw : List Char) : List Token := ((Scan.init.run 0 raw).finishToken (byteLen raw)).tokens

theorem wordsOf_words (raw : List Char) : Words raw (wordsOf raw) :=
  (@Scan.run_scanned [] Scan.init raw scanned_init).finish

/-- What `parse_line` makes of a line. -/
theorem parseLine_spec (raw : List Char) (cursor : Nat) :
    ∃ extra, parseLine raw cursor
        = some ⟨raw, floorBoundary raw (min cursor (byteLen raw)), wordsOf raw ++ extra⟩
      ∧ (extra = [] ∨ extra = [⟨floorBoundary raw (min cursor (byteLen raw)),
          floorBoundary raw (min cursor (byteLen raw)), []⟩]) := by
  obtain ⟨front, back, hraw, hlen⟩ := (floorBoundary_spec raw (min cursor (byteLen raw))).1
  have hbefore : takeBytes (floorBoundary raw (min cursor (byteLen raw))) raw = some front := by
    have htake := takeBytes_append front back
    rwa [← hraw, hlen] at htake
  have hparse : parseLine raw cursor = some ⟨raw, floorBoundary raw (min cursor (byteLen raw)),
      if front.getLast?.any isWhitespace then
        wordsOf raw ++ [⟨floorBoundary raw (min cursor (byteLen raw)),
          floorBoundary raw (min cursor (byteLen raw)), []⟩]
      else wordsOf raw⟩ := by
    simp only [parseLine, hbefore]
    rfl
  cases hspace : front.getLast?.any isWhitespace with
  | true =>
      rw [hspace, if_pos rfl] at hparse
      exact ⟨_, hparse, .inr rfl⟩
  | false =>
      rw [hspace, if_neg Bool.false_ne_true] at hparse
      exact ⟨[], by rw [hparse, List.append_nil], .inl rfl⟩

/-- A replacement between two boundaries. -/
theorem replaceRange_between {parsed : ParsedLine} {front mid back : List Char}
    (hraw : parsed.raw = front ++ mid ++ back) (replacement : List Char) :
    replaceRange parsed (byteLen front) (byteLen (front ++ mid)) replacement
      = some ⟨front ++ replacement ++ back, byteLen (front ++ replacement)⟩ := by
  have htake : takeBytes (byteLen front) parsed.raw = some front := by
    rw [hraw, List.append_assoc]
    exact takeBytes_append front (mid ++ back)
  have hdrop : dropBytes (byteLen (front ++ mid)) parsed.raw = some back := by
    rw [hraw]
    exact dropBytes_append (front ++ mid) back
  unfold replaceRange
  rw [htake, hdrop, byteLen_append front replacement]
  rfl

end CompleteLine

namespace Proof

open CompleteLine Metadata

/--
**The ranges of the tokens are sound.**

For every line and cursor the line is parsed: the cursor is moved down to the nearest boundary,
the words lie at boundaries one after the other with nothing but whitespace outside, and
there may be an empty token at the cursor besides. Replacing any token replaces exactly its
range, and leaves the cursor behind the replacement.
-/
theorem token_ranges_sound (raw : List Char) (cursor : Nat) :
    ∃ parsed words extra, parseLine raw cursor = some parsed
      ∧ parsed.raw = raw
      ∧ (Boundary raw parsed.cursor ∧ parsed.cursor ≤ cursor
        ∧ ∀ n, n ≤ cursor → Boundary raw n → n ≤ parsed.cursor)
      ∧ parsed.tokens = words ++ extra
      ∧ (extra = [] ∨ extra = [⟨parsed.cursor, parsed.cursor, []⟩])
      ∧ Words raw words
      ∧ ∀ t ∈ parsed.tokens, ∀ replacement, ∃ front mid back, raw = front ++ mid ++ back
        ∧ byteLen front = t.rawStart ∧ byteLen (front ++ mid) = t.rawEnd
        ∧ replaceRange parsed t.rawStart t.rawEnd replacement
          = some ⟨front ++ replacement ++ back, byteLen (front ++ replacement)⟩ := by
  obtain ⟨extra, hparse, hextra⟩ := parseLine_spec raw cursor
  have hwords := wordsOf_words raw
  obtain ⟨hb, hle, hmax⟩ := floorBoundary_spec raw (min cursor (byteLen raw))
  refine ⟨_, wordsOf raw, extra, hparse, rfl, ⟨hb, by show floorBoundary _ _ ≤ _; omega, fun n hn hbn => ?_⟩,
    rfl, hextra, hwords, fun t ht replacement => ?_⟩
  · have hlen := hbn.le
    exact hmax n (by omega) hbn
  · have hrange : Boundary raw t.rawStart ∧ Boundary raw t.rawEnd ∧ t.rawStart ≤ t.rawEnd := by
      obtain ht | ht := List.mem_append.mp ht
      · have hword := hwords.words t ht
        exact ⟨hword.starts, hword.ends, Nat.le_of_lt hword.nonempty⟩
      · obtain rfl | rfl := hextra
        · cases ht
        · rw [List.mem_singleton.mp ht]
          exact ⟨hb, hb, Nat.le_refl _⟩
    obtain ⟨front, mid, back, hraw, hstart, htail⟩ := boundary_between hrange.1 hrange.2.1 hrange.2.2
    refine ⟨front, mid, back, hraw, hstart, htail, ?_⟩
    rw [← hstart, ← htail]
    exact replaceRange_between hraw replacement

end Proof

end Irosh
