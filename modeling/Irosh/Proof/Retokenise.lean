import Mathlib.Data.List.Pairwise
import Irosh.Lib.Quoted
import Irosh.Proof.TokenRanges

/-!
# A line is read again

What the tokenizer reads as a word depends on the text of the word only: it begins outside of
all quotes, and ends at the first whitespace that is neither quoted nor escaped, or with the
line. So a word that is replaced is read again as what stands there now, and its value is what
the quotes leave of it.
-/

namespace Irosh

namespace CompleteLine

open Metadata Quoted

/-! ## One pass over a text -/

namespace Scan

def quotes (scan : Scan) : Quotes := ⟨scan.inSingle, scan.inDouble, scan.escaped⟩

/-- In a word of which this much has been read. -/
def inWord (scan : Scan) (start : Nat) (q : Quotes) (value : List Char) : Scan :=
  ⟨scan.tokens, some start, value, q.single, q.double, q.escaped⟩

/-- What a step does to a word is what reading the character does. -/
theorem step_eq (scan : Scan) (index : Nat) (c : Char) :
    (readChar isWhitespace scan.quotes c = none ∧ scan.step index c = scan.finishToken index)
      ∨ ∃ q out, readChar isWhitespace scan.quotes c = some (q, out)
        ∧ scan.step index c = scan.inWord (scan.tokenStart.getD index) q (scan.tokenValue ++ out) := by
  obtain ⟨tokens, tokenStart, tokenValue, inSingle, inDouble, escaped⟩ := scan
  have hbegin : (⟨tokens, tokenStart, tokenValue, inSingle, inDouble, escaped⟩ : Scan).begin index
      = ⟨tokens, some (tokenStart.getD index), tokenValue, inSingle, inDouble, escaped⟩ := by
    cases tokenStart with
    | none => rfl
    | some start => rfl
  unfold step readChar quotes
  rw [hbegin]
  dsimp only
  split
  · exact .inr ⟨_, _, rfl, rfl⟩
  · split
    · exact .inr ⟨_, _, rfl, by rw [List.append_nil]; rfl⟩
    · split
      · exact .inr ⟨_, _, rfl, by rw [List.append_nil]; rfl⟩
      · split
        · exact .inr ⟨_, _, rfl, by rw [List.append_nil]; rfl⟩
        · split
          · exact .inl ⟨rfl, rfl⟩
          · exact .inr ⟨_, _, rfl, rfl⟩

theorem run_append (scan : Scan) (index : Nat) (s t : List Char) :
    scan.run index (s ++ t) = (scan.run index s).run (index + byteLen s) t := by
  induction s generalizing scan index with
  | nil => rfl
  | cons c s ih =>
      rw [List.cons_append, run, run, ih, byteLen_cons, Nat.add_assoc]

/-- Reading on in a word. -/
theorem run_inWord {s v w : List Char} {q q' : Quotes} (scan : Scan) (start index : Nat)
    (h : readWord isWhitespace q s = some (q', v)) :
    (scan.inWord start q w).run index s = scan.inWord start q' (w ++ v) := by
  induction s generalizing q v w index with
  | nil =>
      cases h
      rw [run, List.append_nil]
  | cons c s ih =>
      obtain ⟨mid, out, rest, hc, hrest, rfl⟩ := readWord_cons_inv h
      obtain ⟨hnone, -⟩ | ⟨q₁, out₁, hsome, hstep⟩ := (scan.inWord start q w).step_eq index c
      · cases hc.symm.trans hnone
      · cases hc.symm.trans hsome
        rw [run, hstep]
        show (scan.inWord start mid (w ++ out)).run _ s = _
        rw [ih _ hrest, List.append_assoc]

/-- A token that has been found stays. -/
theorem mem_finishToken {scan : Scan} {t : Token} (h : t ∈ scan.tokens) (tail : Nat) :
    t ∈ (scan.finishToken tail).tokens := by
  unfold finishToken
  split
  · exact h
  · exact List.mem_append_left _ h

theorem mem_run {scan : Scan} {t : Token} (h : t ∈ scan.tokens) (index : Nat) (s : List Char) :
    t ∈ (scan.run index s).tokens := by
  induction s generalizing scan index with
  | nil => exact h
  | cons c s ih =>
      rw [run]
      refine ih ?_ _
      obtain ⟨-, hstep⟩ | ⟨q, out, -, hstep⟩ := scan.step_eq index c
      · rw [hstep]
        exact mem_finishToken h index
      · rw [hstep]
        exact h

/-- A word the pass is in ends behind what has been read. -/
theorem exists_token {scan : Scan} {start : Nat} (h : scan.tokenStart = some start) (index : Nat)
    (s : List Char) :
    ∃ t ∈ ((scan.run index s).finishToken (index + byteLen s)).tokens, t.rawStart = start
      ∧ index ≤ t.rawEnd := by
  induction s generalizing scan index with
  | nil =>
      refine ⟨⟨start, index, scan.tokenValue⟩, ?_, rfl, Nat.le_refl _⟩
      rw [run, finishToken, h]
      exact List.mem_append_right _ (List.mem_singleton.mpr rfl)
  | cons c s ih =>
      obtain ⟨-, hstep⟩ | ⟨q, out, -, hstep⟩ := scan.step_eq index c
      · have hmem : (⟨start, index, scan.tokenValue⟩ : Token) ∈ (scan.step index c).tokens := by
          rw [hstep, finishToken, h]
          exact List.mem_append_right _ (List.mem_singleton.mpr rfl)
        rw [run]
        exact ⟨_, mem_finishToken (mem_run hmem _ s) _, rfl, Nat.le_refl _⟩
      · have hstart : (scan.step index c).tokenStart = some start := by
          rw [hstep, h]
          rfl
        obtain ⟨t, ht, heq, hle⟩ := ih hstart (index + c.utf8Size)
        rw [Nat.add_assoc, ← byteLen_cons] at ht
        exact ⟨t, ht, heq, by omega⟩

end Scan

/-- What the pass carries behind a text. -/
def behind (s : List Char) : Scan := Scan.init.run 0 s

theorem wordsOf_eq (raw : List Char) : wordsOf raw = ((behind raw).finishToken (byteLen raw)).tokens := rfl

theorem behind_snoc (s : List Char) (c : Char) : behind (s ++ [c]) = (behind s).step (byteLen s) c := by
  rw [behind, Scan.run_append, Nat.zero_add]
  rfl

/-- No word goes on behind a text. -/
def Between (s : List Char) : Prop := (behind s).tokenStart = none

theorem isQuote_of_space {c : Char} (h : isWhitespace c = true) : isQuote c = false := by
  by_contra hquote
  obtain rfl | rfl | rfl := isQuote_iff.mp (by simpa using hquote)
  · exact absurd h (by decide)
  · exact absurd h (by decide)
  · exact absurd h (by decide)

/-- Nothing, or a whitespace first. -/
def Apart (s : List Char) : Prop := s = [] ∨ ∃ c rest, s = c :: rest ∧ isWhitespace c = true

/-- What the pass knows about the words it has found, and about the one it is in. -/
structure Retold (s : List Char) (scan : Scan) : Prop where
  idle : scan.tokenStart = none → scan.quotes = .off ∧ scan.tokenValue = []
  opened : ∀ start, scan.tokenStart = some start → ∃ front word, s = front ++ word ∧ byteLen front = start
    ∧ Between front ∧ word ≠ [] ∧ readWord isWhitespace .off word = some (scan.quotes, scan.tokenValue)
  found : ∀ t ∈ scan.tokens, ∃ front word c back, s = front ++ word ++ c :: back ∧ byteLen front = t.rawStart
    ∧ byteLen (front ++ word) = t.rawEnd ∧ Between front ∧ word ≠ [] ∧ isWhitespace c = true
    ∧ readWord isWhitespace .off word = some (.off, t.value)

theorem Retold.found_snoc {s : List Char} {scan : Scan} (h : Retold s scan) (d : Char) :
    ∀ t ∈ scan.tokens, ∃ front word c back, s ++ [d] = front ++ word ++ c :: back
      ∧ byteLen front = t.rawStart ∧ byteLen (front ++ word) = t.rawEnd ∧ Between front ∧ word ≠ []
      ∧ isWhitespace c = true ∧ readWord isWhitespace .off word = some (.off, t.value) := by
  intro t ht
  obtain ⟨front, word, c, back, rfl, hrest⟩ := h.found t ht
  exact ⟨front, word, c, back ++ [d], by simp, hrest⟩

theorem Retold.step {s : List Char} (h : Retold s (behind s)) (c : Char) :
    Retold (s ++ [c]) (behind (s ++ [c])) := by
  rw [behind_snoc]
  have hsnoc := h.found_snoc c
  have hbetween : (behind s).tokenStart = none → Between s := id
  generalize behind s = scan at h hsnoc hbetween ⊢
  obtain ⟨hnone, hstep⟩ | ⟨q, out, hsome, hstep⟩ := scan.step_eq (byteLen s) c
  · -- a whitespace outside of quotes
    obtain ⟨hoff, hspace⟩ := readChar_none hnone
    rw [hstep, Scan.finishToken]
    cases hstart : scan.tokenStart with
    | none =>
        refine ⟨fun _ => h.idle hstart, fun start heq => ?_, hsnoc⟩
        rw [hstart] at heq
        cases heq
    | some start =>
        refine ⟨fun _ => ⟨hoff, rfl⟩, (fun _ heq => nomatch heq), fun t ht => ?_⟩
        obtain ht | ht := List.mem_append.mp ht
        · exact hsnoc t ht
        · obtain ⟨front, word, hs, hlen, hfront, hne, hread⟩ := h.opened start hstart
          rw [List.mem_singleton.mp ht]
          rw [hoff] at hread
          refine ⟨front, word, c, [], by rw [hs], hlen, ?_, hfront, hne, hspace, hread⟩
          show byteLen (front ++ word) = byteLen s
          rw [hs]
  · rw [hstep]
    refine ⟨(fun heq => nomatch heq), fun start heq => ?_, hsnoc⟩
    cases heq
    cases hstart : scan.tokenStart with
    | none =>
        obtain ⟨hoff, hvalue⟩ := h.idle hstart
        refine ⟨s, [c], rfl, rfl, hbetween hstart, List.cons_ne_nil c [], ?_⟩
        rw [hoff] at hsome
        rw [readWord, hsome, hvalue]
        dsimp only
        rw [readWord, Option.map_some, List.append_nil]
        rfl
    | some start =>
        obtain ⟨front, word, hs, hlen, hfront, hne, hread⟩ := h.opened start hstart
        refine ⟨front, word ++ [c], by rw [hs, List.append_assoc], hlen, hfront, by simp, ?_⟩
        rw [readWord_append, hread, Option.bind_some, readWord, hsome]
        dsimp only
        rw [readWord, Option.map_some, List.append_nil]
        rfl

theorem retold (s : List Char) : Retold s (behind s) := by
  induction s using List.reverseRecOn with
  | nil => exact ⟨fun _ => ⟨rfl, rfl⟩, (fun _ heq => nomatch heq), fun t ht => nomatch ht⟩
  | append_singleton s c ih => exact ih.step c

/-! ## The words of a line -/

/-- A part of a line is a word with this value. -/
structure Reads (front word back value : List Char) : Prop where
  between : Between front
  ne_nil : word ≠ []
  read : ∃ q, readWord isWhitespace .off word = some (q, value) ∧ (back = [] ∨ q = .off ∧ Apart back)

/-- Every word of a line is read from its text. -/
theorem reads_of_mem {raw : List Char} {t : Token} (h : t ∈ wordsOf raw) :
    ∃ front word back, raw = front ++ word ++ back ∧ byteLen front = t.rawStart
      ∧ byteLen (front ++ word) = t.rawEnd ∧ Reads front word back t.value := by
  have hfound : t ∈ (behind raw).tokens → ∃ front word back, raw = front ++ word ++ back
      ∧ byteLen front = t.rawStart ∧ byteLen (front ++ word) = t.rawEnd ∧ Reads front word back t.value := by
    intro ht
    obtain ⟨front, word, c, back, hraw, hstart, htail, hfront, hne, hspace, hread⟩ := (retold raw).found t ht
    exact ⟨front, word, c :: back, hraw, hstart, htail, hfront, hne, _, hread,
      .inr ⟨rfl, .inr ⟨c, back, rfl, hspace⟩⟩⟩
  rw [wordsOf_eq, Scan.finishToken] at h
  cases hstart : (behind raw).tokenStart with
  | none =>
      rw [hstart] at h
      exact hfound h
  | some start =>
      rw [hstart] at h
      obtain h | h := List.mem_append.mp h
      · exact hfound h
      · obtain ⟨front, word, hraw, hlen, hfront, hne, hread⟩ := (retold raw).opened start hstart
        rw [List.mem_singleton.mp h]
        refine ⟨front, word, [], by rw [hraw, List.append_nil], hlen, ?_, hfront, hne, _, hread, .inl rfl⟩
        show byteLen (front ++ word) = byteLen raw
        rw [hraw]

/-- What is read from its text is a word of the line. -/
theorem Reads.mem {front word back value : List Char} (h : Reads front word back value) :
    ⟨byteLen front, byteLen (front ++ word), value⟩ ∈ wordsOf (front ++ word ++ back) := by
  obtain ⟨q, hread, hback⟩ := h.read
  have hword : behind (front ++ word) = (behind front).inWord (byteLen front) q value := by
    obtain ⟨c, rest, rfl⟩ := List.exists_cons_of_ne_nil h.ne_nil
    obtain ⟨hoff, hvalue⟩ := (retold front).idle h.between
    obtain ⟨mid, out, value', hc, hrest, rfl⟩ := readWord_cons_inv hread
    rw [behind, Scan.run_append, Nat.zero_add, Scan.run]
    show ((behind front).step (byteLen front) c).run _ rest = _
    obtain ⟨hnone, -⟩ | ⟨q₁, out₁, hsome, hstep⟩ := (behind front).step_eq (byteLen front) c
    · rw [hoff, hc] at hnone
      cases hnone
    · rw [hoff, hc] at hsome
      cases hsome
      rw [hstep, h.between, hvalue]
      exact Scan.run_inWord _ _ _ hrest
  obtain rfl | ⟨rfl, hback⟩ := hback
  · rw [List.append_nil, wordsOf_eq, hword]
    exact List.mem_append_right _ (List.mem_singleton.mpr rfl)
  · obtain rfl | ⟨c, rest, rfl, hspace⟩ := hback
    · rw [List.append_nil, wordsOf_eq, hword]
      exact List.mem_append_right _ (List.mem_singleton.mpr rfl)
    · -- the whitespace ends the word
      have hmem :
          ⟨byteLen front, byteLen (front ++ word), value⟩ ∈ (behind (front ++ word ++ [c])).tokens := by
        rw [behind_snoc, hword]
        obtain ⟨-, hstep⟩ | ⟨q, out, hsome, -⟩ :=
          ((behind front).inWord (byteLen front) .off value).step_eq (byteLen (front ++ word)) c
        · rw [hstep]
          exact List.mem_append_right _ (List.mem_singleton.mpr rfl)
        · cases (readChar_space (isQuote_of_space hspace) hspace).symm.trans hsome
      have hsplit : front ++ word ++ c :: rest = (front ++ word ++ [c]) ++ rest := by simp
      rw [hsplit, wordsOf_eq, behind, Scan.run_append]
      exact Scan.mem_finishToken (Scan.mem_run hmem _ rest) _

/-- A text is cut at a byte in one way. -/
theorem append_inj_byteLen {a b x y : List Char} (h : a ++ x = b ++ y) (hlen : byteLen a = byteLen b) :
    a = b ∧ x = y := by
  obtain ⟨extra, hb, hx⟩ | ⟨extra, ha, hy⟩ := List.append_eq_append_iff.mp h
  · have hnil : extra = [] := by
      refine byteLen_eq_zero ?_
      rw [hb, byteLen_append] at hlen
      omega
    rw [hnil] at hb hx
    rw [hb, hx]
    exact ⟨(List.append_nil a).symm, rfl⟩
  · have hnil : extra = [] := by
      refine byteLen_eq_zero ?_
      rw [ha, byteLen_append] at hlen
      omega
    rw [hnil] at ha hy
    rw [ha, hy]
    exact ⟨List.append_nil b, rfl⟩

/-- **The words of a line are what is read from their text.** -/
theorem mem_wordsOf_iff {front word back value : List Char} :
    ⟨byteLen front, byteLen (front ++ word), value⟩ ∈ wordsOf (front ++ word ++ back)
      ↔ Reads front word back value := by
  refine ⟨fun h => ?_, Reads.mem⟩
  obtain ⟨front', word', back', heq, hstart, htail, hreads⟩ := reads_of_mem h
  obtain ⟨hboth, rfl⟩ := append_inj_byteLen heq htail.symm
  obtain ⟨rfl, rfl⟩ := append_inj_byteLen hboth hstart.symm
  exact hreads

/-- The token that is replaced: no word goes on in front of it, and none begins behind it. -/
theorem active_split {raw : List Char} {cursor : Nat} {parsed : ParsedLine} {t : Token}
    (hp : parseLine raw cursor = some parsed) (ha : activeToken parsed = some t) :
    ∃ front mid back, raw = front ++ mid ++ back ∧ byteLen front = t.rawStart
      ∧ byteLen (front ++ mid) = t.rawEnd ∧ Between front ∧ Apart back := by
  obtain ⟨extra, hparse, hextra⟩ := parseLine_spec raw cursor
  obtain ⟨⟨front, back, hraw, hlen⟩, -⟩ := floorBoundary_spec raw (min cursor (byteLen raw))
  rw [hp] at hparse
  cases hparse
  rw [activeToken, List.find?_append] at ha
  dsimp only at ha
  rw [← hlen] at ha hextra
  cases hword : (wordsOf raw).find? fun token =>
      decide (token.rawStart ≤ byteLen front ∧ byteLen front ≤ token.rawEnd) with
  | some word =>
      rw [hword, Option.some_or] at ha
      cases ha
      obtain ⟨front, word, back, hraw, hstart, htail, hreads⟩ :=
        reads_of_mem (List.mem_of_find?_eq_some hword)
      obtain ⟨q, -, hback⟩ := hreads.read
      refine ⟨front, word, back, hraw, hstart, htail, hreads.between, ?_⟩
      obtain rfl | ⟨-, hapart⟩ := hback
      · exact .inl rfl
      · exact hapart
  | none =>
      rw [hword, Option.none_or] at ha
      have hnone : ∀ word ∈ wordsOf raw, ¬ (word.rawStart ≤ byteLen front ∧ byteLen front ≤ word.rawEnd) := by
        simpa using hword
      have ht : t = ⟨byteLen front, byteLen front, []⟩ := by
        obtain rfl | rfl := hextra
        · cases ha
        · exact List.mem_singleton.mp (List.mem_of_find?_eq_some ha)
      -- a word at the cursor would be the active token
      have hbetween : Between front := by
        by_contra hin
        obtain ⟨start, hstart⟩ := Option.ne_none_iff_exists'.mp hin
        obtain ⟨word, hword, heq, hle⟩ := Scan.exists_token hstart (byteLen front) back
        obtain ⟨f, w, hfront, hf, -⟩ := (retold front).opened start hstart
        have hmem : word ∈ wordsOf raw := by
          rw [wordsOf_eq, behind, hraw, Scan.run_append, Nat.zero_add, byteLen_append]
          exact hword
        refine hnone word hmem ⟨?_, hle⟩
        rw [heq, ← hf, hfront, byteLen_append]
        omega
      refine ⟨front, [], back, by rw [hraw, List.append_nil], by rw [ht], by rw [ht, List.append_nil],
        hbetween, ?_⟩
      cases back with
      | nil => exact .inl rfl
      | cons c rest =>
          refine .inr ⟨c, rest, rfl, ?_⟩
          by_contra hspace
          obtain ⟨hidle, -⟩ := (retold front).idle hbetween
          obtain ⟨hend, -⟩ | ⟨q, out, -, hstep⟩ := (behind front).step_eq (byteLen front) c
          · exact hspace (readChar_none hend).2
          · have hstart : (behind (front ++ [c])).tokenStart = some (byteLen front) := by
              rw [behind_snoc, hstep, hbetween]
              rfl
            obtain ⟨word, hword, heq, hle⟩ := Scan.exists_token hstart (byteLen (front ++ [c])) rest
            have hmem : word ∈ wordsOf raw := by
              have hsplit : front ++ c :: rest = (front ++ [c]) ++ rest := by simp
              rw [wordsOf_eq, behind, hraw, hsplit, Scan.run_append, Nat.zero_add,
                byteLen_append (front ++ [c])]
              exact hword
            refine hnone word hmem ⟨Nat.le_of_eq heq, ?_⟩
            rw [byteLen_append] at hle
            omega

/-- Words that overlap are the same. -/
theorem Words.eq_of_overlap {s : List Char} {words : List Token} (h : Words s words) {a b : Token}
    (ha : a ∈ words) (hb : b ∈ words) (hab : a.rawStart < b.rawEnd)
    (hba : b.rawStart < a.rawEnd) : a = b := by
  have hsymm : Std.Symm fun x y : Token => x.rawEnd < y.rawStart ∨ y.rawEnd < x.rawStart :=
    ⟨fun x y hxy => hxy.symm⟩
  have hapart : words.Pairwise fun x y => x.rawEnd < y.rawStart ∨ y.rawEnd < x.rawStart :=
    h.sorted.imp Or.inl
  by_contra hne
  obtain hlt | hlt := hapart.forall ha hb hne
  · omega
  · omega

/-- A token of a line, and the only one where it lies. -/
structure Alone (tokens : List Token) (t : Token) : Prop where
  mem : t ∈ tokens
  only : ∀ other ∈ tokens, other.rawStart < t.rawEnd → t.rawStart < other.rawEnd → other = t

/-- **A line with another word in it is read as that word there.** -/
theorem alone_iff {front word gap back value : List Char} (hne : word ≠ []) {parsed : ParsedLine}
    (hp : parseLine (front ++ (word ++ gap) ++ back) (byteLen (front ++ (word ++ gap))) = some parsed) :
    Alone parsed.tokens ⟨byteLen front, byteLen (front ++ word), value⟩ ↔
      Reads front word (gap ++ back) value := by
  have hline : front ++ (word ++ gap) ++ back = front ++ word ++ (gap ++ back) := by simp
  have hcursor : floorBoundary (front ++ (word ++ gap) ++ back) (min (byteLen (front ++ (word ++ gap)))
      (byteLen (front ++ (word ++ gap) ++ back))) = byteLen (front ++ (word ++ gap)) := by
    have hmin : min (byteLen (front ++ (word ++ gap))) (byteLen (front ++ (word ++ gap) ++ back))
        = byteLen (front ++ (word ++ gap)) := by
      rw [byteLen_append (front ++ (word ++ gap))]
      omega
    obtain ⟨-, hle, hmax⟩ :=
      floorBoundary_spec (front ++ (word ++ gap) ++ back) (byteLen (front ++ (word ++ gap)))
    rw [hmin]
    exact Nat.le_antisymm hle (hmax _ (Nat.le_refl _) ⟨_, back, rfl, rfl⟩)
  obtain ⟨extra, hparse, hextra⟩ := parseLine_spec (front ++ (word ++ gap) ++ back)
    (byteLen (front ++ (word ++ gap)))
  rw [hp, hcursor] at hparse
  rw [hcursor] at hextra
  cases hparse
  dsimp only
  have hpos : byteLen front < byteLen (front ++ word) := by
    have hzero : byteLen word ≠ 0 := fun h => hne (byteLen_eq_zero h)
    rw [byteLen_append]
    omega
  rw [← mem_wordsOf_iff, ← hline]
  have hwords := wordsOf_words (front ++ (word ++ gap) ++ back)
  generalize wordsOf (front ++ (word ++ gap) ++ back) = words at hwords
  constructor
  · intro h
    obtain hmem | hmem := List.mem_append.mp h.mem
    · exact hmem
    · -- the empty token behind the word
      obtain rfl | rfl := hextra
      · cases hmem
      · have heq := List.mem_singleton.mp hmem
        have hstart : byteLen front = byteLen (front ++ (word ++ gap)) := congrArg Token.rawStart heq
        have htail : byteLen (front ++ word) = byteLen (front ++ (word ++ gap)) := congrArg Token.rawEnd heq
        omega
  · intro hmem
    refine ⟨List.mem_append_left _ hmem, fun other hother hbefore hbehind => ?_⟩
    dsimp only at hbefore hbehind
    obtain hother | hother := List.mem_append.mp hother
    · exact hwords.eq_of_overlap hother hmem hbefore hbehind
    · obtain rfl | rfl := hextra
      · cases hother
      · rw [List.mem_singleton.mp hother] at hbefore
        dsimp only at hbefore
        rw [byteLen_append, byteLen_append, byteLen_append] at hbefore
        omega

end CompleteLine

end Irosh
