import Mathlib.Data.List.Basic

/-!
# Words with quotes

A word is read up to the first space that is neither quoted nor escaped. A backslash keeps the
character behind it, except in single quotes, and quotes of one kind keep those of the other.
What counts as a space is left open: a reader that knows more of them reads the same words, or
ends them earlier.
-/

namespace Quoted

/-- What a character is read in. -/
structure Quotes where
  single : Bool
  double : Bool
  escaped : Bool
  deriving DecidableEq, Repr

/-- Outside of all quotes. -/
def Quotes.off : Quotes := ⟨false, false, false⟩

/-- A character that is not read as itself. -/
def isQuote (c : Char) : Bool := c == '\\' || c == '\'' || c == '"'

/-- The quotes behind a character and what it adds to the word. A space ends the word. -/
def readChar (isSpace : Char → Bool) (q : Quotes) (c : Char) : Option (Quotes × List Char) :=
  if q.escaped then some ({ q with escaped := false }, [c])
  else if c = '\\' ∧ !q.single then some ({ q with escaped := true }, [])
  else if c = '\'' ∧ !q.double then some ({ q with single := !q.single }, [])
  else if c = '"' ∧ !q.single then some ({ q with double := !q.double }, [])
  else if isSpace c ∧ !q.single ∧ !q.double then none
  else some (q, [c])

/-- The quotes behind a text and what is read. A text with a space outside of quotes is not one word. -/
def readWord (isSpace : Char → Bool) : Quotes → List Char → Option (Quotes × List Char)
  | q, [] => some (q, [])
  | q, c :: s =>
      match readChar isSpace q c with
      | none => none
      | some (q', out) => (readWord isSpace q' s).map fun rest => (rest.1, out ++ rest.2)

variable {isSpace isSpace' : Char → Bool} {q q' : Quotes} {c : Char} {s t v : List Char}

/-! ## One character -/

theorem isQuote_iff : isQuote c = true ↔ c = '\\' ∨ c = '\'' ∨ c = '"' := by simp [isQuote, or_assoc]

theorem ne_of_not_quote (h : isQuote c = false) : c ≠ '\\' ∧ c ≠ '\'' ∧ c ≠ '"' := by
  simpa [isQuote, and_assoc] using h

theorem readChar_none (h : readChar isSpace q c = none) : q = .off ∧ isSpace c = true := by
  obtain ⟨single, double, escaped⟩ := q
  unfold readChar at h
  dsimp only at h
  split at h
  · cases h
  · split at h
    · cases h
    · split at h
      · cases h
      · split at h
        · cases h
        · split at h
          · rename_i hescaped _ _ _ hspace
            obtain ⟨hc, hsingle, hdouble⟩ := hspace
            simp only [Bool.not_eq_true', Bool.not_eq_true] at hescaped hsingle hdouble
            rw [hescaped, hsingle, hdouble]
            exact ⟨rfl, hc⟩
          · cases h

/-- It adds itself or nothing, and nothing only if it is a quote. -/
theorem readChar_some {out : List Char} (h : readChar isSpace q c = some (q', out)) :
    out = [c] ∨ (out = [] ∧ isQuote c = true) := by
  unfold readChar at h
  split at h
  · cases h
    exact .inl rfl
  · split at h
    · rename_i hc
      cases h
      exact .inr ⟨rfl, by rw [hc.1]; rfl⟩
    · split at h
      · rename_i hc
        cases h
        exact .inr ⟨rfl, by rw [hc.1]; rfl⟩
      · split at h
        · rename_i hc
          cases h
          exact .inr ⟨rfl, by rw [hc.1]; rfl⟩
        · split at h
          · cases h
          · cases h
            exact .inl rfl

theorem readChar_plain (hquote : isQuote c = false) (hspace : isSpace c = false) :
    readChar isSpace .off c = some (.off, [c]) := by
  simp [readChar, Quotes.off, ne_of_not_quote hquote, hspace]

theorem readChar_space (hquote : isQuote c = false) (hspace : isSpace c = true) :
    readChar isSpace .off c = none := by
  simp [readChar, Quotes.off, ne_of_not_quote hquote, hspace]

/-- A quote is never read as itself outside of quotes. -/
theorem readChar_quote (hquote : isQuote c = true) : ∃ q', readChar isSpace .off c = some (q', []) := by
  obtain rfl | rfl | rfl := isQuote_iff.mp hquote
  · exact ⟨_, rfl⟩
  · exact ⟨_, rfl⟩
  · exact ⟨_, rfl⟩

theorem readChar_mono (hsub : ∀ d, isSpace d = true → isSpace' d = true) {r : Quotes × List Char}
    (h : readChar isSpace' q c = some r) : readChar isSpace q c = some r := by
  unfold readChar at h ⊢
  split at h
  · rename_i hif
    rwa [if_pos hif]
  · rename_i hif
    rw [if_neg hif]
    split at h
    · rename_i hif
      rwa [if_pos hif]
    · rename_i hif
      rw [if_neg hif]
      split at h
      · rename_i hif
        rwa [if_pos hif]
      · rename_i hif
        rw [if_neg hif]
        split at h
        · rename_i hif
          rwa [if_pos hif]
        · rename_i hif
          rw [if_neg hif]
          split at h
          · cases h
          · rename_i hif
            rwa [if_neg fun hs => hif ⟨hsub c hs.1, hs.2⟩]

/-! ## Words -/

theorem readWord_append (q : Quotes) (s t : List Char) :
    readWord isSpace q (s ++ t) = (readWord isSpace q s).bind fun front =>
      (readWord isSpace front.1 t).map fun rest => (rest.1, front.2 ++ rest.2) := by
  induction s generalizing q with
  | nil =>
      rw [List.nil_append, readWord, Option.bind_some]
      exact Option.map_id'.symm
  | cons c s ih =>
      rw [List.cons_append, readWord, readWord]
      cases readChar isSpace q c with
      | none => rfl
      | some r =>
          obtain ⟨q', out⟩ := r
          dsimp only
          rw [ih]
          cases readWord isSpace q' s with
          | none => rfl
          | some front =>
              obtain ⟨q'', w⟩ := front
              simp only [Option.bind_some, Option.map_some, Option.map_map]
              congr 1
              funext rest
              exact congrArg (Prod.mk rest.1) (List.append_assoc out w rest.2).symm

theorem readWord_cons_inv (h : readWord isSpace q (c :: s) = some (q', v)) :
    ∃ mid out rest, readChar isSpace q c = some (mid, out) ∧ readWord isSpace mid s = some (q', rest)
      ∧ v = out ++ rest := by
  rw [readWord] at h
  split at h
  · cases h
  · rename_i mid out hc
    obtain ⟨⟨q'', rest⟩, hrest, heq⟩ := Option.map_eq_some_iff.mp h
    cases heq
    exact ⟨mid, out, rest, hc, hrest, rfl⟩

theorem readWord_append_inv (h : readWord isSpace q (s ++ t) = some (q', v)) :
    ∃ mid front rest, readWord isSpace q s = some (mid, front) ∧ readWord isSpace mid t = some (q', rest)
      ∧ v = front ++ rest := by
  rw [readWord_append] at h
  obtain ⟨⟨mid, front⟩, hfront, h⟩ := Option.bind_eq_some_iff.mp h
  obtain ⟨⟨q'', rest⟩, hrest, heq⟩ := Option.map_eq_some_iff.mp h
  cases heq
  exact ⟨mid, front, rest, hfront, hrest, rfl⟩

/-- Reading only leaves characters out. -/
theorem readWord_sublist (h : readWord isSpace q s = some (q', v)) : v.Sublist s := by
  induction s generalizing q v with
  | nil =>
      cases h
      exact List.Sublist.refl []
  | cons c s ih =>
      obtain ⟨mid, out, rest, hc, hrest, rfl⟩ := readWord_cons_inv h
      obtain rfl | ⟨rfl, -⟩ := readChar_some hc
      · exact (ih hrest).cons_cons c
      · exact (ih hrest).cons c

/-- A last character that is no quote is read as itself. -/
theorem readWord_last (hquote : isQuote c = false) (h : readWord isSpace q (s ++ [c]) = some (q', v)) :
    ∃ front, v = front ++ [c] := by
  obtain ⟨mid, front, rest, -, hrest, rfl⟩ := readWord_append_inv h
  obtain ⟨mid', out, none', hc, hnil, rfl⟩ := readWord_cons_inv hrest
  cases hnil
  obtain rfl | ⟨-, hq⟩ := readChar_some hc
  · exact ⟨front, by rw [List.append_nil]⟩
  · rw [hquote] at hq
    cases hq

theorem readWord_plain (h : ∀ c ∈ s, isQuote c = false ∧ isSpace c = false) :
    readWord isSpace .off s = some (.off, s) := by
  induction s with
  | nil => rfl
  | cons c s ih =>
      obtain ⟨hquote, hspace⟩ := h c List.mem_cons_self
      rw [readWord, readChar_plain hquote hspace]
      dsimp only
      rw [ih fun d hd => h d (List.mem_cons_of_mem c hd)]
      rfl

/-- **A word that is read as its own text has no quotes.** -/
theorem readWord_self (h : readWord isSpace .off s = some (q', s)) :
    ∀ c ∈ s, isQuote c = false ∧ isSpace c = false := by
  induction s with
  | nil => exact fun c hc => nomatch hc
  | cons c s ih =>
      obtain ⟨mid, out, rest, hc, hrest, heq⟩ := readWord_cons_inv h
      have hlen := (readWord_sublist hrest).length_le
      -- with a character left out, the rest is too short
      obtain rfl | ⟨rfl, -⟩ := readChar_some hc
      · obtain rfl : s = rest := List.tail_eq_of_cons_eq heq
        have hplain : isQuote c = false := by
          by_contra hquote
          obtain ⟨q'', hnone⟩ := @readChar_quote isSpace c (by simpa using hquote)
          rw [hnone] at hc
          cases hc
        have hspace : isSpace c = false := by
          by_contra hs
          rw [readChar_space hplain (by simpa using hs)] at hc
          cases hc
        rw [readChar_plain hplain hspace] at hc
        cases hc
        intro d hd
        obtain rfl | hd := List.mem_cons.mp hd
        · exact ⟨hplain, hspace⟩
        · exact ih hrest d hd
      · rw [List.nil_append] at heq
        rw [← heq] at hlen
        exact absurd hlen (Nat.not_succ_le_self _)

theorem readWord_mono (hsub : ∀ d, isSpace d = true → isSpace' d = true) {r : Quotes × List Char}
    (h : readWord isSpace' q s = some r) : readWord isSpace q s = some r := by
  induction s generalizing q r with
  | nil => exact h
  | cons c s ih =>
      obtain ⟨q', v⟩ := r
      obtain ⟨mid, out, rest, hc, hrest, rfl⟩ := readWord_cons_inv h
      rw [readWord, readChar_mono hsub hc]
      dsimp only
      rw [ih hrest]
      rfl

/-! ## Quoting -/

/-- In single quotes, with each single quote outside of them. -/
def singleQuoted (s : List Char) : List Char :=
  '\'' :: (s.flatMap fun c => if c = '\'' then ['\'', '\\', '\'', '\''] else [c]) ++ ['\'']

/-- **What is quoted is read back.** -/
theorem readWord_singleQuoted (s : List Char) : readWord isSpace .off (singleQuoted s) = some (.off, s) := by
  have hinside : ∀ s : List Char, readWord isSpace ⟨true, false, false⟩
      ((s.flatMap fun c => if c = '\'' then ['\'', '\\', '\'', '\''] else [c]) ++ ['\''])
        = some (.off, s) := by
    intro s
    induction s with
    | nil => rfl
    | cons c s ih =>
        rw [List.flatMap_cons, List.append_assoc, readWord_append]
        by_cases hc : c = '\''
        · subst hc
          rw [if_pos rfl]
          simp only [readWord, readChar]
          simp [ih]
        · rw [if_neg hc]
          have hself : readWord isSpace ⟨true, false, false⟩ [c] = some (⟨true, false, false⟩, [c]) := by
            simp [readWord, readChar, hc]
          rw [hself, Option.bind_some, ih]
          rfl
  have hopen : readChar isSpace .off '\'' = some (⟨true, false, false⟩, []) := rfl
  rw [singleQuoted, List.cons_append, readWord, hopen]
  dsimp only
  rw [hinside]
  rfl

end Quoted
