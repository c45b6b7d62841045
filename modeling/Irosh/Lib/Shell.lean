import Mathlib.Data.List.Basic

/-!
# A command for `sh`

The words of a simple command, as a POSIX shell reads it: blanks separate words, single
quotes keep everything up to the next one, and a backslash keeps the character behind it.
Whatever else has a meaning to the shell when it is not quoted (operators, expansions,
double quotes, comments, patterns) is left out: a text that has it has no words here.
-/

namespace Shell

/-- How far the reading of a word has come. -/
inductive Mode where
  | between
  | word (w : List Char)
  | quoted (w : List Char)
  | escaped (w : List Char)
  deriving DecidableEq, Repr

/-- A character that is only itself, also outside quotes. -/
def isPlain (c : Char) : Bool := c.isAlphanum || c = '-' || c = '.' || c = '/' || c = '_'

/-- The words behind what has been read. -/
def scan : Mode → List Char → Option (List (List Char))
  | .between, [] => some []
  | .word w, [] => some [w]
  | .quoted _, [] => none
  | .escaped _, [] => none
  | .between, c :: s =>
      if c = ' ' then scan .between s
      else if c = '\'' then scan (.quoted []) s
      else if c = '\\' then scan (.escaped []) s
      else if isPlain c then scan (.word [c]) s
      else none
  | .word w, c :: s =>
      if c = ' ' then (scan .between s).map (w :: ·)
      else if c = '\'' then scan (.quoted w) s
      else if c = '\\' then scan (.escaped w) s
      else if isPlain c then scan (.word (w ++ [c])) s
      else none
  | .quoted w, c :: s => if c = '\'' then scan (.word w) s else scan (.quoted (w ++ [c])) s
  -- a backslash and a newline are no word, but a line that goes on
  | .escaped w, c :: s => if c = '\n' then none else scan (.word (w ++ [c])) s

/-- The words of a text that is one simple command. -/
def simpleCommand (text : List Char) : Option (List (List Char)) := scan .between text

theorem not_special_of_plain {c : Char} (h : isPlain c = true) : c ≠ ' ' ∧ c ≠ '\'' ∧ c ≠ '\\' := by
  refine ⟨?_, ?_, ?_⟩
  all_goals
    intro he
    rw [he] at h
    exact absurd h (by decide)

theorem scan_plain {w text : List Char} (h : text.all isPlain = true) (rest : List Char) :
    scan (.word w) (text ++ rest) = scan (.word (w ++ text)) rest := by
  induction text generalizing w with
  | nil => rw [List.nil_append, List.append_nil]
  | cons c text ih =>
      rw [List.all_cons, Bool.and_eq_true] at h
      obtain ⟨hblank, hquote, hslash⟩ := not_special_of_plain h.1
      rw [List.cons_append, scan, if_neg hblank, if_neg hquote, if_neg hslash, if_pos h.1, ih h.2,
        List.append_assoc]
      rfl

/-- A word and the blank behind it. -/
theorem scan_word {word : List Char} (hne : word ≠ []) (h : word.all isPlain = true) (rest : List Char) :
    scan .between (word ++ ' ' :: rest) = (scan .between rest).map (word :: ·) := by
  obtain ⟨c, word, rfl⟩ := List.exists_cons_of_ne_nil hne
  rw [List.all_cons, Bool.and_eq_true] at h
  obtain ⟨hblank, hquote, hslash⟩ := not_special_of_plain h.1
  rw [List.cons_append, scan, if_neg hblank, if_neg hquote, if_neg hslash, if_pos h.1, scan_plain h.2,
    scan, if_pos rfl]
  rfl

/-- Text without a quote, inside quotes. -/
theorem scan_quoted {w text : List Char} (h : '\'' ∉ text) (rest : List Char) :
    scan (.quoted w) (text ++ rest) = scan (.quoted (w ++ text)) rest := by
  induction text generalizing w with
  | nil => rw [List.nil_append, List.append_nil]
  | cons c text ih =>
      have hc : ¬ c = '\'' := fun he => h (he ▸ List.mem_cons_self)
      rw [List.cons_append, scan, if_neg hc, ih fun hm => h (List.mem_cons_of_mem _ hm), List.append_assoc]
      rfl

/-- A quote inside quotes: out of them, an escaped one, and into them again. -/
theorem scan_quote (w rest : List Char) :
    scan (.quoted w) ('\'' :: '\\' :: '\'' :: '\'' :: rest) = scan (.quoted (w ++ ['\''])) rest := rfl

end Shell
