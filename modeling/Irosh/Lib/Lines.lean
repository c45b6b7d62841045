/-!
# The lines of a text

A line ends with a newline, or with the text. The newline is not part of the line, and
neither is a carriage return right before it. So a text whose last line is ended can grow
line by line, and what was there stays as it was.
-/

namespace Lines

/-- `strip_suffix('\r')`, if there is one. -/
def stripCr (s : List Char) : List Char := if s.getLast? = some '\r' then s.dropLast else s

/-- The lines of a text, after what has been read of the first one. -/
def linesFrom : List Char → List Char → List (List Char)
  | read, [] => if read = [] then [] else [read]
  | read, c :: rest =>
      if c = '\n' then stripCr read :: linesFrom [] rest else linesFrom (read ++ [c]) rest

/-- `str::lines`. -/
def lines (s : List Char) : List (List Char) := linesFrom [] s

/-- There is nothing after the last newline. -/
def Ended (s : List Char) : Prop := s = [] ∨ s.getLast? = some '\n'

theorem stripCr_of_ne {s : List Char} (h : s.getLast? ≠ some '\r') : stripCr s = s := if_neg h

theorem linesFrom_newline (read rest : List Char) :
    linesFrom read ('\n' :: rest) = stripCr read :: linesFrom [] rest := by
  rw [linesFrom, if_pos rfl]

theorem linesFrom_other {c : Char} (h : c ≠ '\n') (read rest : List Char) :
    linesFrom read (c :: rest) = linesFrom (read ++ [c]) rest := by
  rw [linesFrom, if_neg h]

/-- A line up to its newline. -/
theorem linesFrom_line {l : List Char} (h : '\n' ∉ l) (read rest : List Char) :
    linesFrom read (l ++ '\n' :: rest) = stripCr (read ++ l) :: linesFrom [] rest := by
  induction l generalizing read with
  | nil => rw [List.nil_append, linesFrom_newline, List.append_nil]
  | cons c l ih =>
      obtain ⟨hc, hl⟩ : '\n' ≠ c ∧ '\n' ∉ l := by simpa using h
      rw [List.cons_append, linesFrom_other (Ne.symm hc), ih hl, List.append_assoc]
      rfl

/-- What comes after an ended text begins a line of its own. -/
theorem linesFrom_append {s : List Char} (h : s.getLast? = some '\n') (read rest : List Char) :
    linesFrom read (s ++ rest) = linesFrom read s ++ linesFrom [] rest := by
  induction s generalizing read with
  | nil => cases h
  | cons c s ih =>
      cases s with
      | nil =>
          have hc : c = '\n' := by simpa using h
          rw [hc, List.cons_append, linesFrom_newline, linesFrom_newline]
          rfl
      | cons d s =>
          have hlast : (d :: s).getLast? = some '\n' := by rwa [List.getLast?_cons_cons] at h
          by_cases hc : c = '\n'
          · rw [hc, List.cons_append, linesFrom_newline, linesFrom_newline, ih hlast]
            rfl
          · rw [List.cons_append, linesFrom_other hc, linesFrom_other hc, ih hlast]

/-- A line that is added to an ended text. -/
theorem lines_snoc {s l : List Char} (hs : Ended s) (hl : '\n' ∉ l) (hcr : l.getLast? ≠ some '\r') :
    lines (s ++ (l ++ ['\n'])) = lines s ++ [l] := by
  have hline : linesFrom [] (l ++ ['\n']) = [l] := by
    rw [linesFrom_line hl, List.nil_append, stripCr_of_ne hcr]
    rfl
  obtain rfl | hs := hs
  · exact hline
  · rw [lines, linesFrom_append hs, hline]
    rfl

theorem Ended.snoc (s l : List Char) : Ended (s ++ (l ++ ['\n'])) := by
  refine .inr ?_
  rw [← List.append_assoc]
  exact List.getLast?_concat

end Lines
