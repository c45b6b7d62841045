import Irosh.Input.HistoryFile

/-!
# The history of a session

The index is the only thing that could go out of range, and every `add` forgets it. What the
entries are is another matter: they are the last thousand lines of the file as long as the
file is a text of whole lines and the appends reach it.
-/

namespace Irosh

/-! ## Trimmed commands -/

theorem mem_of_mem_trim {c : Char} {s : List Char} (h : c ∈ trim s) : c ∈ s := by
  have hinner := (List.dropWhile_sublist isWhitespace).mem (List.mem_reverse.mp h)
  exact (List.dropWhile_sublist isWhitespace).mem (List.mem_reverse.mp hinner)

/-- A trimmed text does not end in whitespace. -/
theorem trim_getLast? {c : Char} {s : List Char} (h : (trim s).getLast? = some c) :
    isWhitespace c = false := by
  have hhead : (((s.dropWhile isWhitespace).reverse).dropWhile isWhitespace).head? = some c := by
    rwa [trim, List.getLast?_reverse] at h
  have hnot := List.head?_dropWhile_not isWhitespace (s.dropWhile isWhitespace).reverse
  rw [hhead] at hnot
  simpa using hnot

/-! ## One call -/

namespace CommandHistory

variable {h : CommandHistory}

/-- The index lies in the entries, and there are not too many of them. -/
structure InRange (h : CommandHistory) : Prop where
  index : ∀ i, h.index = some i → i < h.entries.length
  short : h.entries.length ≤ maxHistoryEntries

theorem inRange_of_none (hindex : h.index = none) (hs : h.entries.length ≤ maxHistoryEntries) :
    h.InRange where
  index i hi := by
    rw [hindex] at hi
    cases hi
  short := hs

/-- The entries `add` leaves of those it has. -/
def evict (entries : List (List Char)) : List (List Char) :=
  if entries.length > maxHistoryEntries then entries.drop 1 else entries

/-- What `add` does: nothing, forget the navigation, or append the command as well. -/
theorem add_cases (h : CommandHistory) (command : List Char) :
    h.add command = h
      ∨ h.add command = { h with index := none, pending := [] }
      ∨ (trim command ≠ [] ∧ h.entries.getLast? ≠ some (trim command) ∧ h.add command
        = ⟨evict (h.entries ++ [trim command]), none, [], h.appended ++ [trim command]⟩) := by
  unfold add
  dsimp only
  split
  · exact .inl rfl
  · rename_i hne
    split
    · exact .inr (.inl rfl)
    · rename_i hlast
      exact .inr (.inr ⟨hne, hlast, rfl⟩)

theorem evict_length {entries : List (List Char)} (h : entries.length ≤ maxHistoryEntries + 1) :
    (evict entries).length ≤ maxHistoryEntries := by
  unfold evict
  split
  · rw [List.length_drop]
    omega
  · omega

theorem evict_suffix (entries : List (List Char)) : ∃ front, entries = front ++ evict entries := by
  unfold evict
  split
  · exact ⟨entries.take 1, (List.take_append_drop 1 entries).symm⟩
  · exact ⟨[], rfl⟩

/-- The last entries of some lines. -/
def lastLines (lines : List (List Char)) : List (List Char) := lines.drop (lines.length - maxHistoryEntries)

theorem new_entries (lines : List (List Char)) : (new lines).entries = lastLines lines := by
  simp only [new, lastLines]

theorem new_inRange (lines : List (List Char)) : (new lines).InRange := by
  refine inRange_of_none rfl ?_
  rw [new_entries, lastLines, List.length_drop]
  omega

theorem add_inRange (hr : h.InRange) (command : List Char) : (h.add command).InRange := by
  obtain heq | heq | ⟨-, -, heq⟩ := h.add_cases command
  · rw [heq]
    exact hr
  · rw [heq]
    exact inRange_of_none rfl hr.short
  · rw [heq]
    have hshort := hr.short
    refine inRange_of_none rfl (evict_length ?_)
    rw [List.length_append, List.length_singleton]
    omega

theorem up_inRange (hr : h.InRange) (current : List Char) : (h.up current).1.InRange := by
  unfold up
  split
  · exact hr
  · rename_i hne
    have hpos := List.length_pos_iff.mpr hne
    cases hindex : h.index with
    | none =>
        refine ⟨fun i hi => ?_, hr.short⟩
        cases hi
        show h.entries.length - 1 < h.entries.length
        omega
    | some j =>
        have hj := hr.index j hindex
        refine ⟨fun i hi => ?_, hr.short⟩
        cases hi
        show j - 1 < h.entries.length
        omega

theorem down_inRange (hr : h.InRange) : h.down.1.InRange := by
  unfold down
  cases hindex : h.index with
  | none => exact inRange_of_none hindex hr.short
  | some j =>
      dsimp only
      split
      · exact inRange_of_none rfl hr.short
      · refine ⟨fun i hi => ?_, hr.short⟩
        cases hi
        show j + 1 < h.entries.length
        omega

/-- `up` finds an entry if there is one: it never looks outside of them. -/
theorem up_found (hr : h.InRange) (current : List Char) (hne : h.entries ≠ []) :
    ∃ entry ∈ h.entries, (h.up current).2 = some entry := by
  have hpos := List.length_pos_iff.mpr hne
  unfold up
  rw [if_neg hne]
  cases hindex : h.index with
  | none =>
      have hlt : h.entries.length - 1 < h.entries.length := by omega
      exact ⟨_, List.getElem_mem hlt, List.getElem?_eq_getElem hlt⟩
  | some j =>
      have hj := hr.index j hindex
      have hlt : j - 1 < h.entries.length := by omega
      exact ⟨_, List.getElem_mem hlt, List.getElem?_eq_getElem hlt⟩

/-- `down` finds something while it navigates, an entry or the pending line. -/
theorem down_found (i : Nat) (hi : h.index = some i) :
    ∃ found, h.down.2 = some found ∧ (found ∈ h.entries ∨ found = h.pending) := by
  unfold down
  rw [hi]
  dsimp only
  split
  · exact ⟨_, rfl, .inr rfl⟩
  · have hlt : i + 1 < h.entries.length := by omega
    exact ⟨_, List.getElem?_eq_getElem hlt, .inl (List.getElem_mem hlt)⟩

/-- Two equal entries side by side were there before. -/
theorem add_no_repeat {command x : List Char} {front back : List (List Char)}
    (heq : (h.add command).entries = front ++ x :: x :: back) :
    ∃ front' back', h.entries = front' ++ x :: x :: back' := by
  obtain hadd | hadd | ⟨-, hlast, hadd⟩ := h.add_cases command
  · rw [hadd] at heq
    exact ⟨front, back, heq⟩
  · rw [hadd] at heq
    exact ⟨front, back, heq⟩
  · rw [hadd] at heq
    obtain ⟨gone, hgone⟩ := evict_suffix (h.entries ++ [trim command])
    have hall : h.entries ++ [trim command] = gone ++ front ++ x :: x :: back := by
      rw [hgone, List.append_assoc]
      exact congrArg (gone ++ ·) heq
    cases back using List.reverseRecOn with
    | nil =>
        -- the new entry would be equal to the last one
        have hsnoc : h.entries ++ [trim command] = (gone ++ front ++ [x]) ++ [x] := by rw [hall]; simp
        obtain ⟨hentries, hx⟩ := List.append_inj' hsnoc rfl
        refine absurd ?_ hlast
        rw [hentries, List.getLast?_concat]
        exact congrArg some (List.cons.inj hx).1.symm
    | append_singleton back y =>
        have hsnoc : h.entries ++ [trim command] = (gone ++ front ++ x :: x :: back) ++ [y] := by
          rw [hall]
          simp
        exact ⟨_, back, (List.append_inj' hsnoc rfl).1⟩

/-! ## Up and down again -/

/-- The history while one looks at entry `i`. -/
def navigating (h : CommandHistory) (current : List Char) (i : Nat) : CommandHistory :=
  { h with index := some i, pending := current }

theorem up_first (hne : h.entries ≠ []) (hindex : h.index = none) (current : List Char) :
    (h.up current).1 = h.navigating current (h.entries.length - 1) := by
  rw [up, if_neg hne, hindex]
  rfl

theorem up_again (hne : h.entries ≠ []) (current : List Char) (i : Nat) :
    ((h.navigating current i).up current).1 = h.navigating current (i - 1) := by
  rw [up, if_neg (show (h.navigating current i).entries ≠ [] from hne)]
  rfl

theorem down_within {i : Nat} (hi : i + 1 < h.entries.length) (current : List Char) :
    (h.navigating current i).down.1 = h.navigating current (i + 1) := by
  have hnot : ¬ i + 1 ≥ h.entries.length := by omega
  show (if i + 1 ≥ h.entries.length then _ else _ : CommandHistory × Option (List Char)).1 = _
  rw [if_neg hnot]
  rfl

theorem down_last {i : Nat} (hi : i + 1 = h.entries.length) (current : List Char) :
    (h.navigating current i).down = ({ h with index := none, pending := current }, some current) := by
  show (if i + 1 ≥ h.entries.length then _ else _ : CommandHistory × Option (List Char)) = _
  rw [if_pos (by omega)]
  rfl

end CommandHistory

/-! ## Runs -/

namespace HistorySite

open CommandHistory

variable {s : HistorySite}

theorem run_append (s : HistorySite) (ops ops' : List HistoryOp) :
    s.run (ops ++ ops') = (((s.run ops).1.run ops').1, (s.run ops).2 ++ ((s.run ops).1.run ops').2) := by
  induction ops generalizing s with
  | nil => rfl
  | cons op ops ih =>
      simp only [List.cons_append, run, ih]

theorem step_history (s : HistorySite) (op : HistoryOp) :
    (s.step op).1.history = match op with
      | .add command _ => s.history.add command
      | .up current => (s.history.up current).1
      | .down => s.history.down.1
      | .abandonNavigation current => s.history.abandonNavigation current := by
  cases op with
  | add command outcome =>
      unfold step
      dsimp only
      split <;> rfl
  | up current => rfl
  | down => rfl
  | abandonNavigation current => rfl

theorem step_inRange (hr : s.history.InRange) (op : HistoryOp) : (s.step op).1.history.InRange := by
  rw [step_history]
  cases op with
  | add command outcome => exact add_inRange hr command
  | up current => exact up_inRange hr current
  | down => exact down_inRange hr
  | abandonNavigation current => exact inRange_of_none rfl hr.short

theorem run_inRange (ops : List HistoryOp) (hr : s.history.InRange) : (s.run ops).1.history.InRange := by
  induction ops generalizing s with
  | nil => exact hr
  | cons op ops ih => exact ih (step_inRange hr op)

/-- `n + 1` times up from where nothing is navigated. -/
theorem run_up {n : Nat} (hn : n < s.history.entries.length) (hindex : s.history.index = none)
    (current : List Char) :
    (s.run (List.replicate (n + 1) (.up current))).1
      = { s with history := s.history.navigating current (s.history.entries.length - (n + 1)) } := by
  have hne : s.history.entries ≠ [] := List.length_pos_iff.mp (by omega)
  induction n with
  | zero =>
      show HistorySite.mk (s.history.up current).1 s.file = _
      rw [up_first hne hindex]
  | succ n ih =>
      rw [List.replicate_succ', run_append, ih (by omega)]
      show HistorySite.mk ((s.history.navigating current _).up current).1 s.file = _
      rw [up_again hne, Nat.sub_sub]

theorem run_down {i n : Nat} (hn : i + n < s.history.entries.length) (current : List Char) :
    (HistorySite.mk (s.history.navigating current i) s.file |>.run (List.replicate n .down)).1
      = { s with history := s.history.navigating current (i + n) } := by
  induction n with
  | zero => rfl
  | succ n ih =>
      rw [List.replicate_succ', run_append, ih (by omega)]
      show HistorySite.mk (s.history.navigating current (i + n)).down.1 s.file = _
      rw [down_within (by omega)]
      rfl

/-- As many times down as up: the last one returns the line one came from. -/
theorem run_up_down {n : Nat} (hn : n < s.history.entries.length) (hindex : s.history.index = none)
    (current : List Char) :
    (s.run (List.replicate (n + 1) (.up current) ++ List.replicate (n + 1) .down)).1
        = { s with history := { s.history with index := none, pending := current } }
      ∧ (s.run (List.replicate (n + 1) (.up current) ++ List.replicate (n + 1) .down)).2.getLast?
        = some (some current) := by
  have hdown := @run_down s (s.history.entries.length - (n + 1)) n (by omega) current
  have hlast := @down_last s.history (s.history.entries.length - (n + 1) + n) (by omega) current
  have hsplit : List.replicate (n + 1) HistoryOp.down = List.replicate n .down ++ [.down] :=
    List.replicate_succ'
  rw [hsplit, run_append, run_append, run_up hn hindex, hdown]
  have hone : (HistorySite.mk (s.history.navigating current (s.history.entries.length - (n + 1) + n))
      s.file).run [.down]
      = (⟨{ s.history with index := none, pending := current }, s.file⟩, [some current]) := by
    simp only [run, step, hlast]
  rw [hone]
  refine ⟨rfl, ?_⟩
  rw [← List.append_assoc]
  exact List.getLast?_concat

/-! ## The file -/

theorem evict_lastLines (lines : List (List Char)) (entry : List Char) :
    evict (lastLines lines ++ [entry]) = lastLines (lines ++ [entry]) := by
  have hlen :
      (lastLines lines ++ [entry]).length = lines.length - (lines.length - maxHistoryEntries) + 1 := by
    rw [List.length_append, lastLines, List.length_drop, List.length_singleton]
  have hsame : lastLines lines ++ [entry] = (lines ++ [entry]).drop (lines.length - maxHistoryEntries) := by
    rw [List.drop_append_of_le_length (by omega), lastLines]
  unfold evict
  rw [hlen, hsame, lastLines, List.length_append, List.length_singleton]
  split
  · have hdrop : lines.length - maxHistoryEntries + 1 = lines.length + 1 - maxHistoryEntries := by omega
    rw [List.drop_drop, hdrop]
  · have hdrop : lines.length - maxHistoryEntries = lines.length + 1 - maxHistoryEntries := by omega
    rw [hdrop]

/-- The file is a text of whole lines, and the entries are the last of them. -/
def Mirrored (s : HistorySite) : Prop :=
  ∃ text, Lines.Ended text ∧ (s.file = some (Utf8.encode text) ∨ s.file = none ∧ text = [])
    ∧ s.history.entries = lastLines (Lines.lines text)

theorem readLines_text {text : List Char} {file : Option (List UInt8)}
    (h : file = some (Utf8.encode text) ∨ file = none ∧ text = []) :
    readLines file = Lines.lines text := by
  obtain rfl | ⟨rfl, rfl⟩ := h
  · simp [readLines]
  · rfl

theorem opened_mirrored {text : List Char} {file : Option (List UInt8)} (hended : Lines.Ended text)
    (h : file = some (Utf8.encode text) ∨ file = none ∧ text = []) : (opened file).Mirrored := by
  refine ⟨text, hended, h, ?_⟩
  rw [← readLines_text h, opened, new_entries]

/-- Reopened, it is the same. -/
theorem Mirrored.reopened (h : s.Mirrored) : (opened s.file).history.entries = s.history.entries := by
  obtain ⟨text, -, hfile, hentries⟩ := h
  rw [hentries, ← readLines_text hfile, opened, new_entries]

/-- The command is on one line, and what is appended reaches the file. -/
def Plain : HistoryOp → Prop
  | .add command outcome => '\n' ∉ command ∧ outcome = .works
  | _ => True

theorem step_mirrored (h : s.Mirrored) {op : HistoryOp} (hp : Plain op) : (s.step op).1.Mirrored := by
  obtain ⟨text, hended, hfile, hentries⟩ := h
  -- only an appended command changes the entries, and then the file gets it too
  have hkept {s' : HistorySite} (hf : s'.file = s.file) (he : s'.history.entries = s.history.entries) :
      s'.Mirrored := ⟨text, hended, by rw [hf]; exact hfile, by rw [he]; exact hentries⟩
  cases op with
  | up current =>
      refine hkept rfl ?_
      rw [step_history]
      unfold CommandHistory.up
      dsimp only
      split
      · rfl
      · split <;> rfl
  | down =>
      refine hkept rfl ?_
      rw [step_history]
      unfold CommandHistory.down
      dsimp only
      split
      · rfl
      · split <;> rfl
  | abandonNavigation current => exact hkept rfl rfl
  | add command outcome =>
      obtain ⟨hline, rfl⟩ := hp
      obtain hadd | hadd | ⟨-, -, hadd⟩ := s.history.add_cases command
      · refine hkept ?_ ?_
        all_goals simp [step, hadd]
      · refine hkept ?_ ?_
        all_goals simp [step, hadd]
      · have hcr : (trim command).getLast? ≠ some '\r' := fun hlast => nomatch trim_getLast? hlast
        have hfile' : s.file.getD [] = Utf8.encode text := by
          obtain hsome | ⟨hnone, rfl⟩ := hfile
          · rw [hsome]
            rfl
          · rw [hnone]
            rfl
        refine ⟨text ++ (trim command ++ ['\n']), Lines.Ended.snoc _ _, .inl ?_, ?_⟩
        · simp [step, hadd, appendToFile, hfile', Utf8.encode_append]
        · rw [step_history]
          dsimp only
          rw [hadd, Lines.lines_snoc hended (fun hmem => hline (mem_of_mem_trim hmem)) hcr,
            ← evict_lastLines, ← hentries]

theorem run_mirrored {ops : List HistoryOp} (h : s.Mirrored) (hp : ∀ op ∈ ops, Plain op) :
    (s.run ops).1.Mirrored := by
  induction ops generalizing s with
  | nil => exact h
  | cons op ops ih =>
      exact ih (step_mirrored h (hp op List.mem_cons_self)) fun op' hop' =>
        hp op' (List.mem_cons_of_mem op hop')

end HistorySite

namespace Proof

open HistorySite

/--
**The command history.**

After any calls on a history opened on any file, whatever the appends do: the index lies in
the entries, so `up` and `down` find what they look for, there are at most a thousand entries,
and `add` puts no two equal ones side by side. As many times down as up returns the line one
came from. And if the file was a text of whole lines (or absent), no command has a line
break in it and the appends work, the file reopens with the same entries.
-/
theorem command_history (file : Option (List UInt8)) (ops : List HistoryOp) (s : HistorySite)
    (hs : ((opened file).run ops).1 = s) :
    s.history.InRange
      ∧ (∀ current, s.history.entries ≠ [] →
        ∃ entry ∈ s.history.entries, (s.history.up current).2 = some entry)
      ∧ (∀ i, s.history.index = some i →
        ∃ found, s.history.down.2 = some found ∧ (found ∈ s.history.entries ∨ found = s.history.pending))
      ∧ (∀ command x front back, (s.history.add command).entries = front ++ x :: x :: back →
        ∃ front' back', s.history.entries = front' ++ x :: x :: back')
      ∧ (∀ current k, s.history.index = none → 1 ≤ k → k ≤ s.history.entries.length →
        (s.run (List.replicate k (.up current) ++ List.replicate k .down)).1
            = { s with history := { s.history with index := none, pending := current } }
          ∧ (s.run (List.replicate k (.up current) ++ List.replicate k .down)).2.getLast?
            = some (some current))
      ∧ (∀ text, Lines.Ended text → (file = some (Utf8.encode text) ∨ file = none ∧ text = []) →
        (∀ op ∈ ops, Plain op) → (opened s.file).history.entries = s.history.entries) := by
  subst hs
  have hr : ((opened file).run ops).1.history.InRange :=
    run_inRange ops (CommandHistory.new_inRange (readLines file))
  refine ⟨hr, fun current hne => CommandHistory.up_found hr current hne,
    fun i hi => CommandHistory.down_found i hi,
    fun command x front back heq => CommandHistory.add_no_repeat heq, fun current k hindex hk hle => ?_,
    fun text hended hfile hplain => (run_mirrored (opened_mirrored hended hfile) hplain).reopened⟩
  obtain ⟨n, rfl⟩ : ∃ n, k = n + 1 := ⟨k - 1, by omega⟩
  exact run_up_down (by omega) hindex current

/-- Two commands in a new file: up and down again, and the file reopened. -/
theorem command_history_two :
    (((opened none).run [.add ['a'] .works, .add ['b'] .works]).1.run
        (List.replicate 2 (.up ['c']) ++ List.replicate 2 .down)).2.getLast? = some (some ['c'])
      ∧ (opened ((opened none).run [.add ['a'] .works, .add ['b'] .works]).1.file).history.entries
        = ((opened none).run [.add ['a'] .works, .add ['b'] .works]).1.history.entries := by
  obtain ⟨-, -, -, -, hnav, hfile⟩ :=
    command_history none [.add ['a'] .works, .add ['b'] .works] _ rfl
  refine ⟨(hnav ['c'] 2 (by decide) (by decide) (by decide)).2, hfile [] (.inl rfl) (.inr ⟨rfl, rfl⟩) ?_⟩
  intro op hop
  obtain rfl | rfl : op = .add ['a'] .works ∨ op = .add ['b'] .works := by simpa using hop
  · exact ⟨by decide, rfl⟩
  · exact ⟨by decide, rfl⟩

end Proof

end Irosh
