import Mathlib.Data.List.InsertIdx
import Irosh.Lib.Terminal
import Irosh.Proof.EditSession

/-!
# What the terminal shows of the line

The prompt is drawn anew after every change, so it always shows the line that is edited. The
escape line begins wherever the remote left the cursor. It is only ever extended on the
screen, by the last byte of the line, and that is right if the line was extended by one byte
at its end. A Backspace, a move of the cursor, a recalled line are shown as one more byte.

The bytes of every call are read by a terminal of one line, and what it shows is compared
with the editor.
-/

namespace Irosh

open Exec Terminal

/-! ## Reading what is drawn -/

theorem feed_digit {s : Screen} {m d : Nat} (hs : s.state = .csi m) (hd : d < 10) :
    s.feed (UInt8.ofNat (0x30 + d)) = { s with state := .csi (m * 10 + d) } := by
  have hnat : (UInt8.ofNat (0x30 + d)).toNat = 0x30 + d := by
    rw [UInt8.toNat_ofNat']
    omega
  have hrange : 0x30 ≤ UInt8.ofNat (0x30 + d) ∧ UInt8.ofNat (0x30 + d) ≤ 0x39 := by
    rw [UInt8.le_iff_toNat_le, UInt8.le_iff_toNat_le, hnat]
    constructor
    · show 0x30 ≤ 0x30 + d
      omega
    · show 0x30 + d ≤ 0x39
      omega
  rw [Screen.feed, hs]
  dsimp only
  rw [if_pos hrange, hnat, Nat.add_sub_cancel_left]

theorem run_decimalFuel {s : Screen} (hs : s.state = .csi 0) {fuel n : Nat} (h : n < fuel) :
    s.run (decimalFuel fuel n) = { s with state := .csi n } := by
  induction fuel generalizing n with
  | zero => omega
  | succ fuel ih =>
      rw [decimalFuel]
      by_cases hn : n < 10
      · rw [if_pos hn, Screen.run_cons, feed_digit hs hn, Nat.zero_mul, Nat.zero_add]
        rfl
      · rw [if_neg hn, Screen.run_append, ih (by omega), Screen.run_cons,
          feed_digit rfl (Nat.mod_lt n (by decide))]
        have hdiv : n / 10 * 10 + n % 10 = n := by omega
        rw [hdiv]
        rfl

/-- A move of the cursor leaves the row alone. -/
theorem run_csi {s : Screen} (hs : s.state = .ground) (n : Nat) {final : UInt8}
    (hf : final = 0x43 ∨ final = 0x44) :
    (s.run (csi n final)).row = s.row ∧ (s.run (csi n final)).state = .ground := by
  have hopen : s.run [0x1b, 0x5b] = { s with state := .csi 0 } := by
    obtain ⟨row, col, state⟩ := s
    cases hs
    rfl
  rw [csi, Screen.run_append, Screen.run_append, hopen, decimal,
    run_decimalFuel (s := { s with state := .csi 0 }) rfl (Nat.lt_succ_self n)]
  rcases hf with rfl | rfl
  · exact ⟨rfl, rfl⟩
  · exact ⟨rfl, rfl⟩

theorem promptText_printable : ∀ b ∈ promptText, isPrintable b = true := List.all_eq_true.mp rfl

/-- What `render_line` draws up to the line: the row is erased. -/
theorem run_redraw {s : Screen} (hs : s.state = .ground) {front : List UInt8}
    (hfront : ∀ b ∈ front, isPrintable b = true) :
    s.run ([0x0d] ++ front ++ eraseToEnd) = ⟨front, front.length, .ground⟩ := by
  rw [Screen.run_append, Screen.run_append, Screen.run_return hs,
    Screen.run_printable rfl (Nat.zero_le _) hfront]
  rw [eraseToEnd, Screen.run_erase rfl, List.take_zero, List.nil_append, Nat.zero_add,
    List.take_left]

namespace LineSession

variable {line : LineSession} {s : Screen}

/-- Every byte of the line is shown as it is. -/
def Printable (line : LineSession) : Prop := ∀ b ∈ line.editor.line, isPrintable b = true

/-- At the prompt a redraw shows the line. -/
theorem run_rendered_prompt (hs : s.state = .ground) (hm : line.editor.mode = .prompt)
    (hp : line.Printable) :
    (s.run line.rendered).row = promptText ++ line.editor.line
      ∧ (s.run line.rendered).state = .ground := by
  have hline : (Screen.mk promptText promptText.length .ground).run line.editor.line
      = ⟨promptText ++ line.editor.line, promptText.length + line.editor.line.length, .ground⟩ :=
    Screen.run_printable_end rfl rfl hp
  unfold rendered
  rw [hm]
  dsimp only
  rw [Screen.run_append, Screen.run_append, run_redraw hs promptText_printable, hline]
  split
  · exact run_csi rfl _ (.inr rfl)
  · exact ⟨rfl, rfl⟩

/-- Redrawing the escape line shows it, and nothing else. -/
theorem run_rendered_escape (hs : s.state = .ground) (hm : line.editor.mode = .escape)
    (hp : line.Printable) (hend : line.editor.cursor = line.editor.line.length) :
    s.run line.rendered = ⟨line.editor.line, line.editor.line.length, .ground⟩ := by
  have hline : (Screen.mk [] 0 .ground).run line.editor.line
      = ⟨line.editor.line, line.editor.line.length, .ground⟩ := by
    rw [Screen.run_printable_end rfl rfl hp, List.nil_append, List.length_nil, Nat.zero_add]
  have hredraw := @run_redraw s hs [] fun b hb => absurd hb List.not_mem_nil
  unfold rendered
  rw [hm]
  dsimp only
  rw [Screen.run_append, Screen.run_append, hredraw, List.length_nil, hline, hend, Nat.sub_self,
    if_neg (Nat.lt_irrefl 0)]
  rfl

/-- A finished line is left for a new row. -/
theorem run_finalized (hs : s.state = .ground) : s.run line.finalized = ⟨[], 0, .ground⟩ := by
  unfold finalized
  dsimp only
  rw [Screen.run_append]
  split
  · exact Screen.run_newline (run_csi hs _ (.inl rfl)).2
  · exact Screen.run_newline hs

/-- The last byte of the line, at the end of the row. -/
theorem run_echo (hs : s.state = .ground) (hcol : s.col = s.row.length) (hp : line.Printable) :
    s.run line.echoEscapeLine
      = ⟨s.row ++ line.editor.line.getLast?.toList,
        (s.row ++ line.editor.line.getLast?.toList).length, .ground⟩ := by
  have hlast : ∀ b ∈ line.echoEscapeLine, isPrintable b = true := by
    intro b hb
    rw [echoEscapeLine, Option.mem_toList] at hb
    exact hp b (List.mem_of_getLast? hb)
  rw [Screen.run_printable_end hs hcol hlast, List.length_append]
  rfl

/-- The terminal shows the line: behind what stood in front of the escape line, or behind the prompt.
Where a command has been run its own output ends with the prompt. -/
def Shown (line : LineSession) (s : Screen) (front : List UInt8) : Prop :=
  match line.editor.mode with
  | .escape => s.row = front ++ line.editor.line
  | .prompt => s.row = promptText ++ line.editor.line ∨ s.row = [] ∧ line.editor.line = []

/-- What has to be kept for it: the escape line ends at the cursor of the terminal. -/
structure Right (line : LineSession) (s : Screen) (front : List UInt8) : Prop where
  shown : line.Shown s front
  atEnd : line.editor.mode = .escape → s.col = s.row.length
  printable : line.Printable
  inLine : line.editor.InLine

theorem shown_escape (hm : line.editor.mode = .escape) {front : List UInt8} :
    line.Shown s front ↔ s.row = front ++ line.editor.line := by
  rw [Shown, hm]

theorem shown_prompt (hm : line.editor.mode = .prompt) {front : List UInt8} :
    line.Shown s front
      ↔ s.row = promptText ++ line.editor.line ∨ s.row = [] ∧ line.editor.line = [] := by
  rw [Shown, hm]

theorem renderLine_shown {front : List UInt8} : line.renderLine.Shown s front ↔ line.Shown s front := Iff.rfl

/-- Between lines the cursor is at the end of the row, or on its last byte. -/
structure Between (s : Screen) : Prop where
  inRow : s.col ≤ s.row.length
  atEnd : s.row.length ≤ s.col + 1

theorem between_newRow : Between ⟨[], 0, .ground⟩ := ⟨Nat.le_refl _, Nat.zero_le _⟩

/-- A fresh prompt on a new row. -/
theorem newPrompt_right (front : List UInt8) (hs : s.row = [] ∨ s.row = promptText) :
    newPrompt.Right s front where
  shown := by
    rw [shown_prompt rfl]
    rcases hs with hempty | hprompt
    · exact .inr ⟨hempty, rfl⟩
    · exact .inl (by rw [hprompt]; rfl)
  atEnd := fun hm => by cases hm
  printable := fun b hb => absurd hb List.not_mem_nil
  inLine := Nat.le_refl _

/-- Backing over the one byte of an escape line. -/
theorem run_cleared {front : List UInt8} {x : UInt8} (hs : s.state = .ground)
    (hrow : s.row = front ++ [x]) (hcol : s.col = s.row.length) :
    (s.run [0x08, 0x20, 0x08]).state = .ground ∧ Between (s.run [0x08, 0x20, 0x08]) := by
  obtain ⟨row, col, state⟩ := s
  cases hs
  dsimp only at hrow hcol
  have hlen : row.length = front.length + 1 := by rw [hrow, List.length_append, List.length_singleton]
  have hback : (Screen.mk row col .ground).run [0x08] = ⟨row, front.length, .ground⟩ := by
    rw [hcol, hlen]
    rfl
  have hblank : (Screen.mk row front.length .ground).run [0x20]
      = ⟨front ++ [0x20], front.length + 1, .ground⟩ := by
    rw [Screen.run_printable rfl (by dsimp only; omega) (List.all_eq_true.mp rfl), hrow]
    simp
  have hsplit : [0x08, 0x20, 0x08] = ([0x08] ++ [0x20] ++ [0x08] : List UInt8) := rfl
  rw [hsplit, Screen.run_append, Screen.run_append, hback, hblank]
  refine ⟨rfl, ?_, ?_⟩
  · show front.length + 1 - 1 ≤ (front ++ [0x20]).length
    rw [List.length_append, List.length_singleton]
    omega
  · show (front ++ [0x20]).length ≤ front.length + 1 - 1 + 1
    rw [List.length_append, List.length_singleton]
    omega

end LineSession

/-! ## What an event shows -/

namespace LineEditor

variable {ed : LineEditor} {h : CommandHistory}

/-- A recalled line can be shown, and it extends an escape line by one byte at most. -/
def Recallable (ed : LineEditor) (found : Option (List Char)) : Prop :=
  ∀ text, found = some text →
    (∀ b ∈ intoBytes text, isPrintable b = true)
    ∧ (ed.mode = .escape → intoBytes text = ed.line ++ (intoBytes text).getLast?.toList)

/-- What is shown of an event is what it does. On an escape line that is so if nothing happens, or if a
byte is inserted with none but its like behind it, or if the only byte is taken back. -/
def Faithful (ed : LineEditor) (h : CommandHistory) : EditorEvent → Prop
  | .insertByte b => ed.mode = .escape → ∀ c ∈ ed.line.drop ed.cursor, c = b
  | .backspace => ed.mode = .escape → ed.cursor = 0 ∨ ed.line.length = 1
  | .delete => ed.mode = .escape → ed.line.length ≤ ed.cursor
  | .moveLeft => ed.mode = .escape → ed.cursor = 0
  | .moveRight => ed.mode = .escape → ed.line.length ≤ ed.cursor
  | .moveHome | .moveEnd => ed.mode ≠ .escape
  | .historyUp => ed.Recallable (h.up ed.text).2
  | .historyDown => ed.Recallable h.down.2
  | .tab | .submit => True

/-- A byte in front of its like is a byte at the end. -/
theorem insertIdx_like {line : List UInt8} {cursor : Nat} {b : UInt8} (hcur : cursor ≤ line.length)
    (hlike : ∀ c ∈ line.drop cursor, c = b) : line.insertIdx cursor b = line ++ [b] := by
  induction cursor generalizing line with
  | zero =>
      have hall : line = List.replicate line.length b := by
        rw [List.eq_replicate_iff]
        exact ⟨rfl, hlike⟩
      rw [List.insertIdx_zero, hall, ← List.replicate_succ, List.replicate_succ']
  | succ cursor ih =>
      cases line with
      | nil => cases hcur
      | cons x line =>
          rw [List.insertIdx_succ_cons, ih (Nat.le_of_succ_le_succ hcur) hlike]
          rfl

/-- **A faithful event extends the escape line by its new last byte**, if it is shown at all. -/
theorem apply_extends (hed : ed.InLine) {event : EditorEvent} (hf : ed.Faithful h event)
    (hm : ed.mode = .escape) (hrender : (ed.apply h event).2.2 = .render) :
    (ed.apply h event).1.line = ed.line ++ (ed.apply h event).1.line.getLast?.toList := by
  unfold InLine at hed
  cases event with
  | insertByte b =>
      show ed.line.insertIdx ed.cursor b = ed.line ++ (ed.line.insertIdx ed.cursor b).getLast?.toList
      rw [insertIdx_like hed (hf hm), List.getLast?_append_cons]
      rfl
  | backspace =>
      simp only [apply] at hrender
      rcases hf hm with hcur | hone
      · simp [hcur] at hrender
      · obtain ⟨x, hx⟩ := List.length_eq_one_iff.mp hone
        by_cases hcur : ed.cursor = 0
        · simp [hcur] at hrender
        · have hend : ed.cursor = 1 := by omega
          simp [hend, hx, hm] at hrender
  | delete =>
      simp only [apply] at hrender
      rw [if_pos (hf hm)] at hrender
      cases hrender
  | moveLeft =>
      simp only [apply] at hrender
      rw [if_neg (by rw [hf hm]; omega)] at hrender
      cases hrender
  | moveRight =>
      have hend := hf hm
      simp only [apply] at hrender
      rw [if_neg (by omega)] at hrender
      cases hrender
  | moveHome => exact absurd hm hf
  | moveEnd => exact absurd hm hf
  | historyUp =>
      simp only [apply] at hrender ⊢
      split
      · rename_i history prev hup
        exact (hf prev (by rw [hup])).2 hm
      · rename_i history hup
        rw [hup] at hrender
        cases hrender
  | historyDown =>
      simp only [apply] at hrender ⊢
      split
      · rename_i history next hdown
        exact (hf next (by rw [hdown])).2 hm
      · rename_i history hdown
        rw [hdown] at hrender
        cases hrender
  | tab => cases hrender
  | submit =>
      simp only [apply] at hrender
      split at hrender <;> cases hrender

theorem apply_printable (hed : ∀ b ∈ ed.line, isPrintable b = true) {event : EditorEvent}
    (hinsert : ∀ b, event = .insertByte b → isPrintable b = true) (hf : ed.Faithful h event) :
    ∀ b ∈ (ed.apply h event).1.line, isPrintable b = true := by
  intro b hb
  cases event with
  | insertByte c =>
      rcases List.eq_or_mem_of_mem_insertIdx hb with heq | hold
      · rw [heq]
        exact hinsert c rfl
      · exact hed b hold
  | backspace =>
      simp only [apply] at hb
      split at hb
      · exact hed b hb
      · exact hed b (List.mem_of_mem_eraseIdx hb)
  | delete =>
      simp only [apply] at hb
      split at hb
      · exact hed b hb
      · exact hed b (List.mem_of_mem_eraseIdx hb)
  | moveLeft =>
      simp only [apply] at hb
      split at hb <;> exact hed b hb
  | moveRight =>
      simp only [apply] at hb
      split at hb <;> exact hed b hb
  | moveHome => exact hed b hb
  | moveEnd => exact hed b hb
  | historyUp =>
      simp only [apply] at hb
      split at hb
      · rename_i history prev hup
        exact (hf prev (by rw [hup])).1 b hb
      · exact hed b hb
  | historyDown =>
      simp only [apply] at hb
      split at hb
      · rename_i history next hdown
        exact (hf next (by rw [hdown])).1 b hb
      · exact hed b hb
  | tab => exact hed b hb
  | submit =>
      simp only [apply] at hb
      split at hb <;> exact hed b hb

/-- An escape line is only emptied from one byte. -/
theorem apply_cleared (hed : ed.InLine) (event : EditorEvent)
    (hc : (ed.apply h event).2.2 = .clearAndExit) :
    ed.mode = .escape ∧ (∃ x, ed.line = [x]) ∧ (ed.apply h event).1.line = [] := by
  unfold InLine at hed
  cases event with
  | backspace =>
      simp only [apply] at hc ⊢
      by_cases hcur : ed.cursor = 0
      · simp [hcur] at hc
      · rw [if_neg hcur] at hc ⊢
        dsimp only at hc ⊢
        by_cases hempty : ed.line.eraseIdx (ed.cursor - 1) = [] ∧ ed.mode = .escape
        · have hlen := congrArg List.length hempty.1
          rw [List.length_eraseIdx_of_lt (by omega), List.length_nil] at hlen
          have hone : ed.line.length = 1 := by omega
          exact ⟨hempty.2, List.length_eq_one_iff.mp hone, hempty.1⟩
        · rw [if_neg hempty] at hc
          cases hc
  | insertByte c => cases hc
  | delete =>
      simp only [apply] at hc
      split at hc <;> cases hc
  | moveLeft =>
      simp only [apply] at hc
      split at hc <;> cases hc
  | moveRight =>
      simp only [apply] at hc
      split at hc <;> cases hc
  | moveHome => cases hc
  | moveEnd => cases hc
  | historyUp =>
      simp only [apply] at hc
      split at hc <;> cases hc
  | historyDown =>
      simp only [apply] at hc
      split at hc <;> cases hc
  | tab => cases hc
  | submit =>
      simp only [apply] at hc
      split at hc <;> cases hc

end LineEditor

@[simp] theorem Output.toLocal_shown (bytes : List UInt8) : (Output.shown bytes).toLocal = bytes := rfl

@[simp] theorem Output.toLocal_remote (bytes : List UInt8) : (Output.remote bytes).toLocal = [] := rfl

@[simp] theorem Output.toLocal_action (a : EscapeAction) : (Output.action a).toLocal = [] := rfl

@[simp] theorem Output.toLocal_empty : Output.empty.toLocal = [] := rfl

namespace InputEngine

variable {split : ShellWords} {e : InputEngine} {line : LineSession} {s : Screen}
  {front bytes : List UInt8}

/-- What is left on the screen by a call. -/
def Leaves (split : ShellWords) (effect : EditorEffect) (r : InputEngine × LineSession × Output)
    (s : Screen) (front : List UInt8) : Prop :=
  (s.run r.2.2.toLocal).state = .ground
    ∧ (closes split effect = true → LineSession.Between (s.run r.2.2.toLocal))
    ∧ (closes split effect = false → r.2.1.Right (s.run r.2.2.toLocal) front)

/-- Where the line is finished and the engine goes back to the remote. -/
theorem leaves_finished {effect : EditorEffect} {r : InputEngine × LineSession × Output}
    (line : LineSession) (hs : s.state = .ground) (hc : closes split effect = true)
    (hout : r.2.2.toLocal = line.finalized) :
    Leaves split effect r s front := by
  have hrun : s.run r.2.2.toLocal = ⟨[], 0, .ground⟩ := by rw [hout, LineSession.run_finalized hs]
  refine ⟨by rw [hrun], fun _ => by rw [hrun]; exact LineSession.between_newRow, fun hfalse => ?_⟩
  rw [hc] at hfalse
  cases hfalse

/-- Where it is finished and there is a fresh prompt. -/
theorem leaves_prompt {effect : EditorEffect} {r : InputEngine × LineSession × Output}
    (line : LineSession) (hs : s.state = .ground) (hc : closes split effect = false)
    (hline : r.2.1 = .newPrompt)
    (hout : r.2.2.toLocal = line.finalized ∨ r.2.2.toLocal = line.finalized ++ promptText
      ∨ r.2.2.toLocal = line.finalized ++ (crlf ++ promptText)) :
    Leaves split effect r s front := by
  have hprompt : (Screen.mk [] 0 .ground).run promptText = ⟨promptText, 7, .ground⟩ := by decide
  have hnext : (Screen.mk [] 0 .ground).run (crlf ++ promptText) = ⟨promptText, 7, .ground⟩ := by decide
  have hrun : (s.run r.2.2.toLocal).state = .ground
      ∧ ((s.run r.2.2.toLocal).row = [] ∨ (s.run r.2.2.toLocal).row = promptText) := by
    rcases hout with hout | hout | hout
    · rw [hout, LineSession.run_finalized hs]
      exact ⟨rfl, .inl rfl⟩
    · rw [hout, Screen.run_append, LineSession.run_finalized hs, hprompt]
      exact ⟨rfl, .inr rfl⟩
    · rw [hout, Screen.run_append, LineSession.run_finalized hs, hnext]
      exact ⟨rfl, .inr rfl⟩
  refine ⟨hrun.1, fun htrue => ?_, fun _ => ?_⟩
  · rw [hc] at htrue
    cases htrue
  · rw [hline]
    exact LineSession.newPrompt_right front hrun.2

theorem submitEscape_leaves (hs : s.state = .ground) :
    Leaves split (.submitEscape bytes) (e.submitEscape split line bytes) s front := by
  unfold submitEscape
  cases hp : parseEscape split bytes with
  | none => exact leaves_finished line hs (by simp [closes, hp]) (by simp [exitLocalPrompt])
  | some action =>
      cases action with
      | commandPrompt => exact leaves_prompt line hs (by simp [closes, hp]) rfl (.inr (.inl (by simp)))
      | sendLiteral payload => exact leaves_finished line hs (by simp [closes, hp]) (by simp)
      | disconnect | help | runLocal | requestCompletion =>
          exact leaves_finished line hs (by simp [closes, hp]) (by simp [exitLocalPrompt])

theorem submitPrompt_leaves (hs : s.state = .ground) :
    Leaves split (.submitPrompt bytes) (e.submitPrompt split line bytes) s front := by
  unfold submitPrompt
  cases hp : parseLocalCommand split bytes with
  | none => exact leaves_prompt line hs (by simp [closes, hp]) rfl (.inr (.inr (by simp)))
  | some command =>
      cases command with
      | exit | disconnect =>
          exact leaves_finished line hs (by simp [closes, hp]) (by simp [exitLocalPrompt])
      | help | lpwd | lls | lcd | paths | clear | put | get | usageError | unknown =>
          exact leaves_prompt line hs (by simp [closes, hp]) rfl (.inl (by simp))

/-- Where nothing is shown and nothing has changed. -/
theorem leaves_same {effect : EditorEffect} {r : InputEngine × LineSession × Output}
    (hs : s.state = .ground) (hr : line.Right s front) (hc : closes split effect = false)
    (hline : r.2.1 = line) (hout : r.2.2.toLocal = []) : Leaves split effect r s front := by
  have hrun : s.run r.2.2.toLocal = s := by rw [hout, Screen.run_nil]
  refine ⟨by rw [hrun, hs], fun htrue => ?_, fun _ => by rw [hrun, hline]; exact hr⟩
  rw [hc] at htrue
  cases htrue

/-- Where a changed line is shown. -/
theorem leaves_rendered {r : InputEngine × LineSession × Output}
    (hground : (s.run r.2.2.toLocal).state = .ground) (hr : r.2.1.Right (s.run r.2.2.toLocal) front) :
    Leaves split .render r s front := by
  refine ⟨hground, fun htrue => ?_, fun _ => hr⟩
  cases htrue

/-- A redrawn prompt. -/
theorem rendered_right (hs : s.state = .ground) (hm : line.editor.mode = .prompt) (hp : line.Printable)
    (hin : line.editor.InLine) :
    (s.run line.rendered).state = .ground ∧ line.renderLine.Right (s.run line.rendered) front := by
  have hrun := LineSession.run_rendered_prompt hs hm hp
  refine ⟨hrun.2, ?_, fun hesc => ?_, hp, hin⟩
  · rw [LineSession.renderLine_shown, LineSession.shown_prompt hm]
    exact .inl hrun.1
  · cases hm.symm.trans hesc

/-- **Every faithful event leaves the line shown.** -/
theorem applyEditorEvent_leaves (hs : s.state = .ground) (hr : line.Right s front)
    (event : EditorEvent) (hinsert : ∀ b, event = .insertByte b → isPrintable b = true)
    (hf : line.editor.Faithful (e.historyOf line.editor.mode) event) :
    Leaves split (line.editor.apply (e.historyOf line.editor.mode) event).2.2
      (e.applyEditorEvent split line event) s front := by
  have hprint := line.editor.apply_printable hr.printable hinsert hf
  have hextends := LineEditor.apply_extends hr.inLine hf
  have hin := LineEditor.apply_inLine (h := e.historyOf line.editor.mode) hr.inLine event
  have hmode := line.editor.apply_mode (e.historyOf line.editor.mode) event
  have hsame := line.editor.apply_same (h := e.historyOf line.editor.mode) event
  have hcleared := line.editor.apply_cleared (h := e.historyOf line.editor.mode) hr.inLine event
  unfold applyEditorEvent
  revert hprint hextends hin hmode hsame hcleared
  generalize line.editor.apply (e.historyOf line.editor.mode) event = r
  obtain ⟨editor, history, effect⟩ := r
  intro hprint hextends hin hmode hsame hcleared
  cases effect with
  | noOp =>
      have heq : editor = line.editor := hsame (by simp) (by simp)
      subst heq
      exact leaves_same hs hr rfl rfl rfl
  | requestCompletion =>
      have heq : editor = line.editor := hsame (by simp) (by simp)
      subst heq
      exact leaves_same hs hr rfl rfl rfl
  | render =>
      have hp : LineSession.Printable { line with editor := editor } := hprint
      cases hm : editor.mode with
      | escape =>
          have hold : line.editor.mode = .escape := hmode.symm.trans hm
          have hrun := LineSession.run_echo hs (hr.atEnd hold) hp
          have hrow := (LineSession.shown_escape hold).mp hr.shown
          have hext := hextends hold rfl
          simp only [hm]
          refine leaves_rendered (by rw [Output.toLocal_shown, hrun]) ?_
          rw [Output.toLocal_shown, hrun]
          refine ⟨?_, fun _ => rfl, hp, hin⟩
          -- the row is extended by the byte the line is extended by
          rw [LineSession.shown_escape hm]
          show s.row ++ editor.line.getLast?.toList = front ++ editor.line
          rw [hrow, List.append_assoc, ← hext]
      | prompt =>
          have hdrawn := @rendered_right { line with editor := editor } s front hs hm hp hin
          simp only [hm]
          exact leaves_rendered hdrawn.1 hdrawn.2
  | clearAndExit =>
      obtain ⟨hold, ⟨x, hx⟩, hnil⟩ := hcleared rfl
      have hm : editor.mode = .escape := hmode.trans hold
      have hrow := (LineSession.shown_escape hold).mp hr.shown
      rw [hx] at hrow
      have hrun := LineSession.run_cleared hs hrow (hr.atEnd hold)
      have hline : editor.line = [] := hnil
      have hout : LineSession.clearLinePreview { line with editor := editor } editor.line.length
          = [0x08, 0x20, 0x08] := by
        rw [LineSession.clearLinePreview, hm, hline]
        rfl
      refine ⟨?_, fun _ => ?_, fun hfalse => by cases hfalse⟩
      · simp only [exitLocalPrompt, Output.toLocal_append, Output.toLocal_shown, Output.toLocal_remote,
          List.append_nil, hout]
        exact hrun.1
      · simp only [exitLocalPrompt, Output.toLocal_append, Output.toLocal_shown, Output.toLocal_remote,
          List.append_nil, hout]
        exact hrun.2
  | submitEscape bytes => exact submitEscape_leaves hs
  | submitPrompt bytes => exact submitPrompt_leaves hs

/-- Only printable bytes are inserted. -/
theorem localEvent_printable {state : ControlSequenceState} {byte b : UInt8}
    (h : (localEvent state byte).2 = some (.insertByte b)) : isPrintable b = true := by
  unfold localEvent at h
  split at h
  · unfold consumeLocalAnsi at h
    split at h
    · cases h
    · repeat' split at h
      all_goals cases h
    · cases h
  · repeat' split at h
    all_goals try cases h
    rename_i hrange
    have hne : byte ≠ 0x7f := by
      intro heq
      rw [heq] at hrange
      exact absurd hrange.2 (by decide)
    rw [isPrintable, Bool.and_eq_true, decide_eq_true_eq, bne_iff_ne]
    exact ⟨hrange.1, hne⟩

/-! ## What a read shows -/

/-- Between lines the terminal is ready for one, and while a line is edited it shows it. -/
structure Shows (e : InputEngine) (s : Screen) (front : List UInt8) : Prop where
  ground : s.state = .ground
  between : e.activeLine = none → LineSession.Between s
  right : ∀ line, e.activeLine = some line → line.Right s front

theorem shows_none (hl : e.activeLine = none) (hs : s.state = .ground) (hb : LineSession.Between s) :
    Shows e s front where
  ground := hs
  between := fun _ => hb
  right := fun line hline => by
    rw [hl] at hline
    cases hline

theorem shows_some (hl : e.activeLine = some line) (hs : s.state = .ground) (hr : line.Right s front) :
    Shows e s front where
  ground := hs
  between := fun hnone => by
    rw [hl] at hnone
    cases hnone
  right := fun line' hline => by
    rw [hl] at hline
    cases hline
    exact hr

/-- A `~` at the cursor. -/
theorem newEscape_right (hs : s.state = .ground) (hb : LineSession.Between s) :
    (s.run [LineEditor.tilde]).state = .ground
      ∧ LineSession.newEscape.Right (s.run [LineEditor.tilde]) (s.row.take s.col) := by
  have hrun := @Screen.run_printable s [LineEditor.tilde] hs hb.inRow (List.all_eq_true.mp rfl)
  have hdrop : s.row.drop (s.col + [LineEditor.tilde].length) = [] := by
    rw [List.drop_eq_nil_iff]
    exact hb.atEnd
  rw [hdrop, List.append_nil] at hrun
  rw [hrun]
  refine ⟨rfl, ?_, fun _ => ?_, ?_, Nat.le_refl _⟩
  · rw [LineSession.shown_escape rfl]
    rfl
  · rw [List.length_append, List.length_take_of_le hb.inRow]
  · show ∀ b ∈ [LineEditor.tilde], isPrintable b = true
    exact List.all_eq_true.mp rfl

/-- The event of a byte, if it makes one, is faithful. -/
def FaithfulByte (e : InputEngine) (byte : UInt8) : Prop :=
  ∀ line event, e.activeLine = some line → (localEvent line.controlState byte).2 = some event →
    line.editor.Faithful (e.historyOf line.editor.mode) event

/-- What one byte shows. Until a line is opened nothing is. -/
theorem shows_byte {byte : UInt8} (hok : e.ModeOk) (h : Shows e s front)
    (hfront : e.activeLine = none → front = s.row.take s.col) (hf : e.FaithfulByte byte) :
    Shows (e.processLocal split [byte]).1 (s.run (e.processLocal split [byte]).2.toLocal) front
      ∧ (e.closesAt split byte = false → (e.processLocal split [byte]).1.activeLine = none →
        front = (s.run (e.processLocal split [byte]).2.toLocal).row.take
          (s.run (e.processLocal split [byte]).2.toLocal).col) := by
  rcases hok.cases with ⟨hm, hl⟩ | ⟨line, hm, hl⟩
  · rw [processLocal_remote_byte hm]
    split
    · exact ⟨shows_none hl h.ground (h.between hl), fun _ _ => hfront hl⟩
    split
    · obtain ⟨hground, hright⟩ := newEscape_right h.ground (h.between hl)
      rw [hfront hl]
      exact ⟨shows_some rfl hground hright, fun _ hnone => by cases hnone⟩
    · obtain ⟨-, hline, -⟩ := handleRemoteByte_kept { e with swallowNextEnterPair := none } byte
      exact ⟨shows_none (hline.trans hl) h.ground (h.between hl), fun _ _ => hfront hl⟩
  · have hright := h.right line hl
    rw [processLocal_edit_byte hm hl]
    rcases @localByte_cases split _ _ hm hl byte with
      ⟨hc, -, hbyte⟩ | ⟨hc, -, hbyte⟩
      | ⟨event, r, hev, hr, hclose, hcase⟩
    · -- `^C` and a new row
      have hrun : s.run ([0x5e, 0x43] ++ crlf) = ⟨[], 0, .ground⟩ := by
        rw [Screen.run_append]
        exact Screen.run_newline (Screen.run_printable_ground h.ground (List.all_eq_true.mp rfl))
      rw [hbyte, Output.toLocal_append, Output.toLocal_shown, Output.toLocal_remote, List.append_nil, hrun]
      refine ⟨shows_none rfl rfl LineSession.between_newRow, fun hopen => ?_⟩
      rw [hc] at hopen
      cases hopen
    · rw [hbyte]
      refine ⟨shows_some rfl h.ground ?_, fun _ hnone => by cases hnone⟩
      exact ⟨hright.shown, hright.atEnd, hright.printable, hright.inLine⟩
    · have hadv : (LineSession.advanced line byte).Right s front :=
        ⟨hright.shown, hright.atEnd, hright.printable, hright.inLine⟩
      have hinsert : ∀ b, event = .insertByte b → isPrintable b = true := by
        intro b hb
        rw [hb] at hev
        exact localEvent_printable hev
      have hfaith : (LineSession.advanced line byte).editor.Faithful
          ((e.beforeEvent line byte).historyOf (LineSession.advanced line byte).editor.mode) event := by
        rw [beforeEvent_historyOf]
        exact hf line event hl hev
      have hleaves := @applyEditorEvent_leaves split (e.beforeEvent line byte) _ _ _ h.ground hadv event
        hinsert hfaith
      rw [advanced_apply, ← hr] at hleaves
      obtain ⟨hground, hbetween, hshown⟩ := hleaves
      rw [← hclose] at hbetween hshown
      rcases hcase with ⟨hc, -, hnone, hbyte⟩ | ⟨hc, -, hbyte⟩
      · rw [hbyte]
        refine ⟨shows_none hnone hground (hbetween hc), fun hopen => ?_⟩
        rw [hc] at hopen
        cases hopen
      · rw [hbyte]
        exact ⟨shows_some rfl hground (hshown hc), fun _ hnone => by cases hnone⟩

theorem shows_read {data : List UInt8} (hok : e.ModeOk) (h : Shows e s front)
    (hfront : e.activeLine = none → front = s.row.take s.col)
    (hf : EachByte split FaithfulByte e data) :
    Shows (e.processLocal split data).1 (s.run (e.processLocal split data).2.toLocal) front := by
  induction data generalizing e s with
  | nil =>
      rw [processLocal_nil]
      exact h
  | cons byte rest ih =>
      obtain ⟨hshows, hnext⟩ := @shows_byte split _ _ _ byte hok h hfront hf.1
      rw [processLocal_cons hok]
      cases hc : e.closesAt split byte with
      | true =>
          rw [if_pos rfl]
          exact hshows
      | false =>
          rw [if_neg Bool.false_ne_true, andThen, Output.toLocal_append, Screen.run_append]
          exact ih (modeOk_byte hok byte) hshows (hnext hc) (hf.2 hc)

/-! ## What a completion and a resize show -/

/-- A new row, the suggestions, and another row. -/
theorem run_suggestions (hs : s.state = .ground) {found : List (List Char)}
    (hfound : ∀ b ∈ joinSuggestions found, isPrintable b = true) :
    s.run (crlf ++ joinSuggestions found ++ crlf) = ⟨[], 0, .ground⟩ := by
  rw [Screen.run_append, Screen.run_append]
  have hrow := Screen.run_newline hs
  rw [crlf, hrow]
  exact Screen.run_newline (Screen.run_printable_ground rfl hfound)

/-- A completion that can be shown: it extends an escape line by one byte at most, and suggestions leave
nothing of a row to be restored. -/
def FaithfulCompletion (line : LineSession) (front : List UInt8) : CompletionResult → Prop
  | .none => True
  | .applied text _ => (∀ b ∈ text, isPrintable b = true)
      ∧ (line.editor.mode = .escape → text = line.editor.line ++ text.getLast?.toList)
  | .suggestions found => (∀ b ∈ joinSuggestions found, isPrintable b = true)
      ∧ (line.editor.mode = .escape → front = [] ∧ line.editor.line.length ≤ 1)

theorem shows_completed {result : CompletionResult} (h : Shows e s front)
    (hf : ∀ line, e.activeLine = some line → FaithfulCompletion line front result) :
    Shows (e.completeActiveLine result).1 (s.run (e.completeActiveLine result).2) front := by
  unfold completeActiveLine
  cases hl : e.activeLine with
  | none => exact h
  | some line =>
      have hright := h.right line hl
      have hfaith := hf line hl
      cases result with
      | none => exact h
      | applied text cursor =>
          have hp : LineSession.Printable
              { line with editor := line.editor.replaceLine text cursor } := hfaith.1
          have hin := line.editor.replaceLine_inLine text cursor
          cases hm : line.editor.mode with
          | escape =>
              have hrun := LineSession.run_echo h.ground (hright.atEnd hm) hp
              have hrow := (LineSession.shown_escape hm).mp hright.shown
              simp only [LineEditor.replaceLine, hm] at hrun hp hin ⊢
              rw [hrun]
              refine shows_some rfl rfl ⟨?_, fun _ => rfl, hp, hin⟩
              rw [LineSession.shown_escape rfl]
              show s.row ++ text.getLast?.toList = front ++ text
              rw [hrow, List.append_assoc, ← hfaith.2 hm]
          | prompt =>
              have hrun := @rendered_right _ s front h.ground (by exact hm) hp hin
              simp only [LineEditor.replaceLine, hm] at hrun ⊢
              exact shows_some rfl hrun.1 hrun.2
      | suggestions found =>
          have hrun := run_suggestions h.ground hfaith.1
          cases hm : line.editor.mode with
          | escape =>
              obtain ⟨hfront, hlen⟩ := hfaith.2 hm
              have hecho := @LineSession.run_echo line ⟨[], 0, .ground⟩ rfl rfl hright.printable
              simp only [hm]
              rw [Screen.run_append, hrun, hecho, List.nil_append]
              refine shows_some hl rfl ⟨?_, fun _ => rfl, hright.printable, hright.inLine⟩
              rw [LineSession.shown_escape hm, hfront, List.nil_append]
              -- the last byte is the whole line
              match hline : line.editor.line, hlen with
              | [], _ => rfl
              | [x], _ => rfl
          | prompt =>
              have hprompt := @Screen.run_printable_ground ⟨[], 0, .ground⟩ _ rfl promptText_printable
              have hdrawn := @rendered_right line _ front hprompt hm hright.printable hright.inLine
              simp only [hm]
              rw [Screen.run_append, Screen.run_append, hrun]
              exact shows_some rfl hdrawn.1 hdrawn.2

theorem shows_resized (h : Shows e s front)
    (hf : ∀ line, e.activeLine = some line → line.editor.mode = .escape →
      front = [] ∧ line.editor.cursor = line.editor.line.length) :
    Shows e.handleResize.1 (s.run (e.handleResize.2.getD [])) front := by
  unfold handleResize
  cases hl : e.activeLine with
  | none => exact h
  | some line =>
      have hright := h.right line hl
      cases hm : line.editor.mode with
      | escape =>
          obtain ⟨hfront, hend⟩ := hf line hl hm
          have hrun := LineSession.run_rendered_escape h.ground hm hright.printable hend
          dsimp only [Option.getD_some]
          rw [hrun]
          refine shows_some rfl rfl ⟨?_, fun _ => rfl, hright.printable, hright.inLine⟩
          rw [LineSession.renderLine_shown, LineSession.shown_escape hm, hfront]
          rfl
      | prompt =>
          have hdrawn := @rendered_right line s front h.ground hm hright.printable hright.inLine
          exact shows_some rfl hdrawn.1 hdrawn.2

end InputEngine

/-! ## The terminal -/

/-- The engine, the terminal, and what stood in front of the escape line when it began. -/
structure Displayed where
  engine : InputEngine
  screen : Screen
  front : List UInt8

/-- What the terminal sees. After the remote has written, the cursor stands behind some row. -/
inductive ShownCall where
  | typed (data : List UInt8)
  | remote (data row : List UInt8)
  | completed (result : CompletionResult)
  | resized
  deriving DecidableEq, Repr

namespace Displayed

variable {split : ShellWords} {d : Displayed}

/-- A fresh engine, at the end of some row. -/
def start (escapeLines promptLines : List (List Char)) (row : List UInt8) : Displayed :=
  ⟨.new escapeLines promptLines, ⟨row, row.length, .ground⟩, []⟩

def call (split : ShellWords) (d : Displayed) : ShownCall → Displayed
  | .typed data =>
      { engine := (d.engine.processLocal split data).1
        screen := d.screen.run (d.engine.processLocal split data).2.toLocal
        front := match d.engine.mode with
          -- nothing is shown before the line begins
          | .remote => d.screen.row.take d.screen.col
          | .localEdit => d.front }
  | .remote data row =>
      { d with
        engine := d.engine.observeRemote data
        screen := match d.engine.mode with
          | .remote => ⟨row, row.length, .ground⟩
          -- kept back until the line is done
          | .localEdit => d.screen }
  | .completed result =>
      { d with
        engine := (d.engine.completeActiveLine result).1
        screen := d.screen.run (d.engine.completeActiveLine result).2 }
  | .resized =>
      { d with
        engine := d.engine.handleResize.1
        screen := d.screen.run (d.engine.handleResize.2.getD []) }

def step (split : ShellWords) (d : Displayed) (c : ShownCall) : Option Displayed := some (d.call split c)

/-- The condition on a call. -/
def FaithfulCall (split : ShellWords) (d : Displayed) : ShownCall → Prop
  | .typed data => InputEngine.EachByte split InputEngine.FaithfulByte d.engine data
  | .remote _ _ => True
  | .completed result => ∀ line, d.engine.activeLine = some line →
      InputEngine.FaithfulCompletion line d.front result
  | .resized => ∀ line, d.engine.activeLine = some line → line.editor.mode = .escape →
      d.front = [] ∧ line.editor.cursor = line.editor.line.length

/-- What holds after every call. -/
def Inv (d : Displayed) : Prop := d.engine.ModeOk ∧ d.engine.Shows d.screen d.front

open InputEngine

theorem start_inv (escapeLines promptLines : List (List Char)) (row : List UInt8) :
    (start escapeLines promptLines row).Inv := by
  refine ⟨modeOk_remote rfl rfl, shows_none rfl rfl ?_⟩
  exact ⟨Nat.le_refl _, Nat.le_succ _⟩

theorem call_inv (c : ShownCall) (hd : d.Inv) (hf : FaithfulCall split d c) : (d.call split c).Inv := by
  obtain ⟨hok, hshows⟩ := hd
  cases c with
  | typed data =>
      refine ⟨modeOk_call hok (.typed data), ?_⟩
      rcases hok.cases with ⟨hm, hl⟩ | ⟨line, hm, hl⟩
      · -- the line, if there is to be one, begins at the cursor
        have hbegin : d.engine.Shows d.screen (d.screen.row.take d.screen.col) :=
          shows_none hl hshows.ground (hshows.between hl)
        simp only [call, hm]
        exact shows_read hok hbegin (fun _ => rfl) hf
      · simp only [call, hm]
        refine shows_read hok hshows (fun hnone => ?_) hf
        rw [hl] at hnone
        cases hnone
  | remote data row =>
      refine ⟨@modeOk_call split _ hok (.observed data), ?_⟩
      obtain ⟨hmode, hline⟩ := observeRemote_kept d.engine data
      rcases hok.cases with ⟨hm, hl⟩ | ⟨line, hm, hl⟩
      · simp only [call, hm]
        exact shows_none (hline.trans hl) rfl ⟨Nat.le_refl _, Nat.le_succ _⟩
      · simp only [call, hm]
        exact shows_some (hline.trans hl) hshows.ground (hshows.right line hl)
  | completed result => exact ⟨@modeOk_call split _ hok (.completed result), shows_completed hshows hf⟩
  | resized => exact ⟨@modeOk_call split _ hok .resized, shows_resized hshows hf⟩

end Displayed

namespace Proof

/-- While a line is edited the terminal shows it, if every event so far was one that the display can
follow. -/
theorem terminal_shows_line (split : ShellWords) (escapeLines promptLines : List (List Char))
    (row : List UInt8) (calls : List ShownCall) (d : Displayed)
    (hf : Meets (Displayed.step split) (Displayed.FaithfulCall split)
      (.start escapeLines promptLines row) calls)
    (hx : exec (Displayed.step split) (.start escapeLines promptLines row) calls = some d) :
    ∀ line, d.engine.activeLine = some line → line.Shown d.screen d.front := by
  have hinv : d.Inv := by
    refine exec_invariant (I := Displayed.Inv) ?_ (Displayed.start_inv escapeLines promptLines row) hf hx
    intro d c d' hi hc hs
    cases hs
    exact Displayed.call_inv c hi hc
  intro line hline
  exact (hinv.2.right line hline).shown

/-- Behind `$ `: the escape line `~C`, and `l` at the prompt it opens. -/
theorem terminal_shows_line_prompt :
    ∃ d line, exec (Displayed.step fun _ => none) (.start [] [] [])
        [.remote [] [0x24, 0x20], .typed [0x7e, 0x43], .typed [0x0d], .typed [0x6c]] = some d
      ∧ d.engine.activeLine = some line ∧ line.editor.line = [0x6c]
      ∧ line.Shown d.screen d.front := by
  refine ⟨_, _, rfl, rfl, by decide +kernel, ?_⟩
  refine terminal_shows_line (fun _ => none) [] [] []
    [.remote [] [0x24, 0x20], .typed [0x7e, 0x43], .typed [0x0d], .typed [0x6c]] _ ?_ rfl _ rfl
  refine ⟨trivial, ?_⟩
  rintro d₁ ⟨⟩
  refine ⟨⟨?_, fun _ => ⟨?_, fun _ => trivial⟩⟩, ?_⟩
  · intro line event hline
    cases hline
  · intro line event hline hevent
    cases hline
    cases hevent
    intro _ c hc
    cases hc
  rintro d₂ ⟨⟩
  refine ⟨⟨?_, fun _ => trivial⟩, ?_⟩
  · intro line event hline hevent
    cases hline
    cases hevent
    trivial
  rintro d₃ ⟨⟩
  refine ⟨⟨?_, fun _ => trivial⟩, fun _ _ => trivial⟩
  intro line event hline hevent
  cases hline
  cases hevent
  intro hescape
  cases hescape

/-- `~ab` and a Backspace: the line is `~a`, and the terminal shows `~aba`. -/
theorem backspace_not_shown :
    ∃ d line, exec (Displayed.step fun _ => none) (.start [] [] []) [.typed [0x7e, 0x61, 0x62, 0x7f]]
        = some d
      ∧ d.engine.activeLine = some line ∧ line.editor.line = [0x7e, 0x61]
      ∧ d.screen.row = [0x7e, 0x61, 0x62, 0x61] ∧ d.front = [] ∧ ¬ line.Shown d.screen d.front := by
  refine ⟨_, _, rfl, rfl, by decide +kernel, by decide +kernel, by decide +kernel, ?_⟩
  rw [LineSession.shown_escape (by decide +kernel)]
  decide +kernel

end Proof

end Irosh
