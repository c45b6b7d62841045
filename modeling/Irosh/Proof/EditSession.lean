import Irosh.Proof.InputBytes

/-!
# The editing session

A line is edited exactly while the engine is in `LocalEdit` mode, and the cursor never
leaves it. `display_cursor` is another matter. At the prompt every change of the line is
redrawn, and the redraw brings `display_cursor` along. The escape line is only echoed; a
resize redraws it all the same, and from then on `display_cursor` stays where the cursor
was, however short the line gets.
-/

namespace Irosh

open Exec

/-! ## The editor -/

namespace LineEditor

variable {ed : LineEditor} {h : CommandHistory}

/-- The cursor lies in the line. -/
def InLine (ed : LineEditor) : Prop := ed.cursor ≤ ed.line.length

theorem recalled_inLine (ed : LineEditor) (line : List Char) : (ed.recalled line).InLine := Nat.le_refl _

theorem replaceLine_inLine (ed : LineEditor) (line : List UInt8) (cursor : Nat) :
    (ed.replaceLine line cursor).InLine := Nat.min_le_right _ _

/-- Every event keeps the cursor in the line. -/
theorem apply_inLine (hed : ed.InLine) (event : EditorEvent) : (ed.apply h event).1.InLine := by
  unfold InLine at hed
  cases event with
  | insertByte byte =>
      show ed.cursor + 1 ≤ (ed.line.insertIdx ed.cursor byte).length
      rw [List.length_insertIdx_of_le_length hed]
      omega
  | backspace =>
      simp only [apply]
      split
      · exact hed
      · show ed.cursor - 1 ≤ (ed.line.eraseIdx (ed.cursor - 1)).length
        rw [List.length_eraseIdx_of_lt (by omega)]
        omega
  | delete =>
      simp only [apply]
      split
      · exact hed
      · show ed.cursor ≤ (ed.line.eraseIdx ed.cursor).length
        rw [List.length_eraseIdx_of_lt (by omega)]
        omega
  | moveLeft =>
      simp only [apply]
      split
      · show ed.cursor - 1 ≤ ed.line.length
        omega
      · exact hed
  | moveRight =>
      simp only [apply]
      split
      · show ed.cursor + 1 ≤ ed.line.length
        omega
      · exact hed
  | moveHome => exact Nat.zero_le _
  | moveEnd => exact Nat.le_refl _
  | historyUp =>
      simp only [apply]
      split
      · exact recalled_inLine ed _
      · exact hed
  | historyDown =>
      simp only [apply]
      split
      · exact recalled_inLine ed _
      · exact hed
  | tab => exact hed
  | submit =>
      simp only [apply]
      split
      · exact hed
      · exact hed

/-- Only what is rendered, or empties the escape line, changes the editor. -/
theorem apply_same (event : EditorEvent) (hr : (ed.apply h event).2.2 ≠ .render)
    (hc : (ed.apply h event).2.2 ≠ .clearAndExit) : (ed.apply h event).1 = ed := by
  cases event with
  | insertByte byte => exact absurd rfl hr
  | backspace =>
      simp only [apply] at hr hc ⊢
      split
      · rfl
      · rename_i hcur
        rw [if_neg hcur] at hr hc
        dsimp only at hr hc
        split at hr
        · rename_i hempty
          rw [if_pos hempty] at hc
          exact absurd rfl hc
        · exact absurd rfl hr
  | delete =>
      simp only [apply] at hr ⊢
      split
      · rfl
      · rename_i hcur
        rw [if_neg hcur] at hr
        exact absurd rfl hr
  | moveLeft =>
      simp only [apply] at hr ⊢
      split
      · rename_i hcur
        rw [if_pos hcur] at hr
        exact absurd rfl hr
      · rfl
  | moveRight =>
      simp only [apply] at hr ⊢
      split
      · rename_i hcur
        rw [if_pos hcur] at hr
        exact absurd rfl hr
      · rfl
  | moveHome => exact absurd rfl hr
  | moveEnd => exact absurd rfl hr
  | historyUp =>
      simp only [apply] at hr ⊢
      split
      · rename_i heq
        rw [heq] at hr
        exact absurd rfl hr
      · rfl
  | historyDown =>
      simp only [apply] at hr ⊢
      split
      · rename_i heq
        rw [heq] at hr
        exact absurd rfl hr
      · rfl
  | tab => rfl
  | submit =>
      simp only [apply]
      split
      · rfl
      · rfl

theorem apply_mode (ed : LineEditor) (h : CommandHistory) (event : EditorEvent) :
    (ed.apply h event).1.mode = ed.mode := by
  cases event <;> simp only [apply] <;> (repeat' split) <;> rfl

/-- The event leaves no fewer than `n` bytes of a line that has as many: nothing is erased that is
needed for it, and a recalled line is long enough. -/
def KeepsLength (ed : LineEditor) (h : CommandHistory) (n : Nat) : EditorEvent → Prop
  | .backspace => ed.cursor = 0 ∨ n < ed.line.length
  | .delete => ed.line.length ≤ ed.cursor ∨ n < ed.line.length
  | .historyUp => ∀ text, (h.up ed.text).2 = some text → n ≤ (intoBytes text).length
  | .historyDown => ∀ text, h.down.2 = some text → n ≤ (intoBytes text).length
  | .insertByte _ | .moveLeft | .moveRight | .moveHome | .moveEnd | .tab | .submit => True

theorem apply_length {n : Nat} {event : EditorEvent} (hed : ed.InLine) (hn : n ≤ ed.line.length)
    (hk : ed.KeepsLength h n event) : n ≤ (ed.apply h event).1.line.length := by
  unfold InLine at hed
  cases event with
  | insertByte byte =>
      show n ≤ (ed.line.insertIdx ed.cursor byte).length
      rw [List.length_insertIdx_of_le_length hed]
      omega
  | backspace =>
      simp only [apply]
      split
      · exact hn
      · rename_i hcur
        have hlt : n < ed.line.length := hk.resolve_left hcur
        show n ≤ (ed.line.eraseIdx (ed.cursor - 1)).length
        rw [List.length_eraseIdx_of_lt (by omega)]
        omega
  | delete =>
      simp only [apply]
      split
      · exact hn
      · rename_i hcur
        have hlt : n < ed.line.length := hk.resolve_left hcur
        show n ≤ (ed.line.eraseIdx ed.cursor).length
        rw [List.length_eraseIdx_of_lt (by omega)]
        omega
  | historyUp =>
      simp only [apply]
      split
      · rename_i history prev hup
        exact hk prev (by rw [hup])
      · exact hn
  | historyDown =>
      simp only [apply]
      split
      · rename_i history next hdown
        exact hk next (by rw [hdown])
      · exact hn
  | moveLeft =>
      simp only [apply]
      split <;> exact hn
  | moveRight =>
      simp only [apply]
      split <;> exact hn
  | moveHome => exact hn
  | moveEnd => exact hn
  | tab => exact hn
  | submit =>
      simp only [apply]
      split <;> exact hn

end LineEditor

/-! ## The session -/

/-- Both cursors lie in the line. -/
structure LineSession.Bounded (line : LineSession) : Prop where
  cursor : line.editor.InLine
  display : line.displayCursor ≤ line.editor.line.length

theorem LineSession.newPrompt_bounded : LineSession.newPrompt.Bounded := ⟨Nat.le_refl _, Nat.le_refl _⟩

theorem LineSession.newEscape_bounded : LineSession.newEscape.Bounded := ⟨Nat.le_refl _, Nat.zero_le _⟩

theorem LineSession.renderLine_bounded {line : LineSession} (h : line.editor.InLine) :
    line.renderLine.Bounded := ⟨h, h⟩

namespace InputEngine

variable {split : ShellWords} {e : InputEngine} {line : LineSession}

theorem submitEscape_bounded {bytes : List UInt8} (hc : closes split (.submitEscape bytes) = false) :
    (e.submitEscape split line bytes).2.1.Bounded := by
  have hprompt : parseEscape split bytes = some .commandPrompt := by simpa [closes] using hc
  rw [submitEscape, hprompt]
  exact LineSession.newPrompt_bounded

theorem submitPrompt_bounded {bytes : List UInt8} (hc : closes split (.submitPrompt bytes) = false) :
    (e.submitPrompt split line bytes).2.1.Bounded := by
  have hstay : parseLocalCommand split bytes ≠ some .exit
      ∧ parseLocalCommand split bytes ≠ some .disconnect := by simpa [closes] using hc
  unfold submitPrompt
  cases hp : parseLocalCommand split bytes with
  | none => exact LineSession.newPrompt_bounded
  | some command =>
      cases command with
      | exit => exact absurd hp hstay.1
      | disconnect => exact absurd hp hstay.2
      | help | lpwd | lls | lcd | paths | clear | put | get | usageError | unknown =>
          exact LineSession.newPrompt_bounded

/-- An event that does not close the line leaves both cursors in it, if it does not leave an escape
line shorter than its display cursor. -/
theorem applyEditorEvent_bounded (hb : line.Bounded) (event : EditorEvent)
    (hc : closes split (line.editor.apply (e.historyOf line.editor.mode) event).2.2 = false)
    (hlen : line.editor.mode = .escape → line.displayCursor
      ≤ (line.editor.apply (e.historyOf line.editor.mode) event).1.line.length) :
    (e.applyEditorEvent split line event).2.1.Bounded := by
  have hin := LineEditor.apply_inLine (h := e.historyOf line.editor.mode) hb.cursor event
  have hmode := line.editor.apply_mode (e.historyOf line.editor.mode) event
  have hsame := line.editor.apply_same (h := e.historyOf line.editor.mode) event
  unfold applyEditorEvent
  revert hc hlen hin hmode hsame
  generalize line.editor.apply (e.historyOf line.editor.mode) event = r
  obtain ⟨editor, history, effect⟩ := r
  intro hc hlen hin hmode hsame
  cases effect with
  | noOp =>
      have heq : editor = line.editor := hsame (by simp) (by simp)
      subst heq
      exact hb
  | render =>
      cases hm : editor.mode with
      | escape =>
          simp only [hm]
          exact ⟨hin, hlen (hmode.symm.trans hm)⟩
      | prompt =>
          simp only [hm]
          exact LineSession.renderLine_bounded hin
  | clearAndExit => cases hc
  | requestCompletion =>
      have heq : editor = line.editor := hsame (by simp) (by simp)
      subst heq
      exact hb
  | submitEscape bytes => exact submitEscape_bounded hc
  | submitPrompt bytes => exact submitPrompt_bounded hc

/-- The line that is edited, if any. -/
def LineBounded (e : InputEngine) : Prop := ∀ line, e.activeLine = some line → line.Bounded

/-- The byte closes an escape line, or does not leave it shorter than its cursor was at its last
resize. -/
def KeepsLength (split : ShellWords) (e : InputEngine) (byte : UInt8) : Prop :=
  e.closesAt split byte = false → ∀ line event, e.activeLine = some line →
    line.editor.mode = .escape → (localEvent line.controlState byte).2 = some event →
    line.editor.KeepsLength e.escapeHistory line.displayCursor event

theorem lineBounded_byte (e : InputEngine) (byte : UInt8) (hok : e.ModeOk) (hb : e.LineBounded)
    (hk : KeepsLength split e byte) : (e.processLocal split [byte]).1.LineBounded := by
  have hnone : ∀ e' : InputEngine, e'.activeLine = none → e'.LineBounded := by
    intro e' hl line hline
    rw [hl] at hline
    cases hline
  rcases hok.cases with ⟨hm, hl⟩ | ⟨line, hm, hl⟩
  · rw [processLocal_remote_byte hm]
    split
    · exact hnone _ hl
    split
    · intro line hline
      cases hline
      exact LineSession.newEscape_bounded
    · obtain ⟨-, hline, -⟩ := handleRemoteByte_kept { e with swallowNextEnterPair := none } byte
      exact hnone _ (hline.trans hl)
  · rw [processLocal_edit_byte hm hl]
    rcases @localByte_cases split _ _ hm hl byte with
      ⟨-, -, hbyte⟩ | ⟨-, -, hbyte⟩
      | ⟨event, r, hev, hr, hclose, ⟨-, -, hnone', hbyte⟩ | ⟨hc, -, hbyte⟩⟩
    · rw [hbyte]
      exact hnone _ rfl
    · rw [hbyte]
      intro line' hline'
      cases hline'
      exact ⟨(hb line hl).cursor, (hb line hl).display⟩
    · rw [hbyte]
      exact hnone _ hnone'
    · rw [hbyte]
      intro line' hline'
      cases hline'
      rw [hr]
      have hline : (LineSession.advanced line byte).Bounded :=
        ⟨(hb line hl).cursor, (hb line hl).display⟩
      refine applyEditorEvent_bounded hline event ?_ ?_
      · rw [advanced_apply, ← hclose]
        exact hc
      · intro hesc
        have hmode : line.editor.mode = .escape := hesc
        rw [advanced_apply, hmode]
        exact LineEditor.apply_length (hb line hl).cursor (hb line hl).display (hk hc line event hl hmode hev)

/-- The condition on a call. -/
def LengthKept (split : ShellWords) (e : InputEngine) : InputCall → Prop
  | .typed data => EachByte split (KeepsLength split) e data
  | .completed (.applied text _) =>
      ∀ line, e.activeLine = some line → line.editor.mode = .escape → line.displayCursor ≤ text.length
  | .completed _ => True
  | .observed _ => True
  | .resized => True

theorem lineBounded_call (c : InputCall) (hok : e.ModeOk) (hb : e.LineBounded) (hk : LengthKept split e c) :
    (e.call split c).LineBounded := by
  cases c with
  | typed data => exact processLocal_keeps lineBounded_byte hok hb hk
  | observed data =>
      intro line hline
      rw [call, (observeRemote_kept e data).2] at hline
      exact hb line hline
  | completed result =>
      cases hl : e.activeLine with
      | none =>
          simp only [call, completeActiveLine, hl]
          exact hb
      | some line =>
          simp only [call, completeActiveLine, hl]
          cases result with
          | none => exact hb
          | applied text cursor =>
              have hin := line.editor.replaceLine_inLine text cursor
              dsimp only
              cases hm : (line.editor.replaceLine text cursor).mode with
              | escape =>
                  intro line' hline'
                  cases hline'
                  exact ⟨hin, hk line hl hm⟩
              | prompt =>
                  intro line' hline'
                  cases hline'
                  exact LineSession.renderLine_bounded hin
          | suggestions found =>
              dsimp only
              cases line.editor.mode with
              | escape => exact hb
              | prompt =>
                  intro line' hline'
                  cases hline'
                  exact LineSession.renderLine_bounded (hb line hl).cursor
  | resized =>
      cases hl : e.activeLine with
      | none =>
          simp only [call, handleResize, hl]
          exact hb
      | some line =>
          simp only [call, handleResize, hl]
          intro line' hline'
          cases hline'
          exact LineSession.renderLine_bounded (hb line hl).cursor

end InputEngine

namespace Proof

open InputEngine

/-- After every call a line is edited exactly in `LocalEdit` mode, and both cursors lie in it, unless an
escape line was made shorter than its cursor was at its last resize. -/
theorem edit_session_bounded (split : ShellWords) (escapeLines promptLines : List (List Char))
    (calls : List InputCall) (e : InputEngine)
    (hkept : Meets (InputEngine.step split) (LengthKept split) (.new escapeLines promptLines) calls)
    (hx : exec (InputEngine.step split) (.new escapeLines promptLines) calls = some e) :
    (e.mode = .localEdit ↔ e.activeLine.isSome)
      ∧ ∀ line, e.activeLine = some line →
        line.editor.cursor ≤ line.editor.line.length
          ∧ line.displayCursor ≤ line.editor.line.length := by
  have hinv : e.ModeOk ∧ e.LineBounded := by
    refine exec_invariant (I := fun e => e.ModeOk ∧ e.LineBounded) ?_ ?_ hkept hx
    · intro e c e' hi hk hs
      cases hs
      exact ⟨modeOk_call hi.1 c, lineBounded_call c hi.1 hi.2 hk⟩
    · exact ⟨modeOk_remote rfl rfl, fun line hline => by cases hline⟩
  refine ⟨hinv.1, fun line hline => ?_⟩
  have hb := hinv.2 line hline
  exact ⟨hb.cursor, hb.display⟩

/-- `~`, a resize, and one more byte. -/
theorem edit_session_bounded_grows :
    ∃ e line, exec (InputEngine.step fun _ => none) (.new [] []) [.typed [0x7e], .resized, .typed [0x61]]
        = some e
      ∧ e.activeLine = some line ∧ line.editor.line = [0x7e, 0x61]
      ∧ line.editor.cursor ≤ line.editor.line.length
      ∧ line.displayCursor ≤ line.editor.line.length := by
  refine ⟨_, _, rfl, rfl, by decide +kernel, ?_⟩
  refine (edit_session_bounded (fun _ => none) [] [] [.typed [0x7e], .resized, .typed [0x61]]
    _ ?_ rfl).2 _ rfl
  refine ⟨⟨?_, fun _ => trivial⟩, ?_⟩
  · intro _ line event hline
    cases hline
  rintro s₁ ⟨⟩
  refine ⟨trivial, ?_⟩
  rintro s₂ ⟨⟩
  refine ⟨⟨?_, fun _ => trivial⟩, fun _ _ => trivial⟩
  intro _ line event hline _ hevent
  cases hline
  cases hevent
  trivial

/-- `~a`, a resize, and a Backspace. -/
theorem display_cursor_outside :
    ∃ e line, exec (InputEngine.step fun _ => none) (.new [] [])
        [.typed [0x7e, 0x61], .resized, .typed [0x7f]] = some e
      ∧ e.activeLine = some line ∧ line.editor.line = [0x7e] ∧ line.displayCursor = 2 := by
  refine ⟨_, _, rfl, rfl, by decide +kernel, by decide +kernel⟩

end Proof

end Irosh
