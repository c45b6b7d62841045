import Irosh.Proof.InputBytes

/-!
# A line that is no escape

A submitted escape line that `parse_escape` does not know goes to the remote shell. Before
it goes the carriage return of every exit from the local line, which makes the shell print
its prompt again.
-/

namespace Irosh

variable {split : ShellWords} {e : InputEngine} {line : LineSession}

@[simp] theorem Output.toRemote_shown (bytes : List UInt8) : (Output.shown bytes).toRemote = [] := rfl

@[simp] theorem Output.toRemote_remote (bytes : List UInt8) : (Output.remote bytes).toRemote = bytes := rfl

namespace InputEngine

/-- What a line that is no escape leaves. The `~` before it is not the line's own. -/
theorem submitEscape_unknown {bytes : List UInt8} (hnone : parseEscape split bytes = none) :
    ∃ e' : InputEngine, e'.mode = .remote ∧ e'.activeLine = none ∧ e'.localLineLen = 0
      ∧ e.submitEscape split line bytes = (e', line, .shown line.finalized ++ .remote [0x0d]
        ++ .remote ([LineEditor.tilde] ++ bytes ++ [0x0d])) := by
  rw [submitEscape, hnone]
  exact ⟨_, rfl, rfl, rfl, rfl⟩

/-- Enter is an event, and it submits. -/
theorem localEvent_enter {byte : UInt8} (henter : byte = 0x0d ∨ byte = 0x0a) :
    isCtrlC .none byte = false ∧ (localEvent .none byte).2 = some .submit := by
  obtain rfl | rfl := henter
  · exact ⟨rfl, rfl⟩
  · exact ⟨rfl, rfl⟩

/-- Enter on an escape line. -/
theorem applyEditorEvent_submit (hmode : line.editor.mode = .escape) :
    e.applyEditorEvent split line .submit = e.submitEscape split line line.editor.line := by
  have happly : line.editor.apply (e.historyOf line.editor.mode) .submit
      = (line.editor, e.historyOf line.editor.mode, .submitEscape line.editor.line) := by
    simp only [LineEditor.apply, hmode]
  have hsame : e.withHistory (e.historyOf line.editor.mode) line.editor.mode = e := by
    rw [hmode]
    rfl
  rw [applyEditorEvent, happly]
  dsimp only
  rw [hsame]

end InputEngine

namespace Proof

open InputEngine

/--
**The fallback forwards the line.**

In whatever state the engine is with an escape line, Enter on a line `parse_escape` does not
know sends the wake-up carriage return and then the line with one carriage return, and ends
the editing. Whatever is left of the read is dropped. A `~` may stand before the line.
-/
theorem fallback_forwards_line (split : ShellWords) (e : InputEngine) (line : LineSession)
    (byte : UInt8) (rest : List UInt8) (hmode : e.mode = .localEdit) (hline : e.activeLine = some line)
    (hescape : line.editor.mode = .escape) (hstate : line.controlState = .none)
    (henter : byte = 0x0d ∨ byte = 0x0a) (hnone : parseEscape split line.editor.line = none) :
    (∃ again : List UInt8, (again = [] ∨ again = [LineEditor.tilde])
        ∧ (e.processLocal split (byte :: rest)).2.toRemote
          = [0x0d] ++ again ++ line.editor.line ++ [0x0d])
      ∧ (e.processLocal split (byte :: rest)).1.mode = .remote
      ∧ (e.processLocal split (byte :: rest)).1.activeLine = none
      ∧ (e.processLocal split (byte :: rest)).1.localLineLen = 0 := by
  obtain ⟨hctrl, hevent⟩ := localEvent_enter henter
  obtain ⟨e', hmode', hline', hlen, hsubmit⟩ := @submitEscape_unknown split
    (e.beforeEvent line byte) (LineSession.advanced line byte) _ hnone
  have hafter : afterEvent split (e.beforeEvent line byte) (LineSession.advanced line byte)
      (localEvent line.controlState byte).2 = (e', LineSession.advanced line byte,
        .shown (LineSession.advanced line byte).finalized ++ .remote [0x0d]
          ++ .remote ([LineEditor.tilde] ++ line.editor.line ++ [0x0d])) := by
    rw [hstate, hevent, ← hsubmit]
    exact applyEditorEvent_submit hescape
  have hbyte := @localByte_event split e line byte (by rw [hstate]; exact hctrl)
  rw [hafter, putBack] at hbyte
  simp only [hmode'] at hbyte
  -- the editing is over, and the loop drops the rest
  have hread : e.processLocal split (byte :: rest) = (e', .shown (LineSession.advanced line byte).finalized
      ++ .remote [0x0d] ++ .remote ([LineEditor.tilde] ++ line.editor.line ++ [0x0d])) := by
    rw [processLocal_edit hmode, processEdit, hline]
    dsimp only
    rw [hbyte]
    simp only [processEdit_closed hmode' hline', if_true, Output.append_empty]
  rw [hread]
  exact ⟨⟨[LineEditor.tilde], .inr rfl, by simp⟩, hmode', hline', hlen⟩

/-- Enter right after the `~`. -/
theorem fallback_forwards_line_tilde :
    parseEscape (fun _ => none) [LineEditor.tilde] = none ∧
    ∃ again : List UInt8, (again = [] ∨ again = [LineEditor.tilde])
      ∧ ((InputEngine.new [] []).openEscape.processLocal (fun _ => none) [0x0d]).2.toRemote
        = [0x0d] ++ again ++ [LineEditor.tilde] ++ [0x0d] :=
  ⟨by decide, (fallback_forwards_line (fun _ => none) (InputEngine.new [] []).openEscape .newEscape
    0x0d [] rfl rfl rfl rfl (.inl rfl) (by decide)).1⟩

/-- `~` and Enter: what is sent begins with a carriage return. -/
theorem wake_up_comes_first :
    parseEscape (fun _ => none) [LineEditor.tilde] = none ∧
    ((InputEngine.new [] []).processLocal (fun _ => none) [LineEditor.tilde, 0x0d]).2.toRemote
      ≠ [LineEditor.tilde] ++ [0x0d] := by
  decide

end Proof

end Irosh
