import Irosh.Lib.Exec
import Irosh.Proof.EditSession

/-!
# The tilde of the escape line

The escape line is opened with a `~` in it, and the rest of the input engine takes it for
granted that the line begins with one. What the editor's events do to the first byte.
-/

namespace Irosh

namespace LineEditor

variable {ed : LineEditor} {h : CommandHistory}

/-- The line begins with the byte it was opened with. -/
def Tilded (ed : LineEditor) : Prop := ed.line.head? = some tilde

/-- The event puts nothing else before the tilde, takes it away only with the whole line or with
another behind it, and recalls only lines that have one. -/
def KeepsTilde (ed : LineEditor) (h : CommandHistory) : EditorEvent → Prop
  | .insertByte byte => ed.cursor = 0 → byte = tilde
  | .backspace => ed.cursor = 1 → ed.line.tail = [] ∨ ed.line.tail.head? = some tilde
  | .delete => ed.cursor = 0 → ed.line.tail.head? = some tilde
  | .historyUp => ∀ prev, (h.up ed.text).2 = some prev → (intoBytes prev).head? = some tilde
  | .historyDown => ∀ next, h.down.2 = some next → (intoBytes next).head? = some tilde
  | _ => True

theorem keepsTilde_insertByte {byte : UInt8} :
    ed.KeepsTilde h (.insertByte byte) ↔ (ed.cursor = 0 → byte = tilde) := Iff.rfl

theorem keepsTilde_backspace : ed.KeepsTilde h .backspace ↔
    (ed.cursor = 1 → ed.line.tail = [] ∨ ed.line.tail.head? = some tilde) := Iff.rfl

theorem keepsTilde_delete : ed.KeepsTilde h .delete ↔
    (ed.cursor = 0 → ed.line.tail.head? = some tilde) := Iff.rfl

theorem keepsTilde_historyUp : ed.KeepsTilde h .historyUp ↔
    ∀ prev, (h.up ed.text).2 = some prev → (intoBytes prev).head? = some tilde := Iff.rfl

theorem keepsTilde_historyDown : ed.KeepsTilde h .historyDown ↔
    ∀ next, h.down.2 = some next → (intoBytes next).head? = some tilde := Iff.rfl

theorem head?_insertIdx {xs : List UInt8} {i : Nat} (b : UInt8) :
    (xs.insertIdx i b).head? = if i = 0 then some b else xs.head? := by
  cases xs with
  | nil => cases i with
    | zero => rfl
    | succ i => rfl
  | cons x xs => cases i with
    | zero => rfl
    | succ i => rfl

theorem head?_eraseIdx {xs : List UInt8} {i : Nat} :
    (xs.eraseIdx i).head? = if i = 0 then xs.tail.head? else xs.head? := by
  cases xs with
  | nil => simp
  | cons x xs => cases i with
    | zero => rfl
    | succ i => rfl

/-- An event that is rendered leaves the tilde iff it is one of those. -/
theorem apply_tilded_iff (hed : ed.Tilded) (hmode : ed.mode = .escape) (event : EditorEvent)
    (hr : (ed.apply h event).2.2 = .render) :
    (ed.apply h event).1.Tilded ↔ ed.KeepsTilde h event := by
  cases event with
  | insertByte byte =>
    have hhead : (ed.apply h (.insertByte byte)).1.line.head? =
        if ed.cursor = 0 then some byte else ed.line.head? := head?_insertIdx byte
    unfold Tilded at hed ⊢
    rw [hhead, hed]
    by_cases hzero : ed.cursor = 0
    · simp [keepsTilde_insertByte, hzero]
    · simp [keepsTilde_insertByte, hzero]
  | backspace =>
    by_cases hzero : ed.cursor = 0
    · simp [apply, hzero] at hr
    · have hhead : (ed.apply h .backspace).1.line.head? =
          if ed.cursor - 1 = 0 then ed.line.tail.head? else ed.line.head? := by
        simp only [apply, if_neg hzero]
        exact head?_eraseIdx
      unfold Tilded at hed ⊢
      rw [hhead, hed]
      by_cases hone : ed.cursor = 1
      · -- the line that is left is not empty
        have hrest : ed.line.tail ≠ [] := by
          intro hnil
          have herase : ed.line.eraseIdx (ed.cursor - 1) = [] := by
            rw [hone]
            simpa using hnil
          simp [apply, hzero, herase, hmode] at hr
        simp [keepsTilde_backspace, hone, hrest]
      · have hpos : ed.cursor - 1 ≠ 0 := by omega
        simp [keepsTilde_backspace, hone, hpos]
  | delete =>
    by_cases hend : ed.cursor ≥ ed.line.length
    · simp [apply, hend] at hr
    · have hhead : (ed.apply h .delete).1.line.head? =
          if ed.cursor = 0 then ed.line.tail.head? else ed.line.head? := by
        simp only [apply, if_neg hend]
        exact head?_eraseIdx
      unfold Tilded at hed ⊢
      rw [hhead, hed]
      by_cases hzero : ed.cursor = 0
      · simp [keepsTilde_delete, hzero]
      · simp [keepsTilde_delete, hzero]
  | moveLeft =>
    have hsame : (ed.apply h .moveLeft).1.line = ed.line := by
      simp only [apply]
      split <;> rfl
    exact iff_of_true (show _ = _ from hsame ▸ hed) trivial
  | moveRight =>
    have hsame : (ed.apply h .moveRight).1.line = ed.line := by
      simp only [apply]
      split <;> rfl
    exact iff_of_true (show _ = _ from hsame ▸ hed) trivial
  | moveHome => exact iff_of_true hed trivial
  | moveEnd => exact iff_of_true hed trivial
  | historyUp =>
    simp only [apply] at hr ⊢
    cases hup : h.up ed.text with
    | mk history found =>
      cases found with
      | none => simp [hup] at hr
      | some prev => simp [keepsTilde_historyUp, Tilded, recalled, hup]
  | historyDown =>
    simp only [apply] at hr ⊢
    cases hdown : h.down with
    | mk history found =>
      cases found with
      | none => simp [hdown] at hr
      | some next => simp [keepsTilde_historyDown, Tilded, recalled, hdown]
  | tab => cases hr
  | submit =>
    simp only [apply, hmode] at hr
    cases hr

/-- An event that is not rendered is one of those. -/
theorem keepsTilde_of_not_render (hed : ed.Tilded) (event : EditorEvent)
    (hr : (ed.apply h event).2.2 ≠ .render) : ed.KeepsTilde h event := by
  cases event with
  | insertByte byte => exact absurd rfl hr
  | backspace =>
    intro hone
    left
    by_contra hrest
    have hline : ed.line.eraseIdx (ed.cursor - 1) ≠ [] := by
      rw [hone]
      simpa using hrest
    have hpos : ed.cursor ≠ 0 := by omega
    have hrender : (ed.apply h .backspace).2.2 = .render := by
      simp only [apply, if_neg hpos, hline, false_and, if_false]
    exact hr hrender
  | delete =>
    intro hzero
    have hline : ed.line ≠ [] := by
      intro hnil
      rw [Tilded, hnil] at hed
      cases hed
    have hpos : 0 < ed.line.length := List.length_pos_iff.mpr hline
    have hinside : ¬ ed.cursor ≥ ed.line.length := by omega
    have hrender : (ed.apply h .delete).2.2 = .render := by
      simp only [apply, if_neg hinside]
    exact absurd hrender hr
  | historyUp =>
    intro prev hprev
    simp only [apply] at hr
    cases hup : h.up ed.text with
    | mk history found =>
      simp only [hup] at hr hprev
      rw [hprev] at hr
      exact absurd rfl hr
  | historyDown =>
    intro next hnext
    simp only [apply] at hr
    cases hdown : h.down with
    | mk history found =>
      simp only [hdown] at hr hnext
      rw [hnext] at hr
      exact absurd rfl hr
  | _ => trivial

end LineEditor

namespace InputEngine

variable {split : ShellWords} {e : InputEngine} {line : LineSession}

/-- An escape line that is edited begins with a tilde; without a line the engine is in `Remote`
mode. -/
structure Tilded (e : InputEngine) : Prop where
  tilde : ∀ line, e.activeLine = some line → line.editor.mode = .escape → line.editor.Tilded
  closed : e.activeLine = none → e.mode = .remote

/-- The event a byte makes of an escape line keeps its tilde. -/
def KeepsTilde (e : InputEngine) (byte : UInt8) : Prop :=
  ∀ line event, e.activeLine = some line → line.editor.mode = .escape →
    (localEvent line.controlState byte).2 = some event →
    line.editor.KeepsTilde e.escapeHistory event

/-- A typed byte. -/
def typeByte (split : ShellWords) (e : InputEngine) (byte : UInt8) : Option InputEngine :=
  some (e.processLocal split [byte]).1

theorem tilded_remote (hm : e.mode = .remote) (hl : e.activeLine = none) : e.Tilded where
  tilde line hline := by
    rw [hl] at hline
    cases hline
  closed _ := hm

/-- What is edited next after a submitted line that does not end the editing is a prompt. -/
theorem submitEscape_prompt {bytes : List UInt8}
    (hc : closes split (.submitEscape bytes) = false) :
    (e.submitEscape split line bytes).2.1.editor.mode = .prompt := by
  have hprompt : parseEscape split bytes = some .commandPrompt := by simpa [closes] using hc
  rw [submitEscape, hprompt]
  rfl

theorem submitPrompt_prompt {bytes : List UInt8}
    (hc : closes split (.submitPrompt bytes) = false) :
    (e.submitPrompt split line bytes).2.1.editor.mode = .prompt := by
  have hstay : parseLocalCommand split bytes ≠ some .exit
      ∧ parseLocalCommand split bytes ≠ some .disconnect := by simpa [closes] using hc
  unfold submitPrompt
  cases hp : parseLocalCommand split bytes with
  | none => rfl
  | some command =>
    cases command with
    | exit => exact absurd hp hstay.1
    | disconnect => exact absurd hp hstay.2
    | help | lpwd | lls | lcd | paths | clear | put | get | usageError | unknown => rfl

/-- What is rendered is the line the editor has made. -/
theorem applyEditorEvent_render (event : EditorEvent)
    (hr : (line.editor.apply (e.historyOf line.editor.mode) event).2.2 = .render) :
    (e.applyEditorEvent split line event).2.1.editor =
      (line.editor.apply (e.historyOf line.editor.mode) event).1 := by
  unfold applyEditorEvent
  revert hr
  generalize line.editor.apply (e.historyOf line.editor.mode) event = r
  obtain ⟨editor, history, effect⟩ := r
  intro hr
  cases hr
  cases hm : editor.mode with
  | escape => simp [hm]
  | prompt => simp [hm, LineSession.renderLine]

/-- What is put back after an event: the line the editor has made, or a prompt. -/
theorem applyEditorEvent_editor (event : EditorEvent)
    (hc : closes split (line.editor.apply (e.historyOf line.editor.mode) event).2.2 = false) :
    (e.applyEditorEvent split line event).2.1.editor =
        (line.editor.apply (e.historyOf line.editor.mode) event).1 ∨
      (e.applyEditorEvent split line event).2.1.editor.mode = .prompt := by
  have hrender := @applyEditorEvent_render split e line event
  unfold applyEditorEvent at hrender ⊢
  revert hc hrender
  generalize line.editor.apply (e.historyOf line.editor.mode) event = r
  obtain ⟨editor, history, effect⟩ := r
  intro hc hrender
  cases effect with
  | noOp => exact .inl rfl
  | render => exact .inl (hrender rfl)
  | clearAndExit => cases hc
  | requestCompletion => exact .inl rfl
  | submitEscape bytes => exact .inr (submitEscape_prompt hc)
  | submitPrompt bytes => exact .inr (submitPrompt_prompt hc)

/-- The editor of an escape line after an event that leaves it open. -/
theorem tilded_event (hline : line.editor.mode = .escape → line.editor.Tilded)
    {event : EditorEvent} {byte : UInt8}
    (hkeeps : line.editor.mode = .escape → line.editor.KeepsTilde e.escapeHistory event)
    (hc : closes split (line.editor.apply (e.historyOf line.editor.mode) event).2.2 = false)
    (hescape : (applyEditorEvent split (e.beforeEvent line byte) (LineSession.advanced line byte)
      event).2.1.editor.mode = .escape) :
    (applyEditorEvent split (e.beforeEvent line byte) (LineSession.advanced line byte)
      event).2.1.editor.Tilded := by
  have hresult := @applyEditorEvent_editor split (e.beforeEvent line byte)
    (LineSession.advanced line byte) event
  rw [advanced_apply] at hresult
  obtain heq | hprompt := hresult hc
  · rw [heq, LineEditor.apply_mode] at hescape
    rw [heq, hescape]
    have hed := hline hescape
    by_cases hr : (line.editor.apply (e.historyOf .escape) event).2.2 = .render
    · exact (LineEditor.apply_tilded_iff hed hescape event hr).mpr (hkeeps hescape)
    · have hexit : (line.editor.apply (e.historyOf .escape) event).2.2 ≠ .clearAndExit := by
        intro hclear
        rw [hescape, hclear] at hc
        cases hc
      rw [LineEditor.apply_same event hr hexit]
      exact hed
  · rw [hprompt] at hescape
    cases hescape

theorem tilded_byte (hok : e.ModeOk) (ht : e.Tilded) {byte : UInt8} (hk : e.KeepsTilde byte) :
    (e.processLocal split [byte]).1.Tilded := by
  obtain ⟨hm, hl⟩ | ⟨line, hm, hl⟩ := hok.cases
  · rw [processLocal_remote_byte hm]
    split
    · exact tilded_remote hm hl
    split
    · refine ⟨fun line hline _ => ?_, fun hnone => nomatch hnone⟩
      cases hline
      rfl
    · obtain ⟨hmode, hline, -⟩ :=
        handleRemoteByte_kept { e with swallowNextEnterPair := none } byte
      exact tilded_remote (hmode.trans hm) (hline.trans hl)
  · rw [processLocal_edit_byte hm hl]
    obtain ⟨-, -, hbyte⟩ | ⟨-, -, hbyte⟩
      | ⟨event, r, hev, hr, hclose, ⟨-, hremote, hnone, hbyte⟩ | ⟨hc, -, hbyte⟩⟩ :=
      @localByte_cases split _ _ hm hl byte
    · rw [hbyte]
      exact tilded_remote rfl rfl
    · rw [hbyte]
      refine ⟨fun line' hline' hescape => ?_, fun hnone => nomatch hnone⟩
      cases hline'
      exact ht.tilde line hl hescape
    · rw [hbyte]
      exact tilded_remote hremote hnone
    · rw [hbyte]
      refine ⟨fun line' hline' hescape => ?_, fun hnone => nomatch hnone⟩
      cases hline'
      subst hr
      exact tilded_event (ht.tilde line hl) (fun hesc => hk line event hl hesc hev)
        (hclose ▸ hc) hescape

/-- A Ctrl-C makes no event. -/
theorem localEvent_ctrlC {state : ControlSequenceState} {byte : UInt8}
    (h : isCtrlC state byte = true) : (localEvent state byte).2 = none := by
  obtain ⟨hstate, hbyte⟩ := Bool.and_eq_true_iff.mp h
  obtain rfl := eq_of_beq hstate
  obtain rfl := eq_of_beq hbyte
  decide

/-- A byte that takes the tilde away leaves the line open without it. -/
theorem loses_tilde (hok : e.ModeOk) (ht : e.Tilded) {byte : UInt8} (hk : ¬ e.KeepsTilde byte) :
    ¬ (e.processLocal split [byte]).1.Tilded := by
  unfold KeepsTilde at hk
  push Not at hk
  obtain ⟨line, event, hl, hescape, hev, hloses⟩ := hk
  have hm : e.mode = .localEdit := hok.mpr (by rw [hl]; rfl)
  have hed := ht.tilde line hl hescape
  have hrender : (line.editor.apply e.escapeHistory event).2.2 = .render := by
    by_contra hr
    exact hloses (LineEditor.keepsTilde_of_not_render hed event hr)
  have hopen : closes split (line.editor.apply (e.historyOf line.editor.mode) event).2.2 = false := by
    rw [hescape]
    change closes split (line.editor.apply e.escapeHistory event).2.2 = false
    rw [hrender]
    rfl
  rw [processLocal_edit_byte hm hl]
  obtain ⟨-, hctrl, -⟩ | ⟨-, hnone, -⟩
    | ⟨event', r, hev', hr, hclose, ⟨hc, -, -, -⟩ | ⟨-, -, hbyte⟩⟩ :=
    @localByte_cases split _ _ hm hl byte
  · rw [localEvent_ctrlC hctrl] at hev
    cases hev
  · rw [hnone] at hev
    cases hev
  · rw [hev] at hev'
    cases hev'
    rw [hclose, hopen] at hc
    cases hc
  · rw [hev] at hev'
    cases hev'
    rw [hbyte]
    intro hafter
    have hmade := @applyEditorEvent_render split (e.beforeEvent line byte)
      (LineSession.advanced line byte) event
    rw [advanced_apply, ← hr, hescape] at hmade
    have heq : r.2.1.editor = (line.editor.apply e.escapeHistory event).1 := hmade hrender
    have hmode : r.2.1.editor.mode = .escape := by
      rw [heq, LineEditor.apply_mode, hescape]
    have htilded := hafter.tilde r.2.1 rfl hmode
    rw [heq] at htilded
    exact hloses ((LineEditor.apply_tilded_iff hed hescape event hrender).mp htilded)

end InputEngine

namespace Proof

open InputEngine

/--
**The tilde of the escape line.**

From the moment a typed `~` opens an escape line, in whatever state the engine is, and whatever
is typed: an escape line begins with its tilde in every state reached, and is closed with the
engine in `Remote` mode when it is gone, iff no byte makes an event that puts something before
the tilde, erases it from a longer line (or with Delete), or recalls a line without one.
-/
theorem escape_tilde_iff (split : ShellWords) (e : InputEngine) (bytes : List UInt8) :
    Exec.Throughout (typeByte split) InputEngine.Tilded e.openEscape bytes ↔
      Exec.Meets (typeByte split) InputEngine.KeepsTilde e.openEscape bytes := by
  have hok : e.openEscape.ModeOk := modeOk_edit rfl rfl
  have htilded : e.openEscape.Tilded := by
    refine ⟨fun line hline _ => ?_, fun hnone => nomatch hnone⟩
    cases hline
    rfl
  refine Exec.throughout_iff_meets (I := fun e => e.ModeOk ∧ e.Tilded) (H := fun _ _ => True)
    (fun e he => he.2) ?_ ?_ ⟨hok, htilded⟩ (Exec.meets_of_forall_mem fun _ _ _ => trivial)
  · intro e b e' he _ hk hs
    cases hs
    exact ⟨modeOk_byte he.1 b, tilded_byte he.1 he.2 hk⟩
  · intro e b he _ hk
    exact ⟨_, rfl, loses_tilde he.1 he.2 hk⟩

/-- `~`, `x`, Home and Delete: the line is `x`, and it is still edited. -/
theorem delete_takes_tilde :
    ¬ ∀ split e bytes,
      Exec.Throughout (typeByte split) InputEngine.Tilded (InputEngine.openEscape e) bytes := by
  intro hall
  have hrun := hall (fun _ => none) (InputEngine.new [] [])
    [0x78, 0x1b, 0x5b, 0x48, 0x1b, 0x5b, 0x33, 0x7e]
  have hlast := hrun.last rfl
  have hhead := hlast.tilde _ rfl rfl
  revert hhead
  unfold LineEditor.Tilded
  decide

end Proof

end Irosh
