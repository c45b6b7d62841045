import Irosh.Lib.Exec
import Irosh.Input.Engine

/-!
# Bytes, one at a time

Whether bytes come in one read or in several makes no difference until one of them closes
the local line: what the same read brought after that byte is dropped, what a later read
brings is sent to the remote.

`closesAt` says which byte of which state that is. Before such a byte a read is the same as
its bytes one by one (`processLocal_cons`), and this is how all results about the engine go
from bytes to reads.
-/

namespace Irosh

/-! ## Outputs -/

namespace Output

variable {a b c : Output}

theorem append_def (a b : Output) : a ++ b
    = ⟨a.toRemote ++ b.toRemote, a.toLocal ++ b.toLocal, a.actions ++ b.actions⟩ := rfl

@[simp] theorem toRemote_append : (a ++ b).toRemote = a.toRemote ++ b.toRemote := rfl

@[simp] theorem toLocal_append : (a ++ b).toLocal = a.toLocal ++ b.toLocal := rfl

theorem append_assoc (a b c : Output) : a ++ b ++ c = a ++ (b ++ c) := by
  simp only [append_def, List.append_assoc]

@[simp] theorem append_empty (a : Output) : a ++ empty = a := by
  simp only [append_def, empty, List.append_nil]

@[simp] theorem empty_append (a : Output) : empty ++ a = a := rfl

theorem append_eq_self (h : a ++ b = a) : b = empty := by
  obtain ⟨r, l, x⟩ := b
  rw [append_def] at h
  have h1 : a.toRemote ++ r = a.toRemote := congrArg toRemote h
  have h2 : a.toLocal ++ l = a.toLocal := congrArg toLocal h
  have h3 : a.actions ++ x = a.actions := congrArg actions h
  rw [List.append_right_eq_self.mp h1, List.append_right_eq_self.mp h2, List.append_right_eq_self.mp h3]
  rfl

end Output

namespace InputEngine

variable {split : ShellWords} {e e' : InputEngine} {line : LineSession} {byte : UInt8}

/-! ## What closes a line -/

/-- The effects after which the engine is back in `Remote` mode. -/
def closes (split : ShellWords) : EditorEffect → Bool
  | .clearAndExit => true
  | .submitEscape bytes => parseEscape split bytes ≠ some .commandPrompt
  | .submitPrompt bytes =>
      parseLocalCommand split bytes = some .exit ∨ parseLocalCommand split bytes = some .disconnect
  | .noOp | .render | .requestCompletion => false

/-- The byte closes the line that is being edited: a Ctrl-C, or one of these effects. -/
def closesAt (split : ShellWords) (e : InputEngine) (byte : UInt8) : Bool :=
  match e.activeLine with
  | none => false
  | some line =>
      isCtrlC line.controlState byte ||
        match (localEvent line.controlState byte).2 with
        | none => false
        | some event => closes split (line.editor.apply (e.historyOf line.editor.mode) event).2.2

/-- A line is edited exactly in `LocalEdit` mode. -/
def ModeOk (e : InputEngine) : Prop := e.mode = .localEdit ↔ e.activeLine.isSome

theorem modeOk_remote (hm : e.mode = .remote) (hl : e.activeLine = none) : e.ModeOk := by
  simp [ModeOk, hm, hl]

theorem modeOk_edit (hm : e.mode = .localEdit) (hl : e.activeLine = some line) : e.ModeOk := by
  simp [ModeOk, hm, hl]

theorem ModeOk.cases (h : e.ModeOk) :
    (e.mode = .remote ∧ e.activeLine = none) ∨ ∃ line, e.mode = .localEdit ∧ e.activeLine = some line := by
  unfold ModeOk at h
  cases hm : e.mode with
  | remote =>
      cases hl : e.activeLine with
      | none => exact .inl ⟨rfl, rfl⟩
      | some line => simp [hm, hl] at h
  | localEdit =>
      cases hl : e.activeLine with
      | none => simp [hm, hl] at h
      | some line => exact .inr ⟨line, rfl, rfl⟩

@[simp] theorem withHistory_mode (e : InputEngine) (h : CommandHistory) (m : EditorMode) :
    (e.withHistory h m).mode = e.mode := by
  cases m <;> rfl

@[simp] theorem withHistory_activeLine (e : InputEngine) (h : CommandHistory) (m : EditorMode) :
    (e.withHistory h m).activeLine = e.activeLine := by
  cases m <;> rfl

/-- An effect closes the line or leaves the mode alone, and no line is put back here. -/
theorem submitEscape_mode (hl : e.activeLine = none) (bytes : List UInt8) :
    (e.submitEscape split line bytes).1.mode
        = (if closes split (.submitEscape bytes) then .remote else .localEdit)
      ∧ (e.submitEscape split line bytes).1.activeLine = none := by
  unfold submitEscape closes
  cases hp : parseEscape split bytes with
  | none => exact ⟨by simp [hp, exitLocalPrompt], rfl⟩
  | some action =>
      cases action with
      | commandPrompt => exact ⟨by simp [hp], hl⟩
      | sendLiteral payload => exact ⟨by simp [hp], rfl⟩
      | disconnect => exact ⟨by simp [hp, exitLocalPrompt], rfl⟩
      | help => exact ⟨by simp [hp, exitLocalPrompt], rfl⟩
      | runLocal command => exact ⟨by simp [hp, exitLocalPrompt], rfl⟩
      | requestCompletion => exact ⟨by simp [hp, exitLocalPrompt], rfl⟩

theorem submitPrompt_mode (hm : e.mode = .localEdit) (hl : e.activeLine = none) (bytes : List UInt8) :
    (e.submitPrompt split line bytes).1.mode
        = (if closes split (.submitPrompt bytes) then .remote else .localEdit)
      ∧ (e.submitPrompt split line bytes).1.activeLine = none := by
  unfold submitPrompt closes
  cases hp : parseLocalCommand split bytes with
  | none => exact ⟨by simp [hp, hm], hl⟩
  | some command =>
      cases command with
      | exit => exact ⟨by simp [hp, exitLocalPrompt], rfl⟩
      | disconnect => exact ⟨by simp [hp, exitLocalPrompt], rfl⟩
      | help | lpwd | lls | lcd | paths | clear | put | get | usageError | unknown =>
          exact ⟨by simp [hp, hm], hl⟩

theorem applyEditorEvent_mode (hm : e.mode = .localEdit) (hl : e.activeLine = none)
    (event : EditorEvent) :
    (e.applyEditorEvent split line event).1.mode
        = (if closes split (line.editor.apply (e.historyOf line.editor.mode) event).2.2 then .remote
          else .localEdit)
      ∧ (e.applyEditorEvent split line event).1.activeLine = none := by
  unfold applyEditorEvent
  obtain ⟨editor, history, effect⟩ := line.editor.apply (e.historyOf line.editor.mode) event
  have hm' : (e.withHistory history line.editor.mode).mode = .localEdit := by simpa using hm
  have hl' : (e.withHistory history line.editor.mode).activeLine = none := by simpa using hl
  cases effect with
  | noOp => exact ⟨by simp [closes, hm], by simpa using hl⟩
  | render =>
      dsimp only
      cases editor.mode with
      | escape => exact ⟨by simp [closes, hm], by simpa using hl⟩
      | prompt => exact ⟨by simp [closes, hm], by simpa using hl⟩
  | clearAndExit => exact ⟨by simp [closes, exitLocalPrompt], rfl⟩
  | requestCompletion => exact ⟨by simp [closes, hm], by simpa using hl⟩
  | submitEscape bytes => exact submitEscape_mode hl' bytes
  | submitPrompt bytes => exact submitPrompt_mode hm' hl' bytes

/-- The engine the editor event is applied to. -/
def beforeEvent (e : InputEngine) (line : LineSession) (byte : UInt8) : InputEngine :=
  let e := { e with activeLine := none }
  if isEnter line.controlState byte then
    { e with swallowNextEnterPair := pairedEnterByte byte, atStartOfLine := true, localLineLen := 0 }
  else e

theorem beforeEvent_mode (e : InputEngine) (line : LineSession) (byte : UInt8) :
    (e.beforeEvent line byte).mode = e.mode := by
  unfold beforeEvent
  split <;> rfl

theorem beforeEvent_activeLine (e : InputEngine) (line : LineSession) (byte : UInt8) :
    (e.beforeEvent line byte).activeLine = none := by
  unfold beforeEvent
  split <;> rfl

theorem beforeEvent_historyOf (e : InputEngine) (line : LineSession) (byte : UInt8) (m : EditorMode) :
    (e.beforeEvent line byte).historyOf m = e.historyOf m := by
  unfold beforeEvent
  split <;> cases m <;> rfl

/-- The line an event is applied to. -/
def LineSession.advanced (line : LineSession) (byte : UInt8) : LineSession :=
  { line with controlState := (localEvent line.controlState byte).1 }

/-- What the event of a byte does, if it makes one. -/
def afterEvent (split : ShellWords) (e : InputEngine) (line : LineSession) :
    Option EditorEvent → InputEngine × LineSession × Output
  | some event => e.applyEditorEvent split line event
  | none => (e, line, .empty)

/-- The line goes back into the engine if it is still edited. -/
def putBack (r : InputEngine × LineSession × Output) : InputEngine :=
  match r.1.mode with
  | .localEdit => { r.1 with activeLine := some r.2.1 }
  | .remote => r.1

theorem localByte_ctrlC (h : isCtrlC line.controlState byte = true) :
    e.localByte split line byte = ((exitLocalPrompt { e with activeLine := none }).1,
      .shown ([0x5e, 0x43] ++ crlf) ++ .remote [0x0d], false) := by
  rw [localByte, if_pos h]
  rfl

theorem localByte_event (h : isCtrlC line.controlState byte = false) :
    e.localByte split line byte
      = (putBack (afterEvent split (e.beforeEvent line byte) (LineSession.advanced line byte)
          (localEvent line.controlState byte).2),
        (afterEvent split (e.beforeEvent line byte) (LineSession.advanced line byte)
          (localEvent line.controlState byte).2).2.2, true) := by
  rw [localByte, if_neg (by rw [h]; decide)]
  cases hev : (localEvent line.controlState byte).2 with
  | none =>
      simp only [hev]
      rfl
  | some event =>
      simp only [hev]
      rfl

/-- The event is applied to the line as it was before the byte. -/
theorem advanced_apply (e : InputEngine) (line : LineSession) (byte : UInt8) (event : EditorEvent) :
    (LineSession.advanced line byte).editor.apply
        ((e.beforeEvent line byte).historyOf (LineSession.advanced line byte).editor.mode) event
      = line.editor.apply (e.historyOf line.editor.mode) event := by
  rw [beforeEvent_historyOf]
  rfl

/-- What a byte can do to a line: a Ctrl-C closes it, a byte of a control sequence or one without a
meaning makes no event, and an event closes it or does not. -/
theorem localByte_cases (hm : e.mode = .localEdit) (hl : e.activeLine = some line) (byte : UInt8) :
    (e.closesAt split byte = true ∧ isCtrlC line.controlState byte = true
        ∧ e.localByte split line byte = ((exitLocalPrompt { e with activeLine := none }).1,
          .shown ([0x5e, 0x43] ++ crlf) ++ .remote [0x0d], false))
      ∨ (e.closesAt split byte = false ∧ (localEvent line.controlState byte).2 = none
        ∧ e.localByte split line byte
          = ({ e.beforeEvent line byte with activeLine := some (LineSession.advanced line byte) },
            .empty, true))
      ∨ ∃ event r, (localEvent line.controlState byte).2 = some event
        ∧ r = applyEditorEvent split (e.beforeEvent line byte) (LineSession.advanced line byte) event
        ∧ e.closesAt split byte
          = closes split (line.editor.apply (e.historyOf line.editor.mode) event).2.2
        ∧ ((e.closesAt split byte = true ∧ r.1.mode = .remote ∧ r.1.activeLine = none
            ∧ e.localByte split line byte = (r.1, r.2.2, true))
          ∨ (e.closesAt split byte = false ∧ r.1.mode = .localEdit
            ∧ e.localByte split line byte
              = ({ r.1 with activeLine := some r.2.1 }, r.2.2, true))) := by
  have hclosesAt : e.closesAt split byte = (isCtrlC line.controlState byte ||
      match (localEvent line.controlState byte).2 with
      | none => false
      | some event => closes split (line.editor.apply (e.historyOf line.editor.mode) event).2.2) := by
    rw [closesAt, hl]
  cases hctrl : isCtrlC line.controlState byte with
  | true => exact .inl ⟨by rw [hclosesAt, hctrl, Bool.true_or], rfl, localByte_ctrlC hctrl⟩
  | false =>
      rw [hctrl, Bool.false_or] at hclosesAt
      rw [localByte_event hctrl]
      have hm' := (e.beforeEvent_mode line byte).trans hm
      have hl' := e.beforeEvent_activeLine line byte
      cases hev : (localEvent line.controlState byte).2 with
      | none =>
          rw [hev] at hclosesAt
          refine .inr (.inl ⟨hclosesAt, rfl, ?_⟩)
          simp only [afterEvent, putBack, hm']
      | some event =>
          rw [hev] at hclosesAt
          dsimp only at hclosesAt
          have h := @applyEditorEvent_mode split _ (LineSession.advanced line byte) hm' hl' event
          rw [advanced_apply, ← hclosesAt] at h
          refine .inr (.inr ⟨event, _, rfl, rfl, hclosesAt, ?_⟩)
          cases hc : e.closesAt split byte with
          | true =>
              rw [hc, if_pos rfl] at h
              exact .inl ⟨rfl, h.1, h.2, by simp only [afterEvent, putBack, h.1]⟩
          | false =>
              rw [hc, if_neg Bool.false_ne_true] at h
              exact .inr ⟨rfl, h.1, by simp only [afterEvent, putBack, h.1]⟩

/-- A byte closes the line, or the line is edited further. -/
theorem localByte_mode (hm : e.mode = .localEdit) (hl : e.activeLine = some line) (byte : UInt8) :
    (e.closesAt split byte = true ∧ (e.localByte split line byte).1.mode = .remote
        ∧ (e.localByte split line byte).1.activeLine = none)
      ∨ (e.closesAt split byte = false ∧ (e.localByte split line byte).2.2 = true
        ∧ (e.localByte split line byte).1.mode = .localEdit
        ∧ ∃ line', (e.localByte split line byte).1.activeLine = some line') := by
  rcases @localByte_cases split _ _ hm hl byte with
    ⟨hc, -, hbyte⟩ | ⟨hc, -, hbyte⟩ | ⟨event, r, -, -, -, ⟨hc, hmode, hline, hbyte⟩ | ⟨hc, hmode, hbyte⟩⟩
  · rw [hbyte]
    exact .inl ⟨hc, rfl, rfl⟩
  · rw [hbyte]
    exact .inr ⟨hc, rfl, (e.beforeEvent_mode line byte).trans hm, _, rfl⟩
  · rw [hbyte]
    exact .inl ⟨hc, hmode, hline⟩
  · rw [hbyte]
    exact .inr ⟨hc, rfl, hmode, _, rfl⟩

/-! ## One byte after the other -/

/-- Further bytes in a further read. -/
def andThen (split : ShellWords) (r : InputEngine × Output) (data : List UInt8) : InputEngine × Output :=
  ((r.1.processLocal split data).1, r.2 ++ (r.1.processLocal split data).2)

theorem processLocal_remote (hm : e.mode = .remote) (data : List UInt8) :
    e.processLocal split data = e.processRemote split data := by
  rw [processLocal, hm]

theorem processLocal_edit (hm : e.mode = .localEdit) (data : List UInt8) :
    e.processLocal split data = e.processEdit split data := by
  rw [processLocal, hm]

@[simp] theorem processLocal_nil (e : InputEngine) : e.processLocal split [] = (e, .empty) := by
  cases hm : e.mode with
  | remote =>
      rw [processLocal_remote hm]
      rfl
  | localEdit =>
      rw [processLocal_edit hm]
      rfl

/-- A single byte that is edited. -/
theorem processLocal_edit_byte (hm : e.mode = .localEdit) (hl : e.activeLine = some line)
    (byte : UInt8) :
    e.processLocal split [byte]
      = ((e.localByte split line byte).1, (e.localByte split line byte).2.1) := by
  rw [processLocal_edit hm, processEdit, hl]
  dsimp only
  cases (e.localByte split line byte).2.2 with
  | true => simp [processEdit]
  | false => simp

/-- The byte that closes the line is the last one that is looked at. -/
theorem processEdit_closed (hm : e.mode = .remote) (hl : e.activeLine = none) (data : List UInt8) :
    e.processEdit split data = (e, .empty) := by
  cases data with
  | nil => rfl
  | cons byte rest =>
      have heq : ({ e with mode := .remote } : InputEngine) = e := by
        rw [← hm]
      rw [processEdit]
      split
      · rw [heq]
      · rename_i line hsome
        cases hl.symm.trans hsome

/-- A single byte that is not edited: it is swallowed, opens the escape line, or is sent. -/
theorem processLocal_remote_byte (hm : e.mode = .remote) (byte : UInt8) :
    e.processLocal split [byte] =
      if e.swallowNextEnterPair = some byte then ({ e with swallowNextEnterPair := none }, .empty)
      else if e.localLineLen = 0 ∧ byte = LineEditor.tilde then
        (openEscape { e with swallowNextEnterPair := none }, .shown [LineEditor.tilde])
      else (handleRemoteByte { e with swallowNextEnterPair := none } byte, .remote [byte]) := by
  rw [processLocal_remote hm, processRemote]
  split
  · rfl
  · dsimp only
    split
    · rfl
    · rfl

theorem handleRemoteByte_kept (e : InputEngine) (byte : UInt8) :
    (e.handleRemoteByte byte).mode = e.mode ∧ (e.handleRemoteByte byte).activeLine = e.activeLine
      ∧ (e.handleRemoteByte byte).swallowNextEnterPair = e.swallowNextEnterPair := by
  unfold handleRemoteByte
  repeat' split
  all_goals exact ⟨rfl, rfl, rfl⟩

/-- **A read is its first byte and then the rest, unless that byte closes the line.** -/
theorem processLocal_cons (h : e.ModeOk) (byte : UInt8) (rest : List UInt8) :
    e.processLocal split (byte :: rest)
      = if e.closesAt split byte then e.processLocal split [byte]
        else andThen split (e.processLocal split [byte]) rest := by
  rcases h.cases with ⟨hm, hl⟩ | ⟨line, hm, hl⟩
  · have hopen : e.closesAt split byte = false := by rw [closesAt, hl]
    rw [hopen, if_neg (by decide), processLocal_remote_byte hm, processLocal_remote hm, processRemote]
    split
    · rw [andThen, processLocal_remote (by exact hm), Output.empty_append]
    · dsimp only
      split
      · rw [andThen, processLocal_edit (by rfl)]
      · obtain ⟨hmode, -, -⟩ := handleRemoteByte_kept { e with swallowNextEnterPair := none } byte
        rw [andThen, processLocal_remote (hmode.trans hm)]
  · rw [processLocal_edit_byte hm hl, processLocal_edit hm, processEdit, hl]
    dsimp only
    rcases @localByte_mode split _ _ hm hl byte with ⟨hc, hm', hl'⟩ | ⟨hc, hmore, hm', -⟩
    · rw [hc, if_pos rfl]
      cases (e.localByte split line byte).2.2 with
      | true =>
          rw [if_pos rfl, processEdit_closed hm' hl']
          simp
      | false => rw [if_neg (by decide)]
    · rw [hmore, if_pos rfl, hc, if_neg (by decide), andThen, processLocal_edit hm']

/-- A byte keeps mode and line together. -/
theorem modeOk_byte (h : e.ModeOk) (byte : UInt8) : (e.processLocal split [byte]).1.ModeOk := by
  rcases h.cases with ⟨hm, hl⟩ | ⟨line, hm, hl⟩
  · rw [processLocal_remote_byte hm]
    split
    · exact modeOk_remote hm hl
    split
    · exact modeOk_edit rfl rfl
    · obtain ⟨hmode, hline, -⟩ := handleRemoteByte_kept { e with swallowNextEnterPair := none } byte
      exact modeOk_remote (hmode.trans hm) (hline.trans hl)
  · rw [processLocal_edit_byte hm hl]
    rcases @localByte_mode split _ _ hm hl byte with ⟨-, hm', hl'⟩ | ⟨-, -, hm', line', hl'⟩
    · exact modeOk_remote hm' hl'
    · exact modeOk_edit hm' hl'

/-- Afterwards the engine is in `Remote` mode. -/
theorem remote_of_closesAt (h : e.ModeOk) (hc : e.closesAt split byte = true) :
    (e.processLocal split [byte]).1.mode = .remote := by
  rcases h.cases with ⟨hm, hl⟩ | ⟨line, hm, hl⟩
  · rw [closesAt, hl] at hc
    cases hc
  · rw [processLocal_edit_byte hm hl]
    rcases @localByte_mode split _ _ hm hl byte with ⟨-, hm', -⟩ | ⟨hc', -⟩
    · exact hm'
    · rw [hc] at hc'
      cases hc'

/-- **The rule for reads.** What every byte keeps that is looked at, a read keeps. -/
theorem processLocal_induct {motive : InputEngine → List UInt8 → InputEngine → Prop}
    (hnil : ∀ e, e.ModeOk → motive e [] e)
    (hcloses : ∀ e byte rest, e.ModeOk → e.closesAt split byte = true →
      motive e (byte :: rest) (e.processLocal split [byte]).1)
    (hcons : ∀ e byte rest e', e.ModeOk → e.closesAt split byte = false →
      motive (e.processLocal split [byte]).1 rest e' → motive e (byte :: rest) e')
    (h : e.ModeOk) (data : List UInt8) : motive e data (e.processLocal split data).1 := by
  induction data generalizing e with
  | nil =>
      rw [processLocal_nil]
      exact hnil e h
  | cons byte rest ih =>
      rw [processLocal_cons h]
      cases hc : e.closesAt split byte with
      | true =>
          rw [if_pos rfl]
          exact hcloses e byte rest h hc
      | false =>
          rw [if_neg (by decide)]
          exact hcons e byte rest _ h hc (ih (modeOk_byte h byte))

theorem modeOk_processLocal (h : e.ModeOk) (data : List UInt8) :
    (e.processLocal split data).1.ModeOk := by
  refine processLocal_induct (motive := fun _ _ e' => e'.ModeOk) ?_ ?_ ?_ h data
  · exact fun e h => h
  · exact fun e byte rest h _ => modeOk_byte h byte
  · exact fun e byte rest e' _ _ h => h

/-- Every byte of a read that is looked at meets `G` in the state it finds. -/
def EachByte (split : ShellWords) (G : InputEngine → UInt8 → Prop) : InputEngine → List UInt8 → Prop
  | _, [] => True
  | e, byte :: rest =>
      G e byte ∧ (e.closesAt split byte = false → EachByte split G (e.processLocal split [byte]).1 rest)

/-- The rule for reads, with a condition on the bytes. -/
theorem processLocal_keeps {I : InputEngine → Prop} {G : InputEngine → UInt8 → Prop}
    (hbyte : ∀ e byte, e.ModeOk → I e → G e byte → I (e.processLocal split [byte]).1)
    (h : e.ModeOk) (hi : I e) {data : List UInt8} (hg : EachByte split G e data) :
    I (e.processLocal split data).1 := by
  revert hi hg
  refine processLocal_induct (motive := fun e data e' => I e → EachByte split G e data → I e')
    ?_ ?_ ?_ h data
  · intro e _ hi _
    exact hi
  · intro e byte rest hok _ hi hg
    exact hbyte e byte hok hi hg.1
  · intro e byte rest e' hok hc hrest hi hg
    exact hrest (hbyte e byte hok hi hg.1) (hg.2 hc)

/-! ## Two reads or one -/

/-- Some byte closes the line, where the bytes before it have led. -/
def closing (split : ShellWords) : InputEngine → List UInt8 → Bool
  | _, [] => false
  | e, byte :: rest => e.closesAt split byte || closing split (e.processLocal split [byte]).1 rest

theorem processLocal_append (h : e.ModeOk) (a b : List UInt8) :
    e.processLocal split (a ++ b)
      = if closing split e a then e.processLocal split a else andThen split (e.processLocal split a) b := by
  induction a generalizing e with
  | nil => simp [closing, andThen]
  | cons byte a ih =>
      rw [List.cons_append, processLocal_cons h, processLocal_cons h byte a, closing]
      cases hc : e.closesAt split byte with
      | true => simp
      | false =>
          rw [Bool.false_or, if_neg Bool.false_ne_true, if_neg Bool.false_ne_true, andThen,
            ih (modeOk_byte h byte)]
          split
          · rfl
          · simp only [andThen, Output.append_assoc]

theorem remote_of_closing {a : List UInt8} (h : e.ModeOk) (hc : closing split e a = true) :
    (e.processLocal split a).1.mode = .remote := by
  induction a generalizing e with
  | nil => cases hc
  | cons byte a ih =>
      rw [processLocal_cons h]
      cases hb : e.closesAt split byte with
      | true =>
          rw [if_pos rfl]
          exact remote_of_closesAt h hb
      | false =>
          rw [closing, hb, Bool.false_or] at hc
          rw [if_neg (by decide)]
          exact ih (modeOk_byte h byte) hc

/-- A byte that is not swallowed is sent, or shows a `~`. -/
theorem output_of_not_swallowed (h : e.ModeOk) (hm : e.mode = .remote)
    (hs : e.swallowNextEnterPair ≠ some byte) (rest : List UInt8) :
    (e.processLocal split (byte :: rest)).2 ≠ .empty := by
  have hopen : e.closesAt split byte = false := by
    rcases h.cases with ⟨-, hl⟩ | ⟨line, hm', -⟩
    · rw [closesAt, hl]
    · rw [hm] at hm'
      cases hm'
  intro hempty
  rw [processLocal_cons h, hopen, if_neg (by decide), processLocal_remote_byte hm, if_neg hs] at hempty
  split at hempty
  · have hshown := congrArg Output.toLocal hempty
    cases hshown
  · have hsent := congrArg Output.toRemote hempty
    cases hsent

/-- In `Remote` mode no byte goes by without a trace. -/
theorem processLocal_ne_self (h : e.ModeOk) (hm : e.mode = .remote) {data : List UInt8}
    (hd : data ≠ []) : e.processLocal split data ≠ (e, .empty) := by
  intro heq
  cases data with
  | nil => exact hd rfl
  | cons byte rest =>
      by_cases hs : e.swallowNextEnterPair = some byte
      · -- swallowed, and remembered as such
        have hl : e.activeLine = none := by
          rcases h.cases with ⟨-, hl⟩ | ⟨line, hm', -⟩
          · exact hl
          · rw [hm] at hm'
            cases hm'
        have hm₁ : ({ e with swallowNextEnterPair := none } : InputEngine).mode = .remote := hm
        have hl₁ : ({ e with swallowNextEnterPair := none } : InputEngine).activeLine = none := hl
        rw [processLocal_remote hm, processRemote, if_pos hs, ← processLocal_remote hm₁] at heq
        cases rest with
        | nil =>
            rw [processLocal_nil] at heq
            have hnone : none = e.swallowNextEnterPair := congrArg (·.1.swallowNextEnterPair) heq
            rw [hs] at hnone
            cases hnone
        | cons c rest =>
            exact output_of_not_swallowed (modeOk_remote hm₁ hl₁) hm₁ (by simp) rest (congrArg Prod.snd heq)
      · exact output_of_not_swallowed h hm hs rest (congrArg Prod.snd heq)

/-- Two reads are one, unless the first closes the line and there is a second. -/
theorem processLocal_append_iff (h : e.ModeOk) (a b : List UInt8) :
    e.processLocal split (a ++ b) = andThen split (e.processLocal split a) b
      ↔ b = [] ∨ closing split e a = false := by
  rw [processLocal_append h]
  cases hc : closing split e a with
  | false => simp
  | true =>
      rw [if_pos rfl]
      constructor
      · intro heq
        refine .inl (Classical.byContradiction fun hb => ?_)
        have hr := remote_of_closing h hc
        have hok := @modeOk_processLocal split _ h a
        rw [andThen] at heq
        have hstate := congrArg Prod.fst heq
        have hout := congrArg Prod.snd heq
        have hempty := Output.append_eq_self hout.symm
        exact processLocal_ne_self hok hr hb (Prod.ext hstate.symm hempty)
      · rintro (hb | hfalse)
        · rw [hb, andThen, processLocal_nil, Output.append_empty]
        · cases hfalse

/-! ## Calls -/

theorem observeRemote_kept (e : InputEngine) (data : List UInt8) :
    (e.observeRemote data).mode = e.mode ∧ (e.observeRemote data).activeLine = e.activeLine := by
  induction data generalizing e with
  | nil => exact ⟨rfl, rfl⟩
  | cons byte data ih =>
      rw [observeRemote, List.foldl_cons]
      split
      · exact ih _
      · exact ih e

theorem modeOk_call (h : e.ModeOk) (c : InputCall) : (e.call split c).ModeOk := by
  cases c with
  | typed data => exact modeOk_processLocal h data
  | observed data =>
      obtain ⟨hm, hl⟩ := observeRemote_kept e data
      rw [call, ModeOk, hm, hl]
      exact h
  | completed result =>
      rcases h.cases with ⟨hm, hl⟩ | ⟨line, hm, hl⟩
      · simp only [call, completeActiveLine, hl]
        exact h
      · simp only [call, completeActiveLine, hl]
        cases result with
        | none => exact h
        | applied text cursor =>
            dsimp only
            split
            · exact modeOk_edit hm rfl
            · exact modeOk_edit hm rfl
        | suggestions found =>
            dsimp only
            split
            · exact modeOk_edit hm rfl
            · exact h
  | resized =>
      rcases h.cases with ⟨hm, hl⟩ | ⟨line, hm, hl⟩
      · simp only [call, handleResize, hl]
        exact h
      · simp only [call, handleResize, hl]
        exact modeOk_edit hm rfl

/-- Calls as steps of a system. -/
def step (split : ShellWords) (e : InputEngine) (c : InputCall) : Option InputEngine := some (e.call split c)

/-- A fresh engine after some calls. -/
def afterCalls (split : ShellWords) (escapeLines promptLines : List (List Char)) (calls : List InputCall) :
    InputEngine := calls.foldl (call split) (.new escapeLines promptLines)

theorem modeOk_afterCalls (escapeLines promptLines : List (List Char)) (calls : List InputCall) :
    (afterCalls split escapeLines promptLines calls).ModeOk := by
  have hall : ∀ e : InputEngine, e.ModeOk → (calls.foldl (call split) e).ModeOk := by
    induction calls with
    | nil => exact fun e h => h
    | cons c calls ih => exact fun e h => ih _ (modeOk_call h c)
  exact hall _ (modeOk_remote rfl rfl)

end InputEngine

namespace Proof

open InputEngine

/-- Reads are independent of their boundaries, unless a byte of the first closes the local line and the
second is not empty. -/
theorem reads_compose_iff (split : ShellWords) (escapeLines promptLines : List (List Char))
    (calls : List InputCall) (a b : List UInt8) :
    (afterCalls split escapeLines promptLines calls).processLocal split (a ++ b)
        = andThen split ((afterCalls split escapeLines promptLines calls).processLocal split a) b
      ↔ b = [] ∨ closing split (afterCalls split escapeLines promptLines calls) a = false :=
  processLocal_append_iff (modeOk_afterCalls escapeLines promptLines calls) a b

/-- `~`, DEL and `ls`: in one read the `ls` is lost. -/
theorem read_boundary_matters :
    (InputEngine.new [] []).processLocal (fun _ => none) ([0x7e, 0x7f] ++ [0x6c, 0x73])
        ≠ andThen (fun _ => none)
          ((InputEngine.new [] []).processLocal (fun _ => none) [0x7e, 0x7f]) [0x6c, 0x73]
      ∧ ((InputEngine.new [] []).processLocal (fun _ => none) ([0x7e, 0x7f] ++ [0x6c, 0x73])).2.toRemote
        = [0x0d]
      ∧ (andThen (fun _ => none) ((InputEngine.new [] []).processLocal (fun _ => none) [0x7e, 0x7f])
          [0x6c, 0x73]).2.toRemote = [0x0d, 0x6c, 0x73] := by
  decide +kernel

end Proof

end Irosh
