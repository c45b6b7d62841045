import Mathlib.Data.List.Induction
import Irosh.Proof.InputBytes

/-!
# Opening the escape line

In `Remote` mode a byte is sent on as it is typed. Only a `~` at the start of a line is
not; and after a local edit the second half of its Enter is not sent either.

The engine counts what was typed on the line and follows escape sequences, so that their
bytes are not counted. But it looks for the `~` first. A Delete key at the start of a line
ends in `~`, and opens the escape line with the rest of its sequence already sent. And the
half of an Enter it waits for may be left over from an Enter that did not end the edit.

What was typed is read here from a log that is kept beside the engine. `Complete` says when
a typed stream is not inside a sequence, and the engine's tracker is held to it.
-/

namespace Irosh

open Exec

/-! ## Typed streams -/

/-- A byte that goes on with a CSI sequence. -/
def isCsiParam (b : UInt8) : Prop := 0x20 ≤ b ∧ b ≤ 0x3f

instance (b : UInt8) : Decidable (isCsiParam b) := inferInstanceAs (Decidable (0x20 ≤ b ∧ b ≤ 0x3f))

/-- A stream of plain bytes and of whole sequences: two bytes, CSI or OSC. -/
inductive Complete : List UInt8 → Prop
  | nil : Complete []
  | plain {s : List UInt8} {b : UInt8} (h : Complete s) (hb : b ≠ 0x1b) : Complete (s ++ [b])
  | two {s : List UInt8} {b : UInt8} (h : Complete s) (hb : b ≠ 0x5b) (hb' : b ≠ 0x5d) :
      Complete (s ++ [0x1b] ++ [b])
  | csi {s ps : List UInt8} {final : UInt8} (h : Complete s) (hps : ∀ p ∈ ps, isCsiParam p)
      (hfinal : ¬ isCsiParam final) : Complete (s ++ [0x1b, 0x5b] ++ ps ++ [final])
  | oscBell {s ps : List UInt8} (h : Complete s) (hps : ∀ p ∈ ps, p ≠ 0x07 ∧ p ≠ 0x1b) :
      Complete (s ++ [0x1b, 0x5d] ++ ps ++ [0x07])
  | oscEsc {s ps : List UInt8} (h : Complete s) (hps : ∀ p ∈ ps, p ≠ 0x07 ∧ p ≠ 0x1b) (b : UInt8) :
      Complete (s ++ [0x1b, 0x5d] ++ ps ++ [0x1b] ++ [b])

namespace RemoteAnsiState

/-- What a typed byte does to the tracker. -/
def next : RemoteAnsiState → UInt8 → RemoteAnsiState
  | .none, b => if b = 0x1b then .afterEsc else .none
  | .afterEsc, b => if b = 0x5b then .inCsi else if b = 0x5d then .inOsc else .none
  | .inCsi, b => if isCsiParam b then .inCsi else .none
  | .inOsc, b => if b = 0x07 then .none else if b = 0x1b then .inOscEsc else .inOsc
  | .inOscEsc, _ => .none

/-- The tracker after a stream. -/
def after (s : List UInt8) : RemoteAnsiState := s.foldl next .none

theorem after_append (s t : List UInt8) : after (s ++ t) = t.foldl next (after s) :=
  List.foldl_append

theorem foldl_inCsi {ps : List UInt8} (h : ∀ p ∈ ps, isCsiParam p) : ps.foldl next .inCsi = .inCsi := by
  induction ps with
  | nil => rfl
  | cons p ps ih =>
      have hp : next .inCsi p = .inCsi := if_pos (h p List.mem_cons_self)
      rw [List.foldl_cons, hp]
      exact ih fun q hq => h q (List.mem_cons_of_mem p hq)

theorem foldl_inOsc {ps : List UInt8} (h : ∀ p ∈ ps, p ≠ 0x07 ∧ p ≠ 0x1b) :
    ps.foldl next .inOsc = .inOsc := by
  induction ps with
  | nil => rfl
  | cons p ps ih =>
      obtain ⟨hbell, hesc⟩ := h p List.mem_cons_self
      have hp : next .inOsc p = .inOsc := by rw [next, if_neg hbell, if_neg hesc]
      rw [List.foldl_cons, hp]
      exact ih fun q hq => h q (List.mem_cons_of_mem p hq)

theorem after_complete {s : List UInt8} (h : Complete s) : after s = .none := by
  induction h with
  | nil => rfl
  | plain _ hb ih =>
      rw [after_append, ih]
      exact if_neg hb
  | two _ hb hb' ih =>
      rw [List.append_assoc, after_append, ih]
      show next .afterEsc _ = .none
      rw [next, if_neg hb, if_neg hb']
  | csi _ hps hfinal ih =>
      rw [after_append, after_append, after_append, ih]
      show next (List.foldl next .inCsi _) _ = .none
      rw [foldl_inCsi hps, next, if_neg hfinal]
  | oscBell _ hps ih =>
      rw [after_append, after_append, after_append, ih]
      show next (List.foldl next .inOsc _) 0x07 = .none
      rw [foldl_inOsc hps]
      rfl
  | oscEsc _ hps b ih =>
      rw [after_append, after_append, after_append, after_append, ih]
      show next (next (List.foldl next .inOsc _) 0x1b) b = .none
      rw [foldl_inOsc hps]
      rfl

/-- What a stream looks like that leaves the tracker in a state. -/
def Means : RemoteAnsiState → List UInt8 → Prop
  | .none, s => Complete s
  | .afterEsc, s => ∃ t, Complete t ∧ s = t ++ [0x1b]
  | .inCsi, s => ∃ t ps, Complete t ∧ (∀ p ∈ ps, isCsiParam p) ∧ s = t ++ [0x1b, 0x5b] ++ ps
  | .inOsc, s => ∃ t ps, Complete t ∧ (∀ p ∈ ps, p ≠ 0x07 ∧ p ≠ 0x1b) ∧ s = t ++ [0x1b, 0x5d] ++ ps
  | .inOscEsc, s =>
      ∃ t ps, Complete t ∧ (∀ p ∈ ps, p ≠ 0x07 ∧ p ≠ 0x1b) ∧ s = t ++ [0x1b, 0x5d] ++ ps ++ [0x1b]

theorem means_next {state : RemoteAnsiState} {s : List UInt8} (h : state.Means s) (b : UInt8) :
    (state.next b).Means (s ++ [b]) := by
  cases state with
  | none =>
      by_cases hb : b = 0x1b
      · rw [next, if_pos hb, hb]
        exact ⟨s, h, rfl⟩
      · rw [next, if_neg hb]
        exact Complete.plain h hb
  | afterEsc =>
      obtain ⟨t, ht, rfl⟩ := h
      by_cases hcsi : b = 0x5b
      · rw [next, if_pos hcsi, hcsi]
        exact ⟨t, [], ht, fun p hp => absurd hp List.not_mem_nil, by simp⟩
      by_cases hosc : b = 0x5d
      · rw [next, if_neg hcsi, if_pos hosc, hosc]
        exact ⟨t, [], ht, fun p hp => absurd hp List.not_mem_nil, by simp⟩
      · rw [next, if_neg hcsi, if_neg hosc]
        exact Complete.two ht hcsi hosc
  | inCsi =>
      obtain ⟨t, ps, ht, hps, rfl⟩ := h
      by_cases hb : isCsiParam b
      · rw [next, if_pos hb]
        refine ⟨t, ps ++ [b], ht, ?_, by simp⟩
        intro p hp
        rcases List.mem_append.mp hp with hold | hnew
        · exact hps p hold
        · rw [List.mem_singleton.mp hnew]
          exact hb
      · rw [next, if_neg hb]
        exact Complete.csi ht hps hb
  | inOsc =>
      obtain ⟨t, ps, ht, hps, rfl⟩ := h
      by_cases hbell : b = 0x07
      · rw [next, if_pos hbell, hbell]
        exact Complete.oscBell ht hps
      by_cases hesc : b = 0x1b
      · rw [next, if_neg hbell, if_pos hesc, hesc]
        exact ⟨t, ps, ht, hps, rfl⟩
      · rw [next, if_neg hbell, if_neg hesc]
        refine ⟨t, ps ++ [b], ht, ?_, by simp⟩
        intro p hp
        rcases List.mem_append.mp hp with hold | hnew
        · exact hps p hold
        · rw [List.mem_singleton.mp hnew]
          exact ⟨hbell, hesc⟩
  | inOscEsc =>
      obtain ⟨t, ps, ht, hps, rfl⟩ := h
      exact Complete.oscEsc ht hps b

theorem means_after (s : List UInt8) : (after s).Means s := by
  induction s using List.reverseRecOn with
  | nil => exact Complete.nil
  | append_singleton s b ih =>
      rw [after_append]
      exact means_next ih b

/-- **The tracker is at rest exactly outside sequences.** -/
theorem after_eq_none_iff (s : List UInt8) : after s = .none ↔ Complete s := by
  constructor
  · intro h
    have hmeans := means_after s
    rw [h] at hmeans
    exact hmeans
  · exact after_complete

end RemoteAnsiState

/-! ## The log -/

/-- What bears on the line that is typed. -/
inductive Heard where
  /-- A byte that was typed and sent. -/
  | sent (byte : UInt8)
  /-- A newline from the remote. -/
  | newline
  /-- A local edit ended, with so many characters sent for it. -/
  | edited (pending : Nat)
  deriving DecidableEq, Repr

namespace Heard

/-- The typed stream. -/
def stream (log : List Heard) : List UInt8 :=
  log.filterMap fun
    | .sent byte => some byte
    | .newline | .edited _ => none

/-- What a byte outside sequences does to the number of characters on the line. -/
def count (len : Nat) (b : UInt8) : Nat :=
  if b = 0x0d ∨ b = 0x0a then 0
  else if b = 0x1b then len
  else if b = 8 ∨ b = 127 then len - 1
  else len + 1

/-- The tracker and the number of characters. -/
def follow (s : RemoteAnsiState × Nat) : Heard → RemoteAnsiState × Nat
  | .sent b => (s.1.next b, if s.1 = .none then count s.2 b else s.2)
  | .newline => (s.1, 0)
  | .edited pending => (s.1, pending)

def lineState (log : List Heard) : RemoteAnsiState × Nat := log.foldl follow (.none, 0)

/-- How many characters were typed on the line, without those taken back. -/
def lineLen (log : List Heard) : Nat := (lineState log).2

theorem lineState_snoc (log : List Heard) (x : Heard) :
    lineState (log ++ [x]) = follow (lineState log) x := by
  rw [lineState, List.foldl_append]
  rfl

theorem lineState_ansi (log : List Heard) : (lineState log).1 = RemoteAnsiState.after (stream log) := by
  induction log using List.reverseRecOn with
  | nil => rfl
  | append_singleton log x ih =>
      rw [lineState_snoc, stream, List.filterMap_append]
      cases x with
      | sent byte =>
          rw [RemoteAnsiState.after_append]
          show (lineState log).1.next byte = (RemoteAnsiState.after (stream log)).next byte
          rw [ih]
      | newline =>
          rw [List.filterMap_cons_none rfl, List.filterMap_nil, List.append_nil]
          exact ih
      | edited pending =>
          rw [List.filterMap_cons_none rfl, List.filterMap_nil, List.append_nil]
          exact ih

end Heard

namespace InputEngine

variable {split : ShellWords} {e : InputEngine}

/-- `handle_remote_byte` follows the log. -/
theorem handleRemoteByte_follow (e : InputEngine) (byte : UInt8) :
    ((e.handleRemoteByte byte).remoteAnsi, (e.handleRemoteByte byte).localLineLen)
      = Heard.follow (e.remoteAnsi, e.localLineLen) (.sent byte) := by
  unfold handleRemoteByte Heard.follow
  cases hansi : e.remoteAnsi with
  | none =>
      dsimp only [RemoteAnsiState.next, Heard.count]
      by_cases henter : byte = 0x0d ∨ byte = 0x0a
      · have hesc : byte ≠ 0x1b := by
          rcases henter with rfl | rfl <;> decide
        simp [henter, hesc]
      by_cases hesc : byte = 0x1b
      · simp [hesc]
      by_cases hback : byte = 8 ∨ byte = 127
      · simp [henter, hesc, hback]
      · simp [henter, hesc, hback]
  | afterEsc => rfl
  | inCsi =>
      dsimp only [RemoteAnsiState.next, isCsiParam]
      by_cases hparam : 0x20 ≤ byte ∧ byte ≤ 0x3f
      · simp [hparam, hansi]
      · simp [hparam]
  | inOsc =>
      dsimp only [RemoteAnsiState.next]
      by_cases hbell : byte = 0x07
      · simp [hbell]
      by_cases hesc : byte = 0x1b
      · simp [hesc]
      · simp [hbell, hesc, hansi]
  | inOscEsc => rfl

/-- The characters that a literal escape sends. -/
def pendingOf (actions : List EscapeAction) : Nat :=
  (actions.map fun
    | .sendLiteral payload => payload.length
    | .disconnect | .commandPrompt | .help | .runLocal _ | .requestCompletion => 0).sum

theorem parseEscape_literal {bytes payload : List UInt8}
    (h : parseEscape split bytes = some (.sendLiteral payload)) : payload.length = 1 := by
  unfold parseEscape at h
  dsimp only at h
  repeat' split at h
  all_goals try cases h
  · rfl
  · obtain ⟨command, -, hcommand⟩ := Option.map_eq_some_iff.mp h
    cases hcommand

variable {line : LineSession}

/-- What an event leaves alone, and the characters on the line after one that closes it. -/
theorem submitEscape_line (bytes : List UInt8) :
    (e.submitEscape split line bytes).1.remoteAnsi = e.remoteAnsi
      ∧ (e.submitEscape split line bytes).1.swallowNextEnterPair = e.swallowNextEnterPair
      ∧ (closes split (.submitEscape bytes) = true →
        (e.submitEscape split line bytes).1.localLineLen
          = pendingOf (e.submitEscape split line bytes).2.2.actions) := by
  unfold submitEscape closes
  cases hp : parseEscape split bytes with
  | none => exact ⟨rfl, rfl, fun _ => rfl⟩
  | some action =>
      cases action with
      | commandPrompt => exact ⟨rfl, rfl, fun hc => by simp [hp] at hc⟩
      | sendLiteral payload =>
          refine ⟨rfl, rfl, fun _ => ?_⟩
          show 1 = payload.length + 0
          rw [parseEscape_literal hp]
      | disconnect => exact ⟨rfl, rfl, fun _ => rfl⟩
      | help => exact ⟨rfl, rfl, fun _ => rfl⟩
      | runLocal command => exact ⟨rfl, rfl, fun _ => rfl⟩
      | requestCompletion => exact ⟨rfl, rfl, fun _ => rfl⟩

theorem submitPrompt_line (bytes : List UInt8) :
    (e.submitPrompt split line bytes).1.remoteAnsi = e.remoteAnsi
      ∧ (e.submitPrompt split line bytes).1.swallowNextEnterPair = e.swallowNextEnterPair
      ∧ (closes split (.submitPrompt bytes) = true →
        (e.submitPrompt split line bytes).1.localLineLen
          = pendingOf (e.submitPrompt split line bytes).2.2.actions) := by
  unfold submitPrompt closes
  cases hp : parseLocalCommand split bytes with
  | none => exact ⟨rfl, rfl, fun hc => by simp [hp] at hc⟩
  | some command =>
      cases command with
      | exit => exact ⟨rfl, rfl, fun _ => rfl⟩
      | disconnect => exact ⟨rfl, rfl, fun _ => rfl⟩
      | help | lpwd | lls | lcd | paths | clear | put | get | usageError | unknown =>
          exact ⟨rfl, rfl, fun hc => by simp [hp] at hc⟩

theorem applyEditorEvent_line (event : EditorEvent) :
    (e.applyEditorEvent split line event).1.remoteAnsi = e.remoteAnsi
      ∧ (e.applyEditorEvent split line event).1.swallowNextEnterPair = e.swallowNextEnterPair
      ∧ (closes split (line.editor.apply (e.historyOf line.editor.mode) event).2.2 = true →
        (e.applyEditorEvent split line event).1.localLineLen
          = pendingOf (e.applyEditorEvent split line event).2.2.actions) := by
  have hkept : ∀ (h : CommandHistory) (m : EditorMode), (e.withHistory h m).remoteAnsi = e.remoteAnsi
      ∧ (e.withHistory h m).swallowNextEnterPair = e.swallowNextEnterPair := by
    intro h m
    cases m with
    | escape => exact ⟨rfl, rfl⟩
    | prompt => exact ⟨rfl, rfl⟩
  unfold applyEditorEvent
  generalize line.editor.apply (e.historyOf line.editor.mode) event = r
  obtain ⟨editor, history, effect⟩ := r
  obtain ⟨hansi, hswallow⟩ := hkept history line.editor.mode
  cases effect with
  | noOp => exact ⟨hansi, hswallow, fun hc => by cases hc⟩
  | render =>
      dsimp only
      cases editor.mode with
      | escape => exact ⟨hansi, hswallow, fun hc => by cases hc⟩
      | prompt => exact ⟨hansi, hswallow, fun hc => by cases hc⟩
  | clearAndExit => exact ⟨hansi, hswallow, fun _ => rfl⟩
  | requestCompletion => exact ⟨hansi, hswallow, fun hc => by cases hc⟩
  | submitEscape bytes =>
      obtain ⟨h1, h2, h3⟩ := @submitEscape_line split (e.withHistory history line.editor.mode)
        { line with editor := editor } bytes
      exact ⟨h1.trans hansi, h2.trans hswallow, h3⟩
  | submitPrompt bytes =>
      obtain ⟨h1, h2, h3⟩ := @submitPrompt_line split (e.withHistory history line.editor.mode)
        { line with editor := editor } bytes
      exact ⟨h1.trans hansi, h2.trans hswallow, h3⟩

/-- The Enter that a byte is, if it ends the edit. -/
def endedBy (e : InputEngine) (byte : UInt8) : Option UInt8 :=
  e.activeLine.bind fun line => if isEnter line.controlState byte then some byte else none

/-- A byte of the edit leaves the tracker alone. One that closes the line leaves the engine with the
characters it sent. -/
theorem edit_byte_line (hm : e.mode = .localEdit) (hl : e.activeLine = some line) (byte : UInt8) :
    (e.processLocal split [byte]).1.remoteAnsi = e.remoteAnsi
      ∧ (e.closesAt split byte = true → (e.processLocal split [byte]).1.localLineLen
        = pendingOf (e.processLocal split [byte]).2.actions) := by
  have hbefore : (e.beforeEvent line byte).remoteAnsi = e.remoteAnsi := by
    unfold beforeEvent
    split <;> rfl
  rw [processLocal_edit_byte hm hl]
  rcases @localByte_cases split _ _ hm hl byte with
    ⟨-, -, hbyte⟩ | ⟨hc, -, hbyte⟩ | ⟨event, r, -, hr, hclose, hends⟩
  · rw [hbyte]
    exact ⟨rfl, fun _ => rfl⟩
  · rw [hbyte]
    exact ⟨hbefore, fun hc' => by rw [hc] at hc'; cases hc'⟩
  · have h := @applyEditorEvent_line split (e.beforeEvent line byte) (LineSession.advanced line byte) event
    rw [advanced_apply, ← hclose, ← hr] at h
    rcases hends with ⟨-, -, -, hbyte⟩ | ⟨hc, -, hbyte⟩
    · rw [hbyte]
      exact ⟨h.1.trans hbefore, h.2.2⟩
    · rw [hbyte]
      exact ⟨h.1.trans hbefore, fun hc' => by rw [hc] at hc'; cases hc'⟩

theorem observeRemote_line (e : InputEngine) (data : List UInt8) :
    (e.observeRemote data).remoteAnsi = e.remoteAnsi
      ∧ (e.observeRemote data).swallowNextEnterPair = e.swallowNextEnterPair
      ∧ (e.observeRemote data).localLineLen = if 0x0a ∈ data then 0 else e.localLineLen := by
  induction data generalizing e with
  | nil => exact ⟨rfl, rfl, rfl⟩
  | cons byte data ih =>
      rw [observeRemote, List.foldl_cons]
      by_cases hb : byte = 0x0a
      · rw [if_pos hb]
        obtain ⟨h1, h2, h3⟩ := ih { e with atStartOfLine := true, localLineLen := 0 }
        refine ⟨h1, h2, ?_⟩
        rw [if_pos (hb ▸ List.mem_cons_self)]
        refine h3.trans ?_
        split <;> rfl
      · rw [if_neg hb]
        obtain ⟨h1, h2, h3⟩ := ih e
        refine ⟨h1, h2, h3.trans ?_⟩
        have hiff : (0x0a : UInt8) ∈ byte :: data ↔ 0x0a ∈ data := by
          rw [List.mem_cons]
          exact ⟨fun h => h.resolve_left fun heq => hb heq.symm, .inr⟩
        simp only [hiff]

end InputEngine

/-! ## The engine and its log -/

/-- The engine with what was typed. -/
structure Watched where
  engine : InputEngine
  log : List Heard
  /-- What was typed, and what was sent, since the engine last came to `Remote` mode. -/
  typed : List UInt8
  sent : List UInt8
  /-- The Enter that ended the last local edit, if it was an Enter. -/
  ended : Option UInt8
  /-- The bytes on which the engine left `Remote` mode, with the log before them. -/
  departures : List (List Heard × UInt8)

namespace Watched

open InputEngine

def new (escapeLines promptLines : List (List Char)) : Watched where
  engine := .new escapeLines promptLines
  log := []
  typed := []
  sent := []
  ended := none
  departures := []

/-- One typed byte. -/
def byte (split : ShellWords) (w : Watched) (b : UInt8) : Watched :=
  let r := w.engine.processLocal split [b]
  match w.engine.mode, r.1.mode with
  | .remote, .remote =>
      { w with
        engine := r.1
        log := w.log ++ r.2.toRemote.map .sent
        typed := w.typed ++ [b]
        sent := w.sent ++ r.2.toRemote }
  | .remote, .localEdit => { w with engine := r.1, departures := w.departures ++ [(w.log, b)] }
  | .localEdit, .localEdit => { w with engine := r.1 }
  | .localEdit, .remote =>
      { w with
        engine := r.1
        log := w.log ++ [.edited (pendingOf r.2.actions)]
        typed := []
        sent := []
        ended := w.engine.endedBy b }

/-- One read. What comes after a byte that closes the line is not looked at. -/
def read (split : ShellWords) : Watched → List UInt8 → Watched
  | w, [] => w
  | w, b :: rest =>
      if w.engine.closesAt split b then w.byte split b else read split (w.byte split b) rest

def call (split : ShellWords) (w : Watched) : InputCall → Watched
  | .typed data => w.read split data
  | .observed data =>
      { w with
        engine := w.engine.observeRemote data
        log := if 0x0a ∈ data then w.log ++ [.newline] else w.log }
  | .completed result => { w with engine := w.engine.call split (.completed result) }
  | .resized => { w with engine := w.engine.call split .resized }

def step (split : ShellWords) (w : Watched) (c : InputCall) : Option Watched := some (w.call split c)

variable {split : ShellWords} {w : Watched}

theorem byte_engine (w : Watched) (b : UInt8) :
    (w.byte split b).engine = (w.engine.processLocal split [b]).1 := by
  unfold byte
  dsimp only
  split <;> rfl

theorem byte_passed {b : UInt8} (hm : w.engine.mode = .remote)
    (hr : (w.engine.processLocal split [b]).1.mode = .remote) :
    w.byte split b = { w with
      engine := (w.engine.processLocal split [b]).1
      log := w.log ++ (w.engine.processLocal split [b]).2.toRemote.map .sent
      typed := w.typed ++ [b]
      sent := w.sent ++ (w.engine.processLocal split [b]).2.toRemote } := by
  simp only [byte, hm, hr]

theorem byte_departed {b : UInt8} (hm : w.engine.mode = .remote)
    (hr : (w.engine.processLocal split [b]).1.mode = .localEdit) :
    w.byte split b = { w with
      engine := (w.engine.processLocal split [b]).1
      departures := w.departures ++ [(w.log, b)] } := by
  simp only [byte, hm, hr]

theorem byte_edited {b : UInt8} (hm : w.engine.mode = .localEdit)
    (hr : (w.engine.processLocal split [b]).1.mode = .localEdit) :
    w.byte split b = { w with engine := (w.engine.processLocal split [b]).1 } := by
  simp only [byte, hm, hr]

theorem byte_returned {b : UInt8} (hm : w.engine.mode = .localEdit)
    (hr : (w.engine.processLocal split [b]).1.mode = .remote) :
    w.byte split b = { w with
      engine := (w.engine.processLocal split [b]).1
      log := w.log ++ [.edited (pendingOf (w.engine.processLocal split [b]).2.actions)]
      typed := []
      sent := []
      ended := w.engine.endedBy b } := by
  simp only [byte, hm, hr]

/-- The log is only kept beside the engine. -/
theorem read_engine (h : w.engine.ModeOk) (data : List UInt8) :
    (w.read split data).engine = (w.engine.processLocal split data).1 := by
  induction data generalizing w with
  | nil => rw [read, processLocal_nil]
  | cons b rest ih =>
      rw [read, processLocal_cons h]
      split
      · exact byte_engine w b
      · have hok : (w.byte split b).engine.ModeOk := by
          rw [byte_engine]
          exact modeOk_byte h b
        rw [ih hok, byte_engine]
        rfl

theorem call_engine (h : w.engine.ModeOk) (c : InputCall) :
    (w.call split c).engine = w.engine.call split c := by
  cases c with
  | typed data => exact read_engine h data
  | observed data => rfl
  | completed result => rfl
  | resized => rfl

/-- A typed byte is what it is taken for: a `~` on an empty line is not part of a sequence, and what is
taken for the other half of an Enter comes after the Enter that ended the edit. -/
def Proper (w : Watched) (b : UInt8) : Prop :=
  w.engine.mode = .remote →
    (w.engine.swallowNextEnterPair = some b → w.ended.bind pairedEnterByte = some b)
    ∧ (w.engine.swallowNextEnterPair ≠ some b → w.engine.localLineLen = 0 → b = LineEditor.tilde →
      w.engine.remoteAnsi = .none)

/-- The engine's counter and tracker follow the log, and all it sent is what was typed. -/
structure Follows (w : Watched) : Prop where
  modeOk : w.engine.ModeOk
  ansi : w.engine.remoteAnsi = (Heard.lineState w.log).1
  len : w.engine.mode = .remote → w.engine.localLineLen = Heard.lineLen w.log
  fresh : w.engine.mode = .remote → w.engine.swallowNextEnterPair ≠ none → w.typed = [] ∧ w.sent = []
  passed : w.typed = w.sent
    ∨ ∃ pair, w.ended.bind pairedEnterByte = some pair ∧ w.typed = pair :: w.sent
  departed : ∀ d ∈ w.departures,
    d.2 = LineEditor.tilde ∧ Complete (Heard.stream d.1) ∧ Heard.lineLen d.1 = 0

theorem new_follows (escapeLines promptLines : List (List Char)) : (new escapeLines promptLines).Follows where
  modeOk := modeOk_remote rfl rfl
  ansi := rfl
  len := fun _ => rfl
  fresh := fun _ h => absurd rfl h
  passed := .inl rfl
  departed := fun _ h => absurd h List.not_mem_nil

/-- A byte that stays in `Remote` mode. -/
theorem passed_snoc {typed sent : List UInt8} {ended : Option UInt8} (b : UInt8)
    (h : typed = sent ∨ ∃ pair, ended.bind pairedEnterByte = some pair ∧ typed = pair :: sent) :
    typed ++ [b] = sent ++ [b]
      ∨ ∃ pair, ended.bind pairedEnterByte = some pair ∧ typed ++ [b] = pair :: (sent ++ [b]) := by
  rcases h with heq | ⟨pair, hpair, heq⟩
  · exact .inl (by rw [heq])
  · exact .inr ⟨pair, hpair, by rw [heq, List.cons_append]⟩

theorem byte_follows (h : w.Follows) (b : UInt8) (hp : w.Proper b) : (w.byte split b).Follows := by
  have hok := @modeOk_byte split _ h.modeOk b
  rcases h.modeOk.cases with ⟨hm, hl⟩ | ⟨line, hm, hl⟩
  · obtain ⟨hhalf, htilde⟩ := hp hm
    have hres := @processLocal_remote_byte split _ hm b
    by_cases hs : w.engine.swallowNextEnterPair = some b
    · -- the other half of the Enter
      rw [if_pos hs] at hres
      rw [hres] at hok
      rw [byte_passed hm (by rw [hres]; exact hm), hres]
      obtain ⟨htyped, hsent⟩ := h.fresh hm (by rw [hs]; simp)
      refine ⟨hok, ?_, ?_, fun _ hnone => absurd rfl hnone, .inr ⟨b, hhalf hs, ?_⟩, h.departed⟩
      · simpa [Output.empty] using h.ansi
      · intro _
        simpa [Output.empty] using h.len hm
      · simp [htyped, hsent, Output.empty]
    rw [if_neg hs] at hres
    by_cases ht : w.engine.localLineLen = 0 ∧ b = LineEditor.tilde
    · -- the escape line is opened
      rw [if_pos ht] at hres
      rw [hres] at hok
      rw [byte_departed hm (by rw [hres]; rfl), hres]
      refine ⟨hok, h.ansi, fun hmode => (by cases hmode), fun hmode => (by cases hmode), h.passed, ?_⟩
      intro d hd
      rcases List.mem_append.mp hd with hold | hnew
      · exact h.departed d hold
      · rw [List.mem_singleton.mp hnew]
        refine ⟨ht.2, ?_, (h.len hm).symm.trans ht.1⟩
        rw [← RemoteAnsiState.after_eq_none_iff, ← Heard.lineState_ansi, ← h.ansi]
        exact htilde hs ht.1 ht.2
    · -- sent on
      rw [if_neg ht] at hres
      obtain ⟨hmode, -, hswallow⟩ :=
        handleRemoteByte_kept { w.engine with swallowNextEnterPair := none } b
      have hpair : Heard.lineState w.log = (w.engine.remoteAnsi, w.engine.localLineLen) :=
        Prod.ext h.ansi.symm (h.len hm).symm
      have hstate : Heard.lineState (w.log ++ [.sent b])
          = ((handleRemoteByte { w.engine with swallowNextEnterPair := none } b).remoteAnsi,
            (handleRemoteByte { w.engine with swallowNextEnterPair := none } b).localLineLen) := by
        rw [Heard.lineState_snoc, hpair]
        exact (handleRemoteByte_follow { w.engine with swallowNextEnterPair := none } b).symm
      rw [hres] at hok
      rw [byte_passed hm (by rw [hres]; exact hmode.trans hm), hres]
      refine ⟨hok, ?_, fun _ => ?_, fun _ hnone => absurd hswallow hnone, passed_snoc b h.passed, h.departed⟩
      · exact (congrArg Prod.fst hstate).symm
      · exact (congrArg Prod.snd hstate).symm
  · obtain ⟨hansi, hlen⟩ := @edit_byte_line split _ _ hm hl b
    have hbyte := @processLocal_edit_byte split _ _ hm hl b
    rcases @localByte_mode split _ _ hm hl b with ⟨hc, hmode, -⟩ | ⟨hc, -, hmode, -⟩
    · -- the edit is over
      rw [byte_returned hm (by rw [hbyte]; exact hmode)]
      refine ⟨hok, ?_, fun _ => ?_, fun _ _ => ⟨rfl, rfl⟩, .inl rfl, h.departed⟩
      · rw [Heard.lineState_snoc]
        exact hansi.trans h.ansi
      · rw [Heard.lineLen, Heard.lineState_snoc]
        exact hlen hc
    · have hmode' : (w.engine.processLocal split [b]).1.mode = .localEdit := by
        rw [hbyte]
        exact hmode
      rw [byte_edited hm hmode']
      refine ⟨hok, hansi.trans h.ansi, fun hremote => ?_, fun hremote => ?_, h.passed, h.departed⟩
      · cases hremote.symm.trans hmode'
      · cases hremote.symm.trans hmode'

/-- Every byte of a read that is looked at is what it is taken for. -/
def ProperRead (split : ShellWords) : Watched → List UInt8 → Prop
  | _, [] => True
  | w, b :: rest =>
      w.Proper b ∧ (w.engine.closesAt split b = false → ProperRead split (w.byte split b) rest)

theorem read_follows (h : w.Follows) {data : List UInt8} (hp : w.ProperRead split data) :
    (w.read split data).Follows := by
  induction data generalizing w with
  | nil => exact h
  | cons b rest ih =>
      have hb := @byte_follows split _ h b hp.1
      rw [read]
      cases hc : w.engine.closesAt split b with
      | true => exact hb
      | false => exact ih hb (hp.2 hc)

/-- The condition on a call. -/
def ProperCall (split : ShellWords) (w : Watched) : InputCall → Prop
  | .typed data => w.ProperRead split data
  | .observed _ => True
  | .completed _ => True
  | .resized => True

/-- A call that is none of a user's typing keeps what is sent. -/
theorem call_kept (e : InputEngine) (c : InputCall) (hc : c = .resized ∨ ∃ r, c = .completed r) :
    (e.call split c).mode = e.mode ∧ (e.call split c).remoteAnsi = e.remoteAnsi
      ∧ (e.call split c).localLineLen = e.localLineLen
      ∧ (e.call split c).swallowNextEnterPair = e.swallowNextEnterPair := by
  rcases hc with rfl | ⟨r, rfl⟩
  · simp only [InputEngine.call, handleResize]
    split
    · exact ⟨rfl, rfl, rfl, rfl⟩
    · exact ⟨rfl, rfl, rfl, rfl⟩
  · simp only [InputEngine.call, completeActiveLine]
    repeat' split
    all_goals exact ⟨rfl, rfl, rfl, rfl⟩

theorem kept_follows {c : InputCall} (h : w.Follows) (hc : c = .resized ∨ ∃ r, c = .completed r) :
    ({ w with engine := w.engine.call split c } : Watched).Follows := by
  obtain ⟨hmode, hansi, hlen, hswallow⟩ := @call_kept split w.engine c hc
  refine ⟨modeOk_call h.modeOk c, hansi.trans h.ansi, fun hm => ?_, fun hm hs => ?_, h.passed, h.departed⟩
  · exact hlen.trans (h.len (hmode.symm.trans hm))
  · exact h.fresh (hmode.symm.trans hm) fun hnone => hs (hswallow.trans hnone)

theorem call_follows (h : w.Follows) (c : InputCall) (hp : w.ProperCall split c) :
    (w.call split c).Follows := by
  cases c with
  | typed data => exact read_follows h hp
  | observed data =>
      obtain ⟨hmode, -⟩ := observeRemote_kept w.engine data
      obtain ⟨hansi, hswallow, hlen⟩ := observeRemote_line w.engine data
      refine ⟨@modeOk_call split _ h.modeOk (.observed data), ?_, fun hm => ?_, fun hm hs => ?_,
        h.passed, h.departed⟩
      · refine hansi.trans (h.ansi.trans ?_)
        show _ = (Heard.lineState (if 0x0a ∈ data then w.log ++ [.newline] else w.log)).1
        split
        · rw [Heard.lineState_snoc]
          rfl
        · rfl
      · refine hlen.trans ?_
        show _ = Heard.lineLen (if 0x0a ∈ data then w.log ++ [.newline] else w.log)
        split
        · rw [Heard.lineLen, Heard.lineState_snoc]
          rfl
        · exact h.len (hmode.symm.trans hm)
      · exact h.fresh (hmode.symm.trans hm) fun hnone => hs (hswallow.trans hnone)
  | completed result => exact kept_follows h (.inr ⟨result, rfl⟩)
  | resized => exact kept_follows h (.inl rfl)

/-- The engine of a watched run is the engine of the run. -/
theorem exec_engine {calls : List InputCall} {w' : Watched} (h : w.engine.ModeOk)
    (hx : exec (step split) w calls = some w') :
      w'.engine = calls.foldl (InputEngine.call split) w.engine := by
  induction calls generalizing w with
  | nil =>
      cases hx
      rfl
  | cons c calls ih =>
      have hengine := @call_engine split _ h c
      have hok : (w.call split c).engine.ModeOk := by
        rw [hengine]
        exact modeOk_call h c
      rw [List.foldl_cons, ← hengine]
      exact ih hok hx

end Watched

namespace Proof

open InputEngine

/-- The engine leaves `Remote` mode only on a `~` at the start of a line and outside sequences, and sends
what is typed but for the other half of the Enter that ended the edit before; unless a `~` in a sequence
is typed on an empty line, or something other than that Enter ended the edit. -/
theorem escape_arming (split : ShellWords) (escapeLines promptLines : List (List Char))
    (calls : List InputCall) (w : Watched)
    (hproper : Meets (Watched.step split) (Watched.ProperCall split) (.new escapeLines promptLines) calls)
    (hx : exec (Watched.step split) (.new escapeLines promptLines) calls = some w) :
    w.engine = afterCalls split escapeLines promptLines calls
      ∧ (∀ d ∈ w.departures,
        d.2 = LineEditor.tilde ∧ Heard.lineLen d.1 = 0 ∧ Complete (Heard.stream d.1))
      ∧ (w.typed = w.sent
        ∨ ∃ enter pair, w.ended = some enter ∧ pairedEnterByte enter = some pair
          ∧ w.typed = pair :: w.sent) := by
  have hengine := Watched.exec_engine (modeOk_remote rfl rfl) hx
  have hf : w.Follows := by
    refine exec_invariant (I := Watched.Follows) ?_ (Watched.new_follows escapeLines promptLines) hproper hx
    intro w c w' hi hp hs
    cases hs
    exact Watched.call_follows hi c hp
  refine ⟨hengine, fun d hd => ?_, ?_⟩
  · obtain ⟨htilde, hcomplete, hlen⟩ := hf.departed d hd
    exact ⟨htilde, hlen, hcomplete⟩
  · rcases hf.passed with heq | ⟨pair, hpair, heq⟩
    · exact .inl heq
    · obtain ⟨enter, henter, hpaired⟩ := Option.bind_eq_some_iff.mp hpair
      exact .inr ⟨enter, pair, henter, hpaired, heq⟩

/-- `ls`, Enter, and a `~`. -/
theorem escape_arming_after_enter :
    ∃ w, exec (Watched.step fun _ => none) (.new [] []) [.typed [0x6c, 0x0d], .typed [0x7e]] = some w
      ∧ w.departures = [([.sent 0x6c, .sent 0x0d], 0x7e)] ∧ w.typed = [0x6c, 0x0d]
      ∧ Complete [0x6c, 0x0d] := by
  refine ⟨_, rfl, by decide +kernel, by decide +kernel, ?_⟩
  have h := (escape_arming (fun _ => none) [] [] [.typed [0x6c, 0x0d], .typed [0x7e]] _ ?_ rfl).2.1
    ([.sent 0x6c, .sent 0x0d], 0x7e) (by decide +kernel)
  · exact h.2.2
  refine ⟨⟨fun _ => ⟨fun hs => absurd hs (by decide +kernel), fun _ _ ht => absurd ht (by decide)⟩,
    fun _ => ⟨fun _ => ⟨fun hs => absurd hs (by decide +kernel), fun _ _ ht => absurd ht (by decide)⟩,
      fun _ => trivial⟩⟩, ?_⟩
  rintro w₁ ⟨⟩
  refine ⟨⟨fun _ => ⟨fun hs => absurd hs (by decide +kernel), fun _ _ _ => by decide +kernel⟩,
    fun _ => trivial⟩, fun _ _ => trivial⟩

/-- A Delete key on an empty line opens the escape line. And after `~c` and Enter, a Ctrl-C, the byte that
is typed next is lost if it is a line feed. -/
theorem escape_arming_fails :
    (∃ w, exec (Watched.step fun _ => none) (.new [] []) [.typed [0x1b, 0x5b, 0x33, 0x7e]] = some w
      ∧ w.departures = [([.sent 0x1b, .sent 0x5b, .sent 0x33], 0x7e)]
      ∧ ¬ Complete (Heard.stream [.sent 0x1b, .sent 0x5b, .sent 0x33]))
    ∧ ∃ w, exec (Watched.step fun _ => none) (.new [] [])
        [.typed [0x7e, 0x63, 0x0d], .typed [0x03], .typed [0x0a]] = some w
      ∧ w.typed = [0x0a] ∧ w.sent = [] ∧ w.ended = none := by
  refine ⟨⟨_, rfl, by decide +kernel, ?_⟩, ⟨_, rfl, by decide +kernel, by decide +kernel, by decide +kernel⟩⟩
  rw [← RemoteAnsiState.after_eq_none_iff]
  decide

end Proof

end Irosh
