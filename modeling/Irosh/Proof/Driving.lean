import Irosh.Input.Drive
import Irosh.Proof.EditSession

/-!
# What driving a session shows of the remote's output

Every byte of the remote's output is on the terminal or held back, exactly once, and none
is written while a line is edited. The order is another matter: what is held is written
only after a help text or a local command, so that a line that is left in any other way,
by a Ctrl-C or with nothing left of it, leaves it behind, and later output overtakes it.

The engine goes through its own calls and nothing else, so that what holds after any calls
holds throughout.
-/

namespace Irosh

open Exec

/-! ## The engine -/

namespace InputEngine

variable {split : ShellWords} {e e₁ e₂ : InputEngine}

/-- Some calls lead there. -/
def Driven (split : ShellWords) (e e' : InputEngine) : Prop :=
  ∃ calls : List InputCall, e' = calls.foldl (call split) e

theorem Driven.refl (e : InputEngine) : Driven split e e := ⟨[], rfl⟩

theorem Driven.call (e : InputEngine) (c : InputCall) : Driven split e (e.call split c) := ⟨[c], rfl⟩

theorem Driven.trans (h : Driven split e e₁) (h' : Driven split e₁ e₂) : Driven split e e₂ := by
  obtain ⟨calls, rfl⟩ := h
  obtain ⟨calls', rfl⟩ := h'
  exact ⟨calls ++ calls', (List.foldl_append ..).symm⟩

theorem completeActiveLine_mode (e : InputEngine) (result : CompletionResult) :
    (e.completeActiveLine result).1.mode = e.mode := by
  unfold completeActiveLine
  cases e.activeLine with
  | none => rfl
  | some line =>
      cases result with
      | none => rfl
      | applied text cursor =>
          dsimp only
          split <;> rfl
      | suggestions found =>
          dsimp only
          split <;> rfl

end InputEngine

open InputEngine

/-- After this action what is held is written, if no line is edited. -/
def EscapeAction.flushes : EscapeAction → Bool
  | .help => true
  | .runLocal command => command != .disconnect
  | _ => false

namespace Driver

variable {α β : Type} {split : ShellWords} {d : Driver} {g : Screen}

/-- What a part of `drive_session` does, in terms of what has come and gone. -/
abbrev Does (g : Screen) (p : DriveProg α) (P : α → Screen → Prop) : Prop :=
  p.Tracks Screen.after (fun _ _ => True) P g

/-- An operation that the screen has no part in. -/
theorem Does.op {o : DriveOp} {k : o.Answer → DriveProg α} {P : α → Screen → Prop}
    (hsame : ∀ r, g.after o r = g) (hk : ∀ r, Does g (k r) P) : Does g (Prog.op o k) P := by
  refine ⟨trivial, fun r => ?_⟩
  rw [hsame r]
  exact hk r

/-- A part that has nothing to do with the screen, and what comes after it. -/
theorem Does.then {p : DriveProg α} {k : α → DriveProg β} {P : β → Screen → Prop}
    (hp : Does g p fun _ g' => g' = g) (hk : ∀ a, Does g (k a) P) : Does g (p >>= k) P := by
  refine Prog.Tracks.bind hp fun a g' hg => ?_
  rw [hg]
  exact hk a

theorem does_write {origin : Origin} (ho : origin ≠ .remote) (bytes : List UInt8) :
    Does g (DriveOp.write origin bytes) fun _ g' => g' = g := by
  cases origin with
  | remote => exact absurd rfl ho
  | engine => exact ⟨trivial, fun _ => rfl⟩
  | driver => exact ⟨trivial, fun _ => rfl⟩

theorem does_writeRemote (bytes : List UInt8) :
    Does g (DriveOp.write .remote bytes)
      fun ok g' => g' = if ok then { g with printed := g.printed ++ bytes } else g := by
  refine ⟨trivial, fun (ok : Bool) => ?_⟩
  cases ok <;> rfl

theorem does_send (bytes : List UInt8) : Does g (DriveOp.sendAll bytes) fun _ g' => g' = g :=
  ⟨trivial, fun _ => rfl⟩

theorem does_queryCpr : Does g queryCpr fun _ g' => g' = g := by
  refine Does.then (does_write (by decide) _) fun ok => ?_
  cases ok with
  | true => exact ⟨trivial, fun _ => rfl⟩
  | false => rfl

theorem does_cursorBefore (d : Driver) : Does g d.cursorBefore fun _ g' => g' = g := by
  unfold cursorBefore
  split
  · exact does_queryCpr
  · rfl

theorem does_writeLines (lines : List String) : Does g (writeLines lines) fun _ g' => g' = g := by
  induction lines with
  | nil => rfl
  | cons line rest ih =>
      refine Does.then (does_write (by decide) _) fun ok => ?_
      cases ok with
      | true => exact ih
      | false => rfl

theorem does_scrolled (d : Driver) (beforeRow lines : Nat) :
    Does g (d.scrolled beforeRow lines) fun _ g' => g' = g := by
  unfold scrolled
  split
  · have hrows : Does g DriveOp.rows fun _ g' => g' = g := ⟨trivial, fun _ => rfl⟩
    refine Does.then hrows fun rows => ?_
    split
    · exact does_send _
    · rfl
  · rfl

/-! ## An action -/

/-- What carrying out an action does to what is held: nothing, or all of it is written; and it is
written while no line is edited only. -/
structure Carried (split : ShellWords) (d : Driver) (g : Screen) (d' : Driver) (g' : Screen) : Prop where
  engine : Driven split d.engine d'.engine
  mode : d'.engine.mode = d.engine.mode
  queue : d'.queue = d.queue
  arrived : g'.arrived = g.arrived
  account : g'.printed ++ d'.held = g.printed ++ d.held
  quiet : d.engine.mode = .localEdit → g'.printed = g.printed
  emptied : d'.held = d.held ∨ d'.held = []

theorem Carried.refl (split : ShellWords) (d : Driver) (g : Screen) : Carried split d g d g :=
  ⟨.refl _, rfl, rfl, rfl, rfl, fun _ => rfl, .inl rfl⟩

/-- What an action comes to. Where it goes on, and the action is of that kind, nothing is held any
more. -/
def Acted (split : ShellWords) (d : Driver) (g : Screen) (action : EscapeAction)
    (a : Driver × Except Unit (Bool × Nat)) (g' : Screen) : Prop :=
  Carried split d g a.1 g'
    ∧ ∀ lines, a.2 = .ok (true, lines) → action.flushes = true → d.engine.mode = .remote → a.1.held = []

theorem does_flushHeld (d : Driver) :
    Does g d.flushHeld fun a g' =>
      Carried split d g a.1 g' ∧ (a.2 = true → d.engine.mode = .remote → a.1.held = []) := by
  unfold flushHeld
  by_cases hheld : d.engine.mode = .remote ∧ d.held ≠ []
  · rw [if_pos hheld]
    refine Prog.Tracks.bind (does_writeRemote d.held) fun ok g' hg => ?_
    rw [hg]
    cases ok with
    | true =>
        refine ⟨⟨.refl _, rfl, rfl, rfl, List.append_nil _, ?_, .inr rfl⟩, fun _ _ => rfl⟩
        intro hedit
        rw [hheld.1] at hedit
        cases hedit
    | false => exact ⟨.refl split d g, fun h => by cases h⟩
  · rw [if_neg hheld]
    refine ⟨.refl split d g, fun _ hmode => ?_⟩
    by_contra hne
    exact hheld ⟨hmode, hne⟩

theorem does_afterCommand (d : Driver) (lines : Nat) (action : EscapeAction) :
    Does g (d.afterCommand lines) (Acted split d g action) := by
  have hflush : Does g d.flushHeld fun a g' =>
      Carried split d g a.1 g' ∧ (a.2 = true → d.engine.mode = .remote → a.1.held = []) := does_flushHeld d
  refine Prog.Tracks.bind hflush ?_
  rintro ⟨d', ok⟩ g' ⟨hcarried, hempty⟩
  refine ⟨hcarried, fun lines' hok _ => hempty ?_⟩
  cases ok with
  | true => rfl
  | false => cases hok

/-- An action that does not touch what is held, and either ends things or may do so. -/
theorem acted_refl {action : EscapeAction} {r : Except Unit (Bool × Nat)}
    (h : ∀ lines, r = .ok (true, lines) → action.flushes = false) : Acted split d g action (d, r) g := by
  refine ⟨.refl split d g, fun lines hr hf => ?_⟩
  rw [h lines hr] at hf
  cases hf

theorem does_perform (d : Driver) (action : EscapeAction) :
    Does g (d.perform action) (Acted split d g action) := by
  cases action with
  | disconnect =>
      refine Does.then (does_write (by decide) _) fun ok => acted_refl fun _ _ => rfl
  | help =>
      refine Does.then (does_writeLines _) fun ok => ?_
      cases ok with
      | true => exact Does.then (does_write (by decide) _) fun _ => does_afterCommand d 11 _
      | false => exact acted_refl fun _ h => by cases h
  | commandPrompt => exact acted_refl fun _ _ => rfl
  | sendLiteral payload => exact Does.then (does_send _) fun ok => acted_refl fun _ _ => rfl
  | runLocal command =>
      refine Does.op (fun _ => rfl) ?_
      intro (printed : Option Nat)
      cases printed with
      | none => exact acted_refl fun _ h => by cases h
      | some lines =>
          show Does g (if command = .disconnect then _ else _) _
          split
          · exact acted_refl fun _ h => by cases h
          · exact does_afterCommand d lines _
  | requestCompletion =>
      unfold perform
      cases hl : d.engine.activeLine with
      | none => exact acted_refl fun _ _ => rfl
      | some line =>
          refine Does.op (fun _ => rfl) ?_
          intro (result : CompletionResult)
          have hacted (r : Except Unit (Bool × Nat)) : Acted split d g .requestCompletion
              ({ d with engine := (d.engine.completeActiveLine result).1 }, r) g := by
            refine ⟨⟨.call _ (.completed result), completeActiveLine_mode _ _, rfl, rfl, rfl, fun _ => rfl,
              .inl rfl⟩, fun _ _ hf => by cases hf⟩
          show Does g (if (d.engine.completeActiveLine result).2 = [] then _ else _) _
          split
          · exact hacted _
          · exact Does.then (does_write (by decide) _) fun ok => hacted _

theorem does_handleAction (d : Driver) (action : EscapeAction) :
    Does g (d.handleAction action) fun a g' =>
      Carried split d g a.1 g'
        ∧ ∀ swallowed, a.2 = .ok (true, swallowed) → action.flushes = true → d.engine.mode = .remote →
          a.1.held = [] := by
  refine Does.then (does_cursorBefore d) ?_
  rintro ⟨beforeRow, swallowed⟩
  have hperform : Does g (d.perform action) (Acted split d g action) := does_perform d action
  refine Prog.Tracks.bind hperform ?_
  rintro ⟨d', r⟩ g' ⟨hcarried, hempty⟩
  rcases r with ⟨⟨⟩⟩ | ⟨goOn, lines⟩
  · exact ⟨hcarried, fun _ h => by cases h⟩
  · cases goOn with
    | false => exact ⟨hcarried, fun _ h => by cases h⟩
    | true =>
        exact Does.then (does_scrolled _ _ _) fun ok => ⟨hcarried, fun _ _ => hempty lines rfl⟩

/-! ## A turn -/

/-- Some action in the queue will have what is held written. -/
def Busy (d : Driver) : Prop := ∃ action ∈ d.queue, action.flushes = true

/-- What a turn does. It ends well only after `disconnect`; it writes what is held while no line is
edited only; and unless it fails, what has come is on the terminal or held, and is overtaken only where
something is held and no line is edited. -/
structure Turned (split : ShellWords) (d : Driver) (g : Screen) (a : Driver × Ending) (g' : Screen) :
    Prop where
  engine : Driven split d.engine a.1.engine
  goodbye : ∀ reason, a.2 = some (.ok reason) → g'.disconnected = true
  quiet : d.engine.mode = .localEdit → g'.printed = g.printed
  account : a.2 ≠ some (.error ()) → ∃ new, g'.arrived = g.arrived ++ new
    ∧ (g'.printed ++ a.1.held = g.printed ++ d.held ++ new
      ∨ d.queue = [] ∧ d.engine.mode = .remote ∧ a.1.held = d.held ∧ g'.printed = g.printed ++ new)
  settled : a.2 = none → d.engine.mode = .remote → a.1.engine.mode = .remote → d.held = [] ∨ d.Busy →
    a.1.held = [] ∨ a.1.Busy

/-- What was typed is passed on: nothing that is held is touched, and the queue grows. -/
structure Typed (split : ShellWords) (d : Driver) (g : Screen) (a : Driver × Ending) (g' : Screen) :
    Prop where
  engine : Driven split d.engine a.1.engine
  held : a.1.held = d.held
  queue : ∃ actions, a.1.queue = d.queue ++ actions
  arrived : g'.arrived = g.arrived
  printed : g'.printed = g.printed
  goodbye : ∀ reason, a.2 = some (.ok reason) → g'.disconnected = true

theorem Typed.refl (split : ShellWords) (d : Driver) (g : Screen) : Typed split d g (d, none) g :=
  ⟨.refl _, rfl, ⟨[], (List.append_nil _).symm⟩, rfl, rfl, fun _ h => by cases h⟩

theorem does_finishRemoteClosed (d : Driver) :
    Does g d.finishRemoteClosed
      fun a g' => a = (d, some (.ok .remoteClosed)) ∧ g' = { g with disconnected := true } :=
  ⟨trivial, fun _ => ⟨rfl, rfl⟩⟩

theorem does_shown (d : Driver) (feedback : List UInt8) :
    Does g (d.shown feedback)
      fun a g' => a.1 = d ∧ (∀ reason, a.2 ≠ some (.ok reason)) ∧ g' = g := by
  unfold shown
  split
  · exact ⟨rfl, fun _ h => (by cases h), rfl⟩
  · refine Does.then (does_write (by decide) _) fun ok => ?_
    cases ok with
    | true => exact ⟨rfl, fun _ h => (by cases h), rfl⟩
    | false => exact ⟨rfl, fun _ h => (by cases h), rfl⟩

theorem does_typed (d : Driver) (data : List UInt8) : Does g (d.typed split data) (Typed split d g) := by
  unfold typed
  rcases hp : d.engine.processLocal split data with ⟨engine, out⟩
  have hengine : Driven split d.engine engine := by
    have h : Driven split d.engine (d.engine.call split (.typed data)) := .call d.engine (.typed data)
    rw [InputEngine.call, hp] at h
    exact h
  have hshown (g : Screen) : Does g
      (Driver.shown { d with engine := engine, queue := d.queue ++ out.actions } out.toLocal)
      (Typed split d g) := by
    refine (does_shown _ _).mono ?_
    rintro ⟨d', ending⟩ g' ⟨rfl, hend, rfl⟩
    exact ⟨hengine, rfl, ⟨_, rfl⟩, rfl, rfl, fun reason h => absurd h (hend reason)⟩
  dsimp only
  split
  · exact hshown g
  · refine Does.then (does_send _) fun ok => ?_
    cases ok with
    | true => exact hshown g
    | false =>
        refine (does_finishRemoteClosed _).mono ?_
        rintro a g' ⟨rfl, rfl⟩
        exact ⟨hengine, rfl, ⟨_, rfl⟩, rfl, rfl, fun _ _ => rfl⟩

theorem Busy.append {d d' : Driver} {actions : List EscapeAction} (h : d.Busy)
    (hq : d'.queue = d.queue ++ actions) : d'.Busy := by
  obtain ⟨action, hmem, hf⟩ := h
  exact ⟨action, hq ▸ List.mem_append_left _ hmem, hf⟩

/-- Where nothing has come and nothing was written. -/
theorem Typed.turned {a : Driver × Ending} {g' : Screen} (h : Typed split d g a g') :
    Turned split d g a g' := by
  refine ⟨h.engine, h.goodbye, fun _ => h.printed, fun _ => ⟨[], ?_, .inl ?_⟩, fun _ _ _ hcalm => ?_⟩
  · rw [h.arrived, List.append_nil]
  · rw [h.printed, h.held, List.append_nil]
  · rcases hcalm with hnone | hbusy
    · exact .inl (h.held.trans hnone)
    · obtain ⟨actions, hq⟩ := h.queue
      exact .inr (hbusy.append hq)

theorem does_onTerminal (d : Driver) (event : Option TerminalEvent) :
    Does g (d.onTerminal split event) (Turned split d g) := by
  rcases event with _ | ⟨bytes⟩ | _
  · refine Does.op (fun _ => rfl) fun _ => ⟨trivial, fun _ => ?_⟩
    exact Typed.turned ⟨.refl _, rfl, ⟨[], (List.append_nil _).symm⟩, rfl, rfl, fun _ _ => rfl⟩
  · exact (does_typed d bytes).mono fun _ _ => Typed.turned
  · have hturned : Turned split d g ({ d with engine := d.engine.handleResize.1 }, none) g :=
      Typed.turned ⟨.call _ .resized, rfl, ⟨[], (List.append_nil _).symm⟩, rfl, rfl, fun _ h => by cases h⟩
    have hresize : Does g DriveOp.resize.perform fun _ g' => g' = g := ⟨trivial, fun _ => rfl⟩
    unfold onTerminal
    rcases hr : d.engine.handleResize with ⟨engine, feedback⟩
    rw [hr] at hturned
    refine Does.then hresize fun _ => ?_
    cases feedback with
    | none => exact hturned
    | some bytes => exact Does.then (does_write (fun h => by cases h) bytes) fun _ => hturned

theorem not_busy (hq : d.queue = []) : ¬ d.Busy := by
  rintro ⟨action, hmem, -⟩
  rw [hq] at hmem
  cases hmem

/-- Output of the remote is held back or written at once. -/
theorem does_remoteData (hq : d.queue = []) (bytes : List UInt8) :
    Does { g with arrived := g.arrived ++ bytes } (d.onSession (.ok (some (.data bytes))))
      (Turned split d g) := by
  have hmode : (d.engine.observeRemote bytes).mode = d.engine.mode := (observeRemote_kept d.engine bytes).1
  have hengine : Driven split d.engine (d.engine.observeRemote bytes) := .call _ (.observed bytes)
  unfold onSession
  dsimp only
  rw [hmode]
  by_cases hedit : d.engine.mode = .localEdit
  · rw [if_pos hedit]
    refine ⟨hengine, fun _ h => (by cases h), fun _ => rfl, fun _ => ⟨bytes, rfl, .inl ?_⟩, fun _ hr => ?_⟩
    · exact (List.append_assoc _ _ _).symm
    · rw [hr] at hedit
      cases hedit
  · rw [if_neg hedit]
    refine Prog.Tracks.bind (does_writeRemote bytes) fun ok g' hg => ?_
    rw [hg]
    have hremote : d.engine.mode = .remote := by
      cases hm : d.engine.mode with
      | remote => rfl
      | localEdit => exact absurd hm hedit
    cases ok with
    | true =>
        refine ⟨hengine, fun _ h => (by cases h), fun h => absurd h hedit,
          fun _ => ⟨bytes, rfl, .inr ⟨hq, hremote, rfl, rfl⟩⟩, fun _ _ _ hcalm => ?_⟩
        exact .inl (hcalm.resolve_right (not_busy hq))
    | false =>
        exact ⟨hengine, fun _ h => (by cases h), fun _ => rfl, fun h => absurd rfl h, fun h => by cases h⟩

theorem does_onSession (hq : d.queue = []) (event : Except Unit (Option SessionEvent)) :
    Does (g.after .nextEvent (.session event)) (d.onSession event) (Turned split d g) := by
  have hclosed : Does g d.finishRemoteClosed (Turned split d g) := by
    refine (does_finishRemoteClosed d).mono ?_
    rintro a g' ⟨rfl, rfl⟩
    exact Typed.turned ⟨.refl _, rfl, ⟨[], (List.append_nil _).symm⟩, rfl, rfl, fun _ _ => rfl⟩
  rcases event with _ | _ | (bytes | bytes | _ | _)
  · exact hclosed
  · exact hclosed
  · exact does_remoteData hq bytes
  · have herr : Does g (DriveOp.writeErr bytes) fun _ g' => g' = g := ⟨trivial, fun _ => rfl⟩
    refine Does.then herr fun ok => ?_
    cases ok with
    | true => exact (Typed.refl split d g).turned
    | false =>
        exact ⟨.refl _, fun _ h => (by cases h), fun _ => rfl, fun h => absurd rfl h, fun h => by cases h⟩
  · exact hclosed
  · exact (Typed.refl split d g).turned

theorem does_afterAction {d' : Driver} {g' : Screen} {rest : List EscapeAction} {action : EscapeAction}
    (hq : d.queue = action :: rest) (hcarried : Carried split { d with queue := rest } g d' g')
    (r : Except Unit (Bool × List UInt8))
    (hempty : ∀ swallowed, r = .ok (true, swallowed) → action.flushes = true →
      d.engine.mode = .remote → d'.held = []) :
    Does g' (d'.afterAction split r) (Turned split d g) := by
  have hbefore {a : Driver × Ending} {g₂ : Screen} (ht : Typed split d' g' a g₂)
      (hgo : a.2 = none → action.flushes = true → d.engine.mode = .remote → d'.held = []) :
      Turned split d g a g₂ := by
    refine ⟨hcarried.engine.trans ht.engine, ht.goodbye, fun hedit => ht.printed.trans (hcarried.quiet hedit),
      fun _ => ⟨[], ?_, .inl ?_⟩, fun hnone hmode _ hcalm => ?_⟩
    · rw [ht.arrived, hcarried.arrived, List.append_nil]
    · rw [ht.printed, ht.held, hcarried.account, List.append_nil]
    · rcases hcalm with hheld | ⟨next, hmem, hf⟩
      · refine .inl ?_
        rcases hcarried.emptied with h | h
        · rw [ht.held, h]
          exact hheld
        · rw [ht.held, h]
      · rw [hq] at hmem
        rcases List.mem_cons.mp hmem with rfl | hmem
        · exact .inl (ht.held.trans (hgo hnone hf hmode))
        · obtain ⟨actions, hq'⟩ := ht.queue
          refine .inr ⟨next, ?_, hf⟩
          rw [hq', hcarried.queue]
          exact List.mem_append_left _ hmem
  have hfailed : Turned split d g (d', some (.error ())) g' := by
    refine ⟨hcarried.engine, fun _ h => (by cases h), hcarried.quiet, fun h => absurd rfl h,
      fun h => by cases h⟩
  rcases r with ⟨⟨⟩⟩ | ⟨goOn, swallowed⟩
  · exact hfailed
  · have hreprocess : Does g' (d'.reprocess split swallowed) (Typed split d' g') := by
      unfold reprocess
      split
      · exact Typed.refl split d' g'
      · exact does_typed d' swallowed
    refine Prog.Tracks.bind hreprocess ?_
    rintro ⟨d₂, ending⟩ g₂ ht
    cases ending with
    | some ending => exact hbefore ht fun h => by cases h
    | none =>
        cases goOn with
        | true => exact hbefore ht fun _ => hempty swallowed rfl
        | false =>
            refine ⟨trivial, fun _ => hbefore (a := (d₂, some (.ok .userInitiated))) ?_ fun h => by cases h⟩
            exact ⟨ht.engine, ht.held, ht.queue, ht.arrived, ht.printed, fun _ _ => rfl⟩

/-- **What a turn does.** -/
theorem does_turn (d : Driver) : Does g (d.turn split) (Turned split d g) := by
  unfold turn
  cases hq : d.queue with
  | nil =>
      refine ⟨trivial, fun (event : DriveEvent) => ?_⟩
      cases event with
      | terminal event => exact does_onTerminal d event
      | session event => exact does_onSession hq event
  | cons action rest =>
      have haction : Does g (Driver.handleAction { d with queue := rest } action) fun a g' =>
          Carried split { d with queue := rest } g a.1 g'
            ∧ ∀ swallowed, a.2 = .ok (true, swallowed) → action.flushes = true → d.engine.mode = .remote →
              a.1.held = [] := does_handleAction _ action
      refine Prog.Tracks.bind haction ?_
      rintro ⟨d', r⟩ g' ⟨hcarried, hempty⟩
      exact does_afterAction hq hcarried r hempty

end Driver

/-! ## Runs -/

namespace Drive

variable {split : ShellWords} {s s' : Drive} {answers : Surroundings}

/-- What one more turn does. -/
theorem step_turned (h : s.step split answers = some s') :
    s.ending = none ∧ s.driver.Turned split s.screen (s'.driver, s'.ending) s'.screen := by
  unfold step at h
  split at h
  · rename_i hend
    refine ⟨hend, ?_⟩
    cases h
    have hturn : Driver.Does s.screen (s.driver.turn split) (s.driver.Turned split s.screen) :=
      s.driver.does_turn
    exact hturn.outcome 0
  · cases h

/-- Where editing a line ends in this turn, nothing is held, or something in the queue will have it
written. -/
def LeftByCommand (split : ShellWords) (s : Drive) (answers : Surroundings) : Prop :=
  ∀ s', s.step split answers = some s' → s'.ending = none → s.driver.engine.mode = .localEdit →
    s'.driver.engine.mode = .remote → s'.driver.held = [] ∨ s'.driver.Busy

/-- What every turn keeps. -/
structure Accounted (split : ShellWords) (e : InputEngine) (s : Drive) : Prop where
  engine : Driven split e s.driver.engine
  goodbye : ∀ reason, s.ending = some (.ok reason) → s.screen.disconnected = true
  account : s.ending ≠ some (.error ()) → (s.screen.printed ++ s.driver.held).Perm s.screen.arrived

theorem Accounted.step {e : InputEngine} (h : Accounted split e s) (hs : s.step split answers = some s') :
    Accounted split e s' := by
  obtain ⟨hend, hturned⟩ := step_turned hs
  refine ⟨h.engine.trans hturned.engine, hturned.goodbye, fun herr => ?_⟩
  have hbefore : (s.screen.printed ++ s.driver.held).Perm s.screen.arrived :=
    h.account fun hfail => by rw [hend] at hfail; cases hfail
  obtain ⟨new, harrived, hin | ⟨-, -, hheld, hprinted⟩⟩ := hturned.account herr
  · rw [harrived, hin]
    exact hbefore.append_right new
  · dsimp only at hheld
    rw [harrived, hprinted, hheld, List.append_assoc]
    refine List.Perm.trans ?_ (hbefore.append_right new)
    rw [List.append_assoc]
    exact List.perm_append_comm.append_left s.screen.printed

/-- What is kept as well where every line is left by a command. -/
structure InOrder (s : Drive) : Prop where
  account : s.ending ≠ some (.error ()) → s.screen.printed ++ s.driver.held = s.screen.arrived
  calm : s.ending = none → s.driver.engine.mode = .remote → s.driver.held = [] ∨ s.driver.Busy

theorem InOrder.step (h : s.InOrder) (hleft : s.LeftByCommand split answers)
    (hs : s.step split answers = some s') : s'.InOrder := by
  obtain ⟨hend, hturned⟩ := step_turned hs
  have hbefore : s.screen.printed ++ s.driver.held = s.screen.arrived :=
    h.account fun hfail => by rw [hend] at hfail; cases hfail
  refine ⟨fun herr => ?_, fun hnone hremote => ?_⟩
  · obtain ⟨new, harrived, hin | ⟨hq, hremote, hheld, hprinted⟩⟩ := hturned.account herr
    · rw [harrived, ← hbefore]
      exact hin
    · -- output is written at once, with nothing held that it could overtake
      have hnothing : s.driver.held = [] := (h.calm hend hremote).resolve_right (Driver.not_busy hq)
      dsimp only at hheld
      rw [hprinted, hheld, hnothing, harrived, ← hbefore, hnothing, List.append_nil, List.append_nil]
  · cases hmode : s.driver.engine.mode with
    | remote => exact hturned.settled hnone hmode hremote (h.calm hend hmode)
    | localEdit => exact hleft s' hs hnone hmode hremote

/-- The first operation of a turn is answered with this event, and every other one well. -/
def answering (event : DriveEvent) : Surroundings := fun _ o =>
  match o with
  | .nextEvent => event
  | .send _ | .stdout _ _ | .stderr _ => true
  | .resize | .eof | .disconnect => ()
  | .complete _ => .none
  | .localCommand _ => some 1
  | .readReport => []
  | .terminalRows => (24 : Nat)

end Drive

namespace Proof

open Drive

/-- Whatever is typed, arrives and fails while `drive_session` runs: the engine goes through calls of its
own only, the loop ends well only after `disconnect`, and of the remote's output every byte that has come
is on the terminal or held back, exactly once. If every line is left by a command, it is there in the order
in which it came, and nothing is held back while no line is edited and nothing is left to do. No turn
writes any of it while a line is edited. -/
theorem drive_session_output (split : ShellWords) (escapeLines promptLines : List (List Char))
    (remoteIsWindows : Bool) (turns : List Surroundings) (s : Drive)
    (hx : exec (Drive.step split) (.start (.new escapeLines promptLines) remoteIsWindows) turns = some s) :
    (∃ calls, s.driver.engine = afterCalls split escapeLines promptLines calls)
      ∧ (∀ reason, s.ending = some (.ok reason) → s.screen.disconnected = true)
      ∧ (s.ending ≠ some (.error ()) → (s.screen.printed ++ s.driver.held).Perm s.screen.arrived)
      ∧ (Meets (Drive.step split) (LeftByCommand split)
            (.start (.new escapeLines promptLines) remoteIsWindows) turns →
          (s.ending ≠ some (.error ()) → s.screen.printed ++ s.driver.held = s.screen.arrived)
            ∧ (s.ending = none → s.driver.queue = [] → s.driver.engine.mode = .remote →
              s.screen.printed = s.screen.arrived))
      ∧ ∀ answers s', s.step split answers = some s' → s.driver.engine.mode = .localEdit →
          s'.screen.printed = s.screen.printed := by
  have hall : s.Accounted split (.new escapeLines promptLines) := by
    refine exec_invariant_all (fun _ _ _ h hs => Accounted.step h hs) ?_ hx
    exact ⟨.refl _, fun _ h => (by cases h), fun _ => List.Perm.refl _⟩
  refine ⟨hall.engine, hall.goodbye, hall.account, fun hleft => ?_,
    fun answers s' hs => (step_turned hs).2.quiet⟩
  have horder : s.InOrder := by
    refine exec_invariant (fun _ _ _ h hg hs => InOrder.step h hg hs) ?_ hleft hx
    exact ⟨fun _ => rfl, fun _ _ => .inl rfl⟩
  refine ⟨horder.account, fun hnone hq hremote => ?_⟩
  have hnothing : s.driver.held = [] := (horder.calm hnone hremote).resolve_right (Driver.not_busy hq)
  have hprinted := horder.account fun h => by rw [hnone] at h; cases h
  rw [hnothing, List.append_nil] at hprinted
  exact hprinted

/-- `~`, output of the remote, `?` and Enter, and what comes of it. -/
theorem drive_session_output_help :
    ∃ s, exec (Drive.step fun _ => none) (.start (.new [] []) false)
        [answering (.terminal (some (.data [0x7e]))), answering (.session (.ok (some (.data [0x61, 0x62])))),
          answering (.terminal (some (.data [0x3f, 0x0d]))), answering (.terminal none)] = some s
      ∧ s.screen.arrived = [0x61, 0x62] ∧ s.screen.printed = s.screen.arrived := by
  refine ⟨_, rfl, rfl, ?_⟩
  have hleft : Meets (Drive.step fun _ => none) (LeftByCommand fun _ => none) (.start (.new [] []) false)
      [answering (.terminal (some (.data [0x7e]))), answering (.session (.ok (some (.data [0x61, 0x62])))),
        answering (.terminal (some (.data [0x3f, 0x0d]))), answering (.terminal none)] := by
    refine ⟨?_, ?_⟩
    · rintro s' ⟨⟩ - h
      cases h
    rintro s₁ ⟨⟩
    refine ⟨?_, ?_⟩
    · rintro s' ⟨⟩ - - h
      cases h
    rintro s₂ ⟨⟩
    refine ⟨?_, ?_⟩
    · -- Enter leaves the line with the help to be shown
      rintro s' ⟨⟩ - - -
      exact .inr ⟨.help, List.mem_singleton.mpr rfl, rfl⟩
    rintro s₃ ⟨⟩
    refine ⟨?_, fun _ _ => trivial⟩
    rintro s' ⟨⟩ - h
    cases h
  exact ((drive_session_output (fun _ => none) [] [] false _ _ rfl).2.2.2.1 hleft).2 rfl rfl rfl

end Proof

end Irosh
