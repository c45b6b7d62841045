import Irosh.Lib.Exec
import Irosh.Server.Channels

/-!
# The table of channels

Which channels have an entry, beside which channels the client has opened. Every request but
one looks its channel up; `start_command` makes an entry for whatever channel it is asked for.
-/

namespace Irosh.Proof

open Irosh Function ServerHandler

/-! ## What each request does to the table -/

/-- Whether a channel has an entry. -/
def Listed (h : ServerHandler) (channel : ChannelId) : Prop := (h.channels channel).isSome

section Table

variable {h : ServerHandler} {channel other : ChannelId}

theorem listed_orDefault : Listed (h.orDefault channel) other ↔ other = channel ∨ Listed h other := by
  unfold Listed orDefault
  by_cases heq : other = channel
  · simp [heq]
  · simp [heq]

theorem listed_modifyChannel (f : ChannelState → ChannelState) :
    Listed (h.modifyChannel channel f) other ↔ Listed h other := by
  unfold Listed modifyChannel
  by_cases heq : other = channel
  · simp [heq]
  · simp [update_of_ne heq]

theorem listed_removeChannel :
    Listed (h.removeChannel channel) other ↔ other ≠ channel ∧ Listed h other := by
  unfold Listed removeChannel
  by_cases heq : other = channel
  · simp [heq]
  · simp [heq]

theorem listed_superviseChild (sys : Spawning) (child : Child) :
    Listed (superviseChild sys channel child h).1 other ↔ Listed h other := by
  have hset : Listed (h.setProcess channel child) other ↔ Listed h other :=
    listed_modifyChannel _
  have hdrop : Listed (h.dropTerminal sys child) other ↔ Listed h other := by
    unfold Listed dropTerminal
    split <;> exact Iff.rfl
  unfold superviseChild
  cases sys.cloneReader with
  | error e => exact hdrop
  | ok u =>
    cases sys.takeWriter with
    | error e => exact hdrop
    | ok u =>
      cases sys.spawnWriter with
      | error e => exact hdrop
      | ok u =>
        cases sys.confirm with
        | error e => exact hset
        | ok u => exact hset

theorem listed_registered (command : Option String) (child : Child) :
    Listed (h.registered command child) other ↔ Listed h other := by
  unfold Listed registered
  by_cases hshell : command.isNone = true
  · simp [hshell, setShellPid]
  · simp [hshell]

/-- However it ends, `start_command` leaves an entry for its channel. -/
theorem listed_startCommand (sys : Spawning) (command : Option String) :
    Listed (startCommand sys channel command h).1 other ↔ other = channel ∨ Listed h other := by
  obtain ⟨child, -, heq⟩ | ⟨-, heq⟩ := startCommand_eq sys channel command h
  · rw [heq, listed_superviseChild, listed_registered, listed_orDefault]
  · rw [heq, listed_orDefault]

theorem listed_onChannel (f : ChannelState → ChannelState) (sent : Except String Unit) :
    Listed (onChannel channel f sent h).1 other ↔ Listed h other := by
  unfold onChannel
  split
  · exact Iff.rfl
  · exact listed_modifyChannel f

theorem listed_closeChannel :
    Listed (closeChannel channel h) other ↔ other ≠ channel ∧ Listed h other := by
  have hremove := @listed_removeChannel h channel other
  unfold closeChannel
  split
  · exact hremove
  · simp only [Listed, clearShellPidIfMatches_channels] at hremove ⊢
    exact hremove

theorem listed_cleanup (t : ReaderTask) (exited : Bool) :
    Listed (cleanup t exited h) other ↔ other ≠ t.channel ∧ Listed h other := by
  have hremove := @listed_removeChannel h t.channel other
  simp only [Listed, cleanup, removeChannel, clearShellPidIfMatches_channels] at hremove ⊢
  exact hremove

end Table

/-! ## Runs -/

/-- A connection and the channels the client has open: opened by `channel_open_session`, and
neither closed nor cleaned up since. -/
structure OpenLog where
  handler : ServerHandler
  opened : ChannelId → Bool

/-- What an event says about the open channels. -/
def openedAfter (opened : ChannelId → Bool) : ChannelEvent → ChannelId → Bool
  | .openSession channel => update opened channel true
  | .close channel => update opened channel false
  | .sweep channel => update opened channel false
  | .taskEnds t _ => update opened t.channel false
  | _ => opened

def OpenLog.step (w : OpenLog) (e : ChannelEvent) : Option OpenLog :=
  (w.handler.step e).map fun handler => ⟨handler, openedAfter w.opened e⟩

def OpenLog.new (fallback : PtySize) : OpenLog := ⟨ServerHandler.new fallback, fun _ => false⟩

/-- Only open channels have an entry. -/
def OpenLog.OnlyOpened (w : OpenLog) : Prop :=
  ∀ channel, Listed w.handler channel → w.opened channel = true

/-- A shell or a command is asked for on an open channel only. -/
def OpenLog.StartsOnOpen (w : OpenLog) : ChannelEvent → Prop
  | .shell channel _ => w.opened channel = true
  | .exec channel _ _ => w.opened channel = true
  | _ => True

/-- The invariant: the table lists exactly the open channels. -/
def OpenLog.Agrees (w : OpenLog) : Prop :=
  ∀ channel, Listed w.handler channel ↔ w.opened channel = true

theorem opened_update_true {opened : ChannelId → Bool} {channel other : ChannelId} :
    update opened channel true other = true ↔ other = channel ∨ opened other = true := by
  by_cases heq : other = channel
  · simp [heq]
  · simp [heq]

theorem opened_update_false {opened : ChannelId → Bool} {channel other : ChannelId} :
    update opened channel false other = true ↔ other ≠ channel ∧ opened other = true := by
  by_cases heq : other = channel
  · simp [heq]
  · simp [heq]

/-- A start on an open channel adds no entry. -/
theorem agrees_startCommand {w : OpenLog} (hw : w.Agrees) {channel : ChannelId}
    (hopen : w.opened channel = true) (sys : Spawning) (command : Option String)
    (other : ChannelId) :
    Listed (startCommand sys channel command w.handler).1 other ↔ w.opened other = true := by
  have hlisted : Listed w.handler channel := (hw channel).mpr hopen
  rw [listed_startCommand, ← hw other]
  constructor
  · rintro (heq | h)
    · exact heq ▸ hlisted
    · exact h
  · exact Or.inr

theorem agrees_step {w w' : OpenLog} {e : ChannelEvent} (hw : w.Agrees) (hg : w.StartsOnOpen e)
    (hs : w.step e = some w') : w'.Agrees := by
  obtain ⟨handler, hstep, hw'⟩ := Option.map_eq_some_iff.mp hs
  subst hw'
  intro other
  cases e with
  | openSession channel =>
    cases hstep
    exact listed_orDefault.trans ((or_congr_right (hw other)).trans opened_update_true.symm)
  | openDirectTcpip channel =>
    cases hstep
    exact hw other
  | pty channel term c r w p modes sent =>
    cases hstep
    exact (listed_onChannel _ _).trans (hw other)
  | env channel name value sent =>
    cases hstep
    exact (listed_onChannel _ _).trans (hw other)
  | windowChange channel c r w p sent =>
    cases hstep
    exact (listed_onChannel _ _).trans (hw other)
  | shell channel sys =>
    cases hstep
    exact agrees_startCommand hw hg sys none other
  | exec channel command sys =>
    cases hstep
    exact agrees_startCommand hw hg sys (some command) other
  | data channel bytes =>
    cases hstep
    exact hw other
  | signal channel =>
    cases hstep
    exact hw other
  | eof channel =>
    cases hstep
    exact (listed_modifyChannel _).trans (hw other)
  | close channel =>
    cases hstep
    exact listed_closeChannel.trans ((and_congr_right fun _ => hw other).trans
      opened_update_false.symm)
  | taskEnds t exited =>
    simp only [ServerHandler.step] at hstep
    split at hstep
    · cases hstep
      exact (listed_cleanup t exited).trans ((and_congr_right fun _ => hw other).trans
        opened_update_false.symm)
    · cases hstep
  | sweep channel =>
    cases hstep
    exact listed_closeChannel.trans ((and_congr_right fun _ => hw other).trans
      opened_update_false.symm)

/-- A start on a channel that is not open lists it. -/
theorem start_lists {w : OpenLog} {e : ChannelEvent} (hg : ¬ w.StartsOnOpen e) :
    ∃ w', w.step e = some w' ∧ ¬ w'.OnlyOpened := by
  have hout : ∀ channel sys command, ¬ w.opened channel = true →
      ¬ (⟨(startCommand sys channel command w.handler).1, w.opened⟩ : OpenLog).OnlyOpened := by
    intro channel sys command hclosed honly
    have hlisted : Listed (startCommand sys channel command w.handler).1 channel :=
      (listed_startCommand sys command).mpr (.inl rfl)
    exact hclosed (honly channel hlisted)
  cases e with
  | shell channel sys => exact ⟨_, rfl, hout channel sys none hg⟩
  | exec channel command sys => exact ⟨_, rfl, hout channel sys (some command) hg⟩
  | _ => exact absurd trivial hg

/--
**The table of channels.**

In a run of any requests on any channels, with any of them failing, the table lists only
open channels in every state reached iff a shell or a command is asked for on open channels
only.
-/
theorem channel_table_iff (fallback : PtySize) (es : List ChannelEvent) :
    Exec.Throughout OpenLog.step OpenLog.OnlyOpened (OpenLog.new fallback) es ↔
      Exec.Meets OpenLog.step OpenLog.StartsOnOpen (OpenLog.new fallback) es := by
  have hstart : (OpenLog.new fallback).Agrees := by
    intro channel
    simp [Listed, OpenLog.new, ServerHandler.new]
  exact Exec.throughout_iff_meets (I := OpenLog.Agrees) (H := fun _ _ => True)
    (fun w hw channel hlisted => (hw channel).mp hlisted)
    (fun w e w' hw _ hg hs => agrees_step hw hg hs)
    (fun w e _ _ hg => start_lists hg) hstart (Exec.meets_of_forall_mem fun _ _ _ => trivial)

/-- A system that answers every call but the first. -/
def refusing : Spawning where
  reject := .ok ()
  openpty _ := .error "no terminal"
  spawn _ := .error "no process"
  cloneReader := .ok ()
  takeWriter := .ok ()
  spawnWriter := .ok ()
  confirm := .ok ()
  hangsUp := true

/-- A shell asked for on a channel that was never opened, where not even a terminal is opened. -/
theorem phantom_channel :
    ¬ ∀ es : List ChannelEvent,
      Exec.Throughout OpenLog.step OpenLog.OnlyOpened (OpenLog.new ⟨24, 80, 0, 0⟩) es := by
  intro hall
  have honly := (hall [.shell 7 refusing]).2 _ rfl
  have hclosed := honly 7 ((listed_startCommand refusing none).mpr (.inl rfl))
  exact Bool.noConfusion hclosed

end Irosh.Proof
