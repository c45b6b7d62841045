import Irosh.Auth.Check

/-!
# The server loop

`Server::run` is a `select` over four channels. Everything else in the daemon
talks to it by sending on one of them:

* shutdown signals, one at a time;
* control requests, and the expiry messages of wormholes, on a channel of 32;
* success notices of pairing sessions, one at a time, each carried by a task of its
  own that waits for room;
* rate-limit notices of pairing sessions, one at a time, dropped when there is no
  room.

The loop in turn sends on the one-place `ipc_shutdown` channel, whose receiver
belongs to the IPC task, or to nobody when IPC is disabled.

A wormhole outlives its burning: pairing sessions captured its password, its flag
and its counter when they were accepted and go on using them. Wormholes therefore
sit in a heap, and `active` says which of them, if any, the loop holds.

A pairing session has one check under way at a time, on a blocking thread of its
own. `begin` starts one, and `advance` takes it one step further, while the loop
and the checks of other sessions go on.

Three things are ghosts. Messages carry the wormhole they were raised for, which
the source's do not; `pairings` records every key vaulted by a temp password;
`cleared` records every wormhole the loop cleared in answer to a message.
-/

namespace Irosh

open UnifiedAuthenticator

/-- `ActiveWormhole`, with the state of its expiry task. -/
structure Wormhole (H : Type) where
  password : Option H
  persistent : Bool
  failedAttempts : Nat
  success : Bool
  /-- The expiry task has neither sent its message nor been aborted. -/
  armed : Bool
  deriving DecidableEq, Repr

/-- A pairing connection: what it captured, and the state of its own authenticator. -/
structure PairingSession (K P : Type) where
  wid : Nat
  /-- The vault has been loaded and the authenticator built. -/
  ready : Bool
  keys : List K
  lastFailure : Option Nat
  cachedKey : Option K
  /-- The check under way, or the last one. -/
  check : Option (Check K P)
  deriving DecidableEq

/-- A connection that has just captured the wormhole. -/
def PairingSession.captured {K P : Type} (w : Nat) : PairingSession K P :=
  ⟨w, false, [], none, none, none⟩

/-- No check is under way. -/
def PairingSession.free {K P : Type} (p : PairingSession K P) : Bool :=
  match p.check with
  | none => true
  | some (.act _ []) => true
  | some _ => false

/-- `InternalCommand`. -/
inductive Request (H : Type) where
  | enableWormhole (password : Option H) (persistent : Bool)
  | disableWormhole
  | getStatus
  | shutdown
  deriving DecidableEq, Repr

/-- What arrives on the control channel. An expiry message is a `DisableWormhole` like any other. -/
inductive Control (H : Type) where
  | request (r : Request H)
  | expired (raisedBy : Nat)
  deriving DecidableEq, Repr

/-- Where the loop stands. -/
inductive LoopPc where
  /-- At the test at its head. -/
  | top
  | select
  /-- In `ipc_shutdown_tx.send(()).await`. -/
  | ipcSend
  /-- At the test at its end. -/
  | bottom
  /-- Behind the loop, waiting for sessions to finish. -/
  | draining
  | exited
  deriving DecidableEq, Repr

/-- Who holds `ipc_shutdown_rx`. -/
inductive IpcReceiver where
  | running
  | gone
  /-- IPC is disabled: the receiver lives as long as `run`, and nobody polls it. -/
  | unclaimed
  deriving DecidableEq, Repr

/-- A key vaulted by a temp password (ghost). -/
structure Pairing (K : Type) where
  wid : Nat
  key : K
  /-- The wormhole was the active one at that moment. -/
  live : Bool
  deriving DecidableEq, Repr

/-- The daemon. -/
structure Server (K H P : Type) where
  shutdownOnWormholeSuccess : Bool
  policy : HostKeyPolicy
  pc : LoopPc
  shutdownRequested : Bool
  activeSessions : Nat
  shutdownQ : Bool
  controlQ : List (Control H)
  successQ : Option Nat
  failureQ : Option Nat
  /-- Tasks waiting to send a success notice. -/
  notify : List Nat
  ipcQ : Bool
  ipcRx : IpcReceiver
  heap : List (Wormhole H)
  active : Option Nat
  sessions : List (PairingSession K P)
  dir : ClientsDir K
  shadow : Shadow H
  pairings : List (Pairing K)
  /-- Who raised the message, and which wormhole was cleared. -/
  cleared : List (Nat × Nat)
  deriving DecidableEq

/-- What can happen to the daemon. -/
inductive ServerEvent (K H P : Type) where
  /-- `ServerShutdown::close`. -/
  | signal
  | command (r : Request H)
  /-- A connection is accepted; a session guard is created. -/
  | connect
  /-- A session guard is dropped. -/
  | disconnect
  /-- A pairing connection captures the active wormhole. -/
  | pair
  /-- It loads the vault. -/
  | loadVault (i : Nat)
  /-- Session `i` is asked for a check. -/
  | begin (i : Nat) (asked : Asked K P)
  /-- Its check takes the next step. -/
  | advance (i now : Nat) (wr : Option StorageError)
  | disk (dir : ClientsDir K) (shadow : Shadow H)
  /-- A success notice finds room. -/
  | deliver (j : Nat)
  /-- An expiry task's day has passed. -/
  | expire (w : Nat)
  | ipcRecv
  | ipcFail
  | loopTest
  | recvShutdown
  | recvControl
  | recvSuccess
  | recvFailure
  /-- `ipc_shutdown_tx.send` completes. -/
  | ipcSent
  | drained

/-- `wh.expiry_task.abort()`. -/
def Wormhole.disarm {H : Type} (w : Wormhole H) : Wormhole H := { w with armed := false }

namespace Server

variable {K H P : Type}

/-- A daemon about to enter its loop. -/
def start (ipcEnabled shutdownOnWormholeSuccess : Bool) (policy : HostKeyPolicy)
    (dir : ClientsDir K) (shadow : Shadow H) : Server K H P where
  shutdownOnWormholeSuccess := shutdownOnWormholeSuccess
  policy := policy
  pc := .top
  shutdownRequested := false
  activeSessions := 0
  shutdownQ := false
  controlQ := []
  successQ := none
  failureQ := none
  notify := []
  ipcQ := false
  ipcRx := if ipcEnabled then .running else .unclaimed
  heap := []
  active := none
  sessions := []
  dir := dir
  shadow := shadow
  pairings := []
  cleared := []

/-! ## The active wormhole -/

/-- `wh_lock.take()` and the aborts after it. -/
def takeWormhole (s : Server K H P) : Server K H P :=
  match s.active with
  | none => s
  | some w => { s with heap := s.heap.modify w Wormhole.disarm, active := none }

/-- The same in answer to a message. -/
def clearFor (raisedBy : Nat) (s : Server K H P) : Server K H P :=
  match s.active with
  | none => s
  | some w => { s.takeWormhole with cleared := s.cleared ++ [(raisedBy, w)] }

/-- The wormhole `EnableWormhole` puts in place of the old one. -/
def enableWormhole (password : Option H) (persistent : Bool) (s : Server K H P) : Server K H P :=
  { s.takeWormhole with
    heap := s.takeWormhole.heap ++ [⟨password, persistent, 0, false, true⟩]
    active := some s.takeWormhole.heap.length }

/-! ## The branches of the `select` -/

/-- `shutdown_requested = true; ipc_shutdown_tx.send(()).await`. -/
def requestShutdown (s : Server K H P) : Server K H P :=
  { s with shutdownRequested := true, pc := .ipcSend }

def handleControl (s : Server K H P) : Control H → Server K H P
  | .request (.enableWormhole password persistent) =>
      { s.enableWormhole password persistent with pc := .bottom }
  | .request .disableWormhole => { s.takeWormhole with pc := .bottom }
  | .expired raisedBy => { s.clearFor raisedBy with pc := .bottom }
  | .request .getStatus => { s with pc := .bottom }
  | .request .shutdown => s.requestShutdown

def handleSuccess (raisedBy : Nat) (s : Server K H P) : Server K H P :=
  match s.active.bind (s.heap[·]?) with
  | none => { s with pc := .bottom }
  | some wh =>
      if wh.persistent then { s with pc := .bottom }
      else if s.shutdownOnWormholeSuccess then (s.clearFor raisedBy).requestShutdown
      else { s.clearFor raisedBy with pc := .bottom }

def handleFailure (raisedBy : Nat) (s : Server K H P) : Server K H P :=
  { s.clearFor raisedBy with pc := .bottom }

/-- `shutdown_requested && active_sessions.load() == 0`. -/
def mayExit (s : Server K H P) : Bool := s.shutdownRequested && s.activeSessions == 0

/-! ## Pairing sessions -/

/-- The authenticator of a pairing session: its own list and cache, the captured wormhole's password,
flag and counter. -/
def view (s : Server K H P) (p : PairingSession K P) (w : Wormhole H) : UnifiedAuthenticator K H where
  dir := s.dir
  shadow := s.shadow
  policy := s.policy
  authorizedKeys := p.keys
  tempPasswordHash := w.password
  successFlag := w.success
  failedAttempts := w.failedAttempts
  lastFailure := p.lastFailure
  cachedKey := p.cachedKey
  monitored := true
  notices := []

/-- The vault as a pairing connection loads it. -/
def loadKeys (dir : ClientsDir K) : List K :=
  match loadAllAuthorizedClients dir with
  | .ok vault => vault.map Prod.snd
  | .error _ => []

/-- A session that has just loaded the vault has the authenticator `SshProtocol::accept` builds. -/
theorem view_pairing (s : Server K H P) (wid : Nat) (w : Wormhole H) :
    s.view { PairingSession.captured wid with ready := true, keys := loadKeys s.dir } w
      = pairing s.dir s.shadow s.policy w.password w.success w.failedAttempts := by
  unfold view loadKeys pairing withTracking new
  cases loadAllAuthorizedClients s.dir with
  | ok vault => rfl
  | error e => rfl

/-- The daemon after the check of session `i` has worked on its view and come to `pc`. A success notice
gets a task of its own; a failure notice is dropped when there is no room. -/
def writeBack (s : Server K H P) (i : Nat) (p : PairingSession K P) (w : Wormhole H)
    (pc : Check K P) (a : UnifiedAuthenticator K H) : Server K H P :=
  { s with
    dir := a.dir
    heap := s.heap.set p.wid { w with success := a.successFlag, failedAttempts := a.failedAttempts }
    sessions := s.sessions.set i
      { p with keys := a.authorizedKeys, lastFailure := a.lastFailure, cachedKey := a.cachedKey,
               check := some pc }
    notify := s.notify ++ (a.notices.filter (· == .success)).map fun _ => p.wid
    failureQ := if Notice.failure ∈ a.notices ∧ s.failureQ = none then some p.wid else s.failureQ }

/-- Session `i`, if its authenticator is ready, and the wormhole it captured. -/
def sessionAt (s : Server K H P) (i : Nat) : Option (PairingSession K P × Wormhole H) :=
  match s.sessions[i]? with
  | some p => if p.ready then (s.heap[p.wid]?).map fun w => (p, w) else none
  | none => none

/-- Some session of wormhole `w` has written a key and has yet to raise the flag. -/
def flagPending (s : Server K H P) (w : Nat) : Bool :=
  s.sessions.any fun p => p.wid == w && p.check.any Check.raising

/-! ## What is under way -/

/-- The wormhole an expiry message was raised for. -/
def raisedBy : Control H → Option Nat
  | .request _ => none
  | .expired w => some w

/-- The wormholes for which a message is under way. -/
def inFlight (s : Server K H P) : List Nat :=
  s.notify ++ s.successQ.toList ++ s.failureQ.toList ++ s.controlQ.filterMap raisedBy

theorem mem_inFlight {s : Server K H P} {w : Nat} :
    w ∈ s.inFlight ↔ w ∈ s.notify ∨ s.successQ = some w ∨ s.failureQ = some w
      ∨ Control.expired w ∈ s.controlQ := by
  have hexp : w ∈ s.controlQ.filterMap raisedBy ↔ Control.expired w ∈ s.controlQ := by
    constructor
    · intro h
      obtain ⟨m, hm, hr⟩ := List.mem_filterMap.mp h
      cases m with
      | request r => cases hr
      | expired v => cases hr; exact hm
    · intro h
      exact List.mem_filterMap.mpr ⟨_, h, rfl⟩
  simp only [inFlight, List.mem_append, Option.mem_toList, hexp, or_assoc]

/-- Nothing happens to the wormholes, and no message is added. -/
structure Idle (s s' : Server K H P) : Prop where
  heap : s'.heap = s.heap
  active : s'.active = s.active
  pairings : s'.pairings = s.pairings
  cleared : s'.cleared = s.cleared
  pending : ∀ w, s.flagPending w = true → s'.flagPending w = true
  inFlight : ∀ w ∈ s'.inFlight, w ∈ s.inFlight

theorem Idle.refl (s : Server K H P) : Idle s s :=
  ⟨rfl, rfl, rfl, rfl, fun _ hw => hw, fun _ hw => hw⟩

/-- A step that only moves or drops messages. -/
theorem idle_of_messages {s : Server K H P} {notify : List Nat} {success failure : Option Nat}
    {control : List (Control H)} (hn : ∀ w ∈ notify, w ∈ s.inFlight)
    (hs : ∀ w, success = some w → w ∈ s.inFlight) (hf : ∀ w, failure = some w → w ∈ s.inFlight)
    (hc : ∀ w, Control.expired w ∈ control → w ∈ s.inFlight) :
    Idle s { s with
      notify := notify, successQ := success, failureQ := failure, controlQ := control } := by
  refine ⟨rfl, rfl, rfl, rfl, fun _ hw => hw, ?_⟩
  intro w hw
  rcases mem_inFlight.mp hw with h | h | h | h
  · exact hn w h
  · exact hs w h
  · exact hf w h
  · exact hc w h

section Messages

variable {s : Server K H P} {w : Nat}

theorem inFlight_notify (h : w ∈ s.notify) : w ∈ s.inFlight := mem_inFlight.mpr (.inl h)

theorem inFlight_successQ (h : s.successQ = some w) : w ∈ s.inFlight :=
  mem_inFlight.mpr (.inr (.inl h))

theorem inFlight_failureQ (h : s.failureQ = some w) : w ∈ s.inFlight :=
  mem_inFlight.mpr (.inr (.inr (.inl h)))

theorem inFlight_controlQ (h : Control.expired w ∈ s.controlQ) : w ∈ s.inFlight :=
  mem_inFlight.mpr (.inr (.inr (.inr h)))

/-- Taking a message off the control channel. -/
theorem idle_controlQ {m : Control H} {rest : List (Control H)} (hq : s.controlQ = m :: rest) :
    Idle s { s with controlQ := rest } :=
  idle_of_messages (fun _ => inFlight_notify) (fun _ => inFlight_successQ)
    (fun _ => inFlight_failureQ)
    (fun _ h => inFlight_controlQ (by rw [hq]; exact List.mem_cons_of_mem _ h))

theorem idle_successQ (s : Server K H P) : Idle s { s with successQ := none } :=
  idle_of_messages (fun _ => inFlight_notify) (fun _ h => by cases h)
    (fun _ => inFlight_failureQ) (fun _ => inFlight_controlQ)

theorem idle_failureQ (s : Server K H P) : Idle s { s with failureQ := none } :=
  idle_of_messages (fun _ => inFlight_notify) (fun _ => inFlight_successQ)
    (fun _ h => by cases h) (fun _ => inFlight_controlQ)

/-- A notice that finds room only changes place. -/
theorem idle_deliver {j : Nat} (hj : s.notify[j]? = some w) :
    Idle s { s with notify := s.notify.eraseIdx j, successQ := some w } :=
  idle_of_messages (fun _ h => inFlight_notify (List.mem_of_mem_eraseIdx h))
    (fun _ h => by cases h; exact inFlight_notify (List.mem_of_getElem? hj))
    (fun _ => inFlight_failureQ) (fun _ => inFlight_controlQ)

theorem idle_request (r : Request H) :
    Idle s { s with controlQ := s.controlQ ++ [.request r] } := by
  refine idle_of_messages (fun _ => inFlight_notify) (fun _ => inFlight_successQ)
    (fun _ => inFlight_failureQ) ?_
  intro v hv
  rcases List.mem_append.mp hv with h | h
  · exact inFlight_controlQ h
  · cases List.mem_singleton.mp h

end Messages

theorem flagPending_iff {s : Server K H P} {w : Nat} : s.flagPending w = true ↔
    ∃ (j : Nat) (p : PairingSession K P) (pc : Check K P), s.sessions[j]? = some p ∧ p.wid = w
      ∧ p.check = some pc ∧ pc.raising = true := by
  simp only [flagPending, List.any_eq_true, Bool.and_eq_true, beq_iff_eq, Option.any_eq_true]
  constructor
  · rintro ⟨p, hp, hw, pc, hc, hr⟩
    obtain ⟨j, hj⟩ := List.mem_iff_getElem?.mp hp
    exact ⟨j, p, pc, hj, hw, hc, hr⟩
  · rintro ⟨j, p, pc, hj, hw, hc, hr⟩
    exact ⟨p, List.mem_of_getElem? hj, hw, pc, hc, hr⟩

/-- A session that is replaced by `q` had no flag to raise, or `q` has. -/
theorem flagPending_set {s s' : Server K H P} {i : Nat} {p q : PairingSession K P}
    (hs : s'.sessions = s.sessions.set i q) (hi : s.sessions[i]? = some p)
    (hp : ∀ pc, p.check = some pc → pc.raising = true → q.wid = p.wid ∧ q.check = some pc) {w : Nat}
    (h : s.flagPending w = true) : s'.flagPending w = true := by
  rw [flagPending_iff] at h ⊢
  obtain ⟨j, r, pc, hj, hw, hc, hr⟩ := h
  by_cases hij : i = j
  · subst hij
    rw [hi] at hj
    cases hj
    obtain ⟨hqw, hqc⟩ := hp pc hc hr
    refine ⟨i, q, pc, ?_, hqw.trans hw, hqc, hr⟩
    rw [hs, List.getElem?_set_self (List.getElem?_eq_some_iff.mp hi).1]
  · exact ⟨j, r, pc, by rw [hs, List.getElem?_set_ne hij]; exact hj, hw, hc, hr⟩

theorem idle_loadVault {s : Server K H P} {i : Nat} {p : PairingSession K P} {keys : List K}
    (hi : s.sessions[i]? = some p) :
    Idle s { s with sessions := s.sessions.set i { p with ready := true, keys := keys } } := by
  refine ⟨rfl, rfl, rfl, rfl, fun _ hw => flagPending_set rfl hi ?_ hw, fun _ hw => hw⟩
  intro pc hc _
  exact ⟨rfl, hc⟩

/-- A session that has no check under way has no flag to raise. -/
theorem idle_begin {s : Server K H P} {i : Nat} {p : PairingSession K P} {asked : Asked K P}
    (hi : s.sessions[i]? = some p) (hf : p.free = true) :
    Idle s { s with sessions := s.sessions.set i { p with check := some (.lockout asked) } } := by
  refine ⟨rfl, rfl, rfl, rfl, fun _ hw => flagPending_set rfl hi ?_ hw, fun _ hw => hw⟩
  intro pc hc hr
  simp only [PairingSession.free, hc] at hf
  split at hf
  · simp_all
  · rename_i answer he
    cases he
    cases hr
  · cases hf

theorem sessionAt_eq_some {s : Server K H P} {i : Nat} {p : PairingSession K P} {w : Wormhole H}
    (h : s.sessionAt i = some (p, w)) : s.sessions[i]? = some p ∧ s.heap[p.wid]? = some w := by
  unfold sessionAt at h
  split at h
  · rename_i q hq
    split at h
    · obtain ⟨v, hv, he⟩ := Option.map_eq_some_iff.mp h
      cases he
      exact ⟨hq, hv⟩
    · cases h
  · cases h

/-- A check raises messages for its own wormhole only. -/
theorem mem_inFlight_writeBack {s : Server K H P} {i v : Nat} {p : PairingSession K P} {w : Wormhole H}
    {pc : Check K P} {a : UnifiedAuthenticator K H} (h : v ∈ (s.writeBack i p w pc a).inFlight) :
    v ∈ s.inFlight ∨ (v = p.wid ∧ a.notices ≠ []) := by
  rcases mem_inFlight.mp h with h | h | h | h
  · rcases List.mem_append.mp h with h | h
    · exact .inl (inFlight_notify h)
    · obtain ⟨n, hn, rfl⟩ := List.mem_map.mp h
      exact .inr ⟨rfl, List.ne_nil_of_mem (List.mem_filter.mp hn).1⟩
  · exact .inl (inFlight_successQ h)
  · simp only [writeBack] at h
    split at h
    · rename_i hr
      cases h
      exact .inr ⟨rfl, List.ne_nil_of_mem hr.1⟩
    · exact .inl (inFlight_failureQ h)
  · exact .inl (inFlight_controlQ h)

/-! ## Steps -/

variable [DecidableEq K]

/-- What each event does. -/
def step (c : Crypto K H P) (s : Server K H P) : ServerEvent K H P → Option (Server K H P)
  | .signal => if s.shutdownQ then none else some { s with shutdownQ := true }
  | .command r =>
      if s.controlQ.length < 32 then some { s with controlQ := s.controlQ ++ [.request r] } else none
  | .connect => some { s with activeSessions := s.activeSessions + 1 }
  | .disconnect =>
      if 0 < s.activeSessions then some { s with activeSessions := s.activeSessions - 1 } else none
  | .pair =>
      s.active.map fun w => { s with sessions := s.sessions ++ [.captured w] }
  | .loadVault i =>
      match s.sessions[i]? with
      | some p =>
          if p.ready then none
          else some { s with
            sessions := s.sessions.set i { p with ready := true, keys := loadKeys s.dir } }
      | none => none
  | .begin i asked =>
      match s.sessionAt i with
      | some (p, _) =>
          if p.free then some { s with
            sessions := s.sessions.set i { p with check := some (.lockout asked) } }
          else none
      | none => none
  | .advance i now wr =>
      match s.sessionAt i with
      | some (p, w) =>
          match p.check with
          | some pc =>
              -- the check works on the captured wormhole, active or not
              (stepCheck c now wr (s.view p w) pc).map fun r =>
                { s.writeBack i p w r.1 r.2 with
                  pairings := s.pairings ++ ((pc.vaults c now wr (s.view p w)).toList.map fun k =>
                    ⟨p.wid, k, decide (s.active = some p.wid)⟩) }
          | none => none
      | none => none
  | .disk dir shadow => some { s with dir := dir, shadow := shadow }
  | .deliver j =>
      -- the tasks wait for room in no particular order
      match s.notify[j]?, s.successQ with
      | some w, none => some { s with notify := s.notify.eraseIdx j, successQ := some w }
      | _, _ => none
  | .expire w =>
      match s.heap[w]? with
      | some wh =>
          -- `send` waits for room, so an expiry is never lost
          if wh.armed ∧ s.controlQ.length < 32 then
            some { s with
              heap := s.heap.modify w Wormhole.disarm, controlQ := s.controlQ ++ [.expired w] }
          else none
      | none => none
  | .ipcRecv =>
      if s.ipcRx = .running ∧ s.ipcQ then some { s with ipcQ := false, ipcRx := .gone } else none
  | .ipcFail => if s.ipcRx = .running then some { s with ipcRx := .gone } else none
  | .loopTest =>
      match s.pc with
      | .top => some { s with pc := if s.mayExit then .draining else .select }
      | .bottom => some { s with pc := if s.mayExit then .draining else .top }
      | _ => none
  | .recvShutdown =>
      if s.pc = .select ∧ s.shutdownQ then some { s with shutdownQ := false }.requestShutdown
      else none
  | .recvControl =>
      match s.pc, s.controlQ with
      | .select, m :: rest => some ({ s with controlQ := rest }.handleControl m)
      | _, _ => none
  | .recvSuccess =>
      match s.pc, s.successQ with
      | .select, some w => some ({ s with successQ := none }.handleSuccess w)
      | _, _ => none
  | .recvFailure =>
      match s.pc, s.failureQ with
      | .select, some w => some ({ s with failureQ := none }.handleFailure w)
      | _, _ => none
  | .ipcSent =>
      if s.pc = .ipcSend then
        -- a send to a dropped receiver fails at once, and the failure is ignored
        if s.ipcRx = .gone then some { s with pc := .bottom }
        else if s.ipcQ then none
        else some { s with ipcQ := true, pc := .bottom }
      else none
  | .drained =>
      if s.pc = .draining ∧ s.activeSessions = 0 then some { s.takeWormhole with pc := .exited }
      else none

/-! ## What an event does to the wormholes -/

/-- Everything an event can do to the wormholes. Where the loop takes a message off its channel
first, `s₁` is the state after that. -/
inductive Effect (c : Crypto K H P) (s : Server K H P) (e : ServerEvent K H P) :
    Server K H P → Prop where
  | idle (s' : Server K H P) (h : Idle s s') : Effect c s e s'
  | pairs (w : Nat) (hw : s.active = some w) :
      Effect c s e { s with sessions := s.sessions ++ [.captured w] }
  | expires (w : Nat) (wh : Wormhole H) (hw : s.heap[w]? = some wh) (ha : wh.armed = true) :
      Effect c s e { s with
        heap := s.heap.modify w Wormhole.disarm, controlQ := s.controlQ ++ [.expired w] }
  | checks (i now : Nat) (wr : Option StorageError) (p : PairingSession K P) (w : Wormhole H)
      (pc pc' : Check K P) (a : UnifiedAuthenticator K H) (he : e = .advance i now wr)
      (hi : s.sessionAt i = some (p, w)) (hc : p.check = some pc)
      (hs : stepCheck c now wr (s.view p w) pc = some (pc', a)) :
      Effect c s e { s.writeBack i p w pc' a with
        pairings := s.pairings ++ ((pc.vaults c now wr (s.view p w)).toList.map fun k =>
          ⟨p.wid, k, decide (s.active = some p.wid)⟩) }
  | enables (password : Option H) (persistent : Bool) (rest : List (Control H))
      (he : e = .recvControl)
      (hq : s.controlQ = .request (.enableWormhole password persistent) :: rest) :
      Effect c s e { { s with controlQ := rest }.enableWormhole password persistent with
        pc := .bottom }
  | takes (s₁ : Server K H P) (h : Idle s s₁) (pc : LoopPc) :
      Effect c s e { s₁.takeWormhole with pc := pc }
  | clears (w : Nat) (s₁ : Server K H P) (hw : w ∈ s.inFlight) (h : Idle s s₁) (pc : LoopPc)
      (requested : Bool) :
      Effect c s e { s₁.clearFor w with pc := pc, shutdownRequested := requested }

/-- The effect of a control message. -/
theorem handleControl_effect {c : Crypto K H P} {s : Server K H P} {m : Control H}
    {rest : List (Control H)} (hq : s.controlQ = m :: rest) :
    Effect c s .recvControl ({ s with controlQ := rest }.handleControl m) := by
  have hidle := idle_controlQ hq
  cases m with
  | expired w =>
      have hw : w ∈ s.inFlight := inFlight_controlQ (by rw [hq]; exact List.mem_cons_self)
      exact .clears w _ hw hidle .bottom _
  | request r =>
      cases r with
      | enableWormhole password persistent => exact .enables password persistent rest rfl hq
      | disableWormhole => exact .takes _ hidle .bottom
      | getStatus => exact .idle _ ⟨rfl, rfl, rfl, rfl, hidle.pending, hidle.inFlight⟩
      | shutdown => exact .idle _ ⟨rfl, rfl, rfl, rfl, hidle.pending, hidle.inFlight⟩

/-- The effect of a success notice. -/
theorem handleSuccess_effect {c : Crypto K H P} {s : Server K H P} {w : Nat}
    (hq : s.successQ = some w) :
    Effect c s .recvSuccess ({ s with successQ := none }.handleSuccess w) := by
  have hidle := idle_successQ s
  have hw : w ∈ s.inFlight := inFlight_successQ hq
  unfold handleSuccess
  split
  · exact .idle _ ⟨rfl, rfl, rfl, rfl, hidle.pending, hidle.inFlight⟩
  · split
    · exact .idle _ ⟨rfl, rfl, rfl, rfl, hidle.pending, hidle.inFlight⟩
    · split
      · exact .clears w _ hw hidle .ipcSend true
      · exact .clears w _ hw hidle .bottom _

/-- The effect of a rate-limit notice. -/
theorem handleFailure_effect {c : Crypto K H P} {s : Server K H P} {w : Nat}
    (hq : s.failureQ = some w) :
    Effect c s .recvFailure ({ s with failureQ := none }.handleFailure w) :=
  .clears w _ (inFlight_failureQ hq) (idle_failureQ s) .bottom _

/-- **Everything an event can do.** -/
theorem step_effect {c : Crypto K H P} {s s' : Server K H P} {e : ServerEvent K H P}
    (h : s.step c e = some s') : Effect c s e s' := by
  have hrefl := Idle.refl s
  have hsame : ∀ t : Server K H P, t.heap = s.heap → t.active = s.active →
      t.pairings = s.pairings → t.cleared = s.cleared → t.sessions = s.sessions →
      t.inFlight = s.inFlight → Effect c s e t := by
    intro t h1 h2 h3 h4 h5 h6
    refine .idle t ⟨h1, h2, h3, h4, ?_, by rw [h6]; exact hrefl.inFlight⟩
    intro w hw
    unfold flagPending at hw ⊢
    rw [h5]
    exact hw
  cases e with
  | signal =>
      simp only [step] at h
      split at h
      · cases h
      · cases h; exact hsame _ rfl rfl rfl rfl rfl rfl
  | command r =>
      simp only [step] at h
      split at h
      · cases h; exact .idle _ (idle_request r)
      · cases h
  | connect => cases h; exact hsame _ rfl rfl rfl rfl rfl rfl
  | disconnect =>
      simp only [step] at h
      split at h
      · cases h; exact hsame _ rfl rfl rfl rfl rfl rfl
      · cases h
  | pair =>
      simp only [step] at h
      obtain ⟨w, hw, rfl⟩ := Option.map_eq_some_iff.mp h
      exact .pairs w hw
  | loadVault i =>
      simp only [step] at h
      split at h
      · rename_i p hp
        split at h
        · cases h
        · cases h; exact .idle _ (idle_loadVault hp)
      · cases h
  | begin i asked =>
      simp only [step] at h
      split at h
      · rename_i p w hi
        split at h
        · rename_i hf
          cases h; exact .idle _ (idle_begin (sessionAt_eq_some hi).1 hf)
        · cases h
      · cases h
  | advance i now wr =>
      simp only [step] at h
      split at h
      · rename_i p w hi
        split at h
        · rename_i pc hc
          obtain ⟨⟨pc', a⟩, hr, rfl⟩ := Option.map_eq_some_iff.mp h
          exact .checks i now wr p w pc pc' a rfl hi hc hr
        · cases h
      · cases h
  | disk dir shadow => cases h; exact hsame _ rfl rfl rfl rfl rfl rfl
  | deliver j =>
      simp only [step] at h
      split at h
      · rename_i w hj _
        cases h; exact .idle _ (idle_deliver hj)
      · cases h
  | expire w =>
      simp only [step] at h
      split at h
      · rename_i wh hw
        split at h
        · rename_i ha
          cases h; exact .expires w wh hw ha.1
        · cases h
      · cases h
  | ipcRecv =>
      simp only [step] at h
      split at h
      · cases h; exact hsame _ rfl rfl rfl rfl rfl rfl
      · cases h
  | ipcFail =>
      simp only [step] at h
      split at h
      · cases h; exact hsame _ rfl rfl rfl rfl rfl rfl
      · cases h
  | loopTest =>
      simp only [step] at h
      split at h
      · cases h; exact hsame _ rfl rfl rfl rfl rfl rfl
      · cases h; exact hsame _ rfl rfl rfl rfl rfl rfl
      · cases h
  | recvShutdown =>
      simp only [step] at h
      split at h
      · cases h; exact hsame _ rfl rfl rfl rfl rfl rfl
      · cases h
  | recvControl =>
      simp only [step] at h
      split at h
      · rename_i m rest _ hq
        cases h; exact handleControl_effect hq
      · cases h
  | recvSuccess =>
      simp only [step] at h
      split at h
      · rename_i w _ hq
        cases h; exact handleSuccess_effect hq
      · cases h
  | recvFailure =>
      simp only [step] at h
      split at h
      · rename_i w _ hq
        cases h; exact handleFailure_effect hq
      · cases h
  | ipcSent =>
      simp only [step] at h
      split at h
      · split at h
        · cases h; exact hsame _ rfl rfl rfl rfl rfl rfl
        · split at h
          · cases h
          · cases h; exact hsame _ rfl rfl rfl rfl rfl rfl
      · cases h
  | drained =>
      simp only [step] at h
      split at h
      · cases h; exact .takes s hrefl .exited
      · cases h

end Server

end Irosh
