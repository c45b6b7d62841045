import Irosh.Client.Connect
import Irosh.Lib.Exec

/-!
# A client session

A `Session` keeps the primary channel behind a lock and the transport beside it. Calls
that take `&self` may overlap, those that take `&mut self` may not, and any call may be
given up while it waits.

`ensure_channel` does not hold the lock while a channel is being opened. Several calls
may open one each; the first to come back installs its own, and the others use that and
let theirs go.

`disconnect` takes the channel first. Where saying goodbye fails it returns with the
transport still open, and may be called again.
-/

namespace Irosh

/-- What is asked of the primary channel. -/
inductive ChannelRequest where
  | requestPty
  | requestShell
  | exec (command : List Char)
  | data (bytes : List UInt8)
  | eof
  | windowChange
  deriving DecidableEq, Repr

/-- The requests whose methods take `&mut self`. -/
def ChannelRequest.exclusive : ChannelRequest → Bool
  | .requestShell | .exec _ => true
  | _ => false

/-- Where a call stands that is past `check_open`. -/
inductive CallPc (C : Type) where
  /-- About to look for a channel. -/
  | checked
  /-- Waiting for `channel_open_session`. -/
  | opening
  /-- With a channel of its own, about to take the lock again. -/
  | opened (channel : C)
  /-- With the lock, and a channel behind it. -/
  | holding
  deriving DecidableEq

/-- Where `disconnect` waits. -/
inductive DisconnectPc where
  | closingChannel
  | sayingGoodbye
  | closingEndpoint
  deriving DecidableEq, Repr

/-- How making a request ends. -/
inductive RequestEnd where
  | done
  /-- It has failed, or was given up, with the request on its way or not. -/
  | cut (sent : Bool)
  deriving DecidableEq, Repr

def RequestEnd.sent : RequestEnd → Bool
  | .done => true
  | .cut sent => sent

/-- What is closed of the transport. -/
inductive Transport where
  | connection
  | blobsConnection
  | endpoint
  deriving DecidableEq, Repr

/-- A session, with the calls that are under way. -/
structure LiveSession (C : Type) where
  state : SessionState
  channel : Option C
  connection : Bool
  blobsConnection : Bool
  endpoint : Bool
  calls : List (ChannelRequest × CallPc C)
  disconnecting : Option DisconnectPc
  /-- Every request that has reached a channel, with how often a channel had been taken before
  (ghost). -/
  reached : List (Nat × C × ChannelRequest)
  /-- How often the channel has been taken (ghost). -/
  taken : Nat
  /-- What has been closed (ghost). -/
  closings : List Transport
  /-- Some `disconnect` has returned `Ok` (ghost). -/
  finished : Bool
  deriving DecidableEq

/-- What can happen to a session. Calls are named by their place among those under way. -/
inductive SessionAct (C : Type) where
  | call (request : ChannelRequest)
  /-- The first lock of `ensure_channel`. -/
  | look (i : Nat)
  /-- `channel_open_session` returns. -/
  | opens (i : Nat) (channel : Option C)
  /-- The second lock. -/
  | install (i : Nat)
  /-- The request is made, and the call returns. -/
  | request (i : Nat) (how : RequestEnd)
  | giveUp (i : Nat)
  /-- `next_event` has something, or the end of the stream. -/
  | nextEvent (ended : Bool)
  | disconnect
  | channelClosed
  | goodbye (ok : Bool)
  | endpointClosed
  | giveUpDisconnect

namespace LiveSession

variable {C : Type}

/-- What `connect` returns. -/
def established : LiveSession C where
  state := .authenticated
  channel := none
  connection := true
  blobsConnection := true
  endpoint := true
  calls := []
  disconnecting := none
  reached := []
  taken := 0
  closings := []
  finished := false

/-- `transport_resources_released`, with nobody holding the lock. -/
def released (s : LiveSession C) : Bool :=
  s.channel.isNone && !s.connection && !s.blobsConnection && !s.endpoint

/-- Whether the lock is free. -/
def unlocked (s : LiveSession C) : Bool := s.calls.all fun call => decide (call.2 matches .holding) = false

/-- Whether a `&mut self` call may start. -/
def alone (s : LiveSession C) : Bool := s.calls.isEmpty && s.disconnecting.isNone

/-- Whether a `&self` call may start. -/
def shareable (s : LiveSession C) : Bool :=
  s.calls.all (fun call => !call.1.exclusive) && s.disconnecting.isNone

def mayStart (s : LiveSession C) (request : ChannelRequest) : Bool :=
  if request.exclusive then s.alone else s.shareable

def setCall (s : LiveSession C) (i : Nat) (request : ChannelRequest) (pc : CallPc C) : LiveSession C :=
  { s with calls := s.calls.set i (request, pc) }

/-- A call is over. -/
def endCall (s : LiveSession C) (i : Nat) : LiveSession C := { s with calls := s.calls.eraseIdx i }

/-- The end of `disconnect`. -/
def finish (s : LiveSession C) : LiveSession C :=
  { s with state := .closed, disconnecting := none, finished := true }

/-- What `take()` gives to close. -/
def closing (open? : Bool) (t : Transport) : List Transport := if open? then [t] else []

/-- `disconnect`, when the goodbye is said or not needed: both connections are closed at once, and the
endpoint takes a while. -/
def closeTransport (s : LiveSession C) : LiveSession C :=
  let s' := { s with
    connection := false
    blobsConnection := false
    endpoint := false
    closings := s.closings ++ (closing s.connection .connection
      ++ closing s.blobsConnection .blobsConnection ++ closing s.endpoint .endpoint) }
  if s.endpoint then { s' with disconnecting := some .closingEndpoint } else s'.finish

/-- `disconnect`, past the channel. -/
def afterChannel (s : LiveSession C) : LiveSession C :=
  if s.state.isTerminal then s.closeTransport else { s with disconnecting := some .sayingGoodbye }

def step (s : LiveSession C) : SessionAct C → Option (LiveSession C)
  | .call request =>
      if s.mayStart request then
        -- `check_open`
        some (if s.state.isTerminal then s else { s with calls := s.calls ++ [(request, .checked)] })
      else none
  | .look i =>
      match s.calls[i]? with
      | some (request, .checked) =>
          if s.unlocked then
            some (if s.channel.isSome then s.setCall i request .holding else s.setCall i request .opening)
          else none
      | _ => none
  | .opens i channel =>
      match s.calls[i]? with
      | some (request, .opening) =>
          some (match channel with
            | some c => s.setCall i request (.opened c)
            | none => s.endCall i)
      | _ => none
  | .install i =>
      match s.calls[i]? with
      | some (request, .opened c) =>
          if s.unlocked then
            some (if s.channel.isSome then s.setCall i request .holding
              else { s.setCall i request .holding with channel := some c })
          else none
      | _ => none
  | .request i how =>
      match s.calls[i]?, s.channel with
      | some (request, .holding), some c =>
          some { s.endCall i with
            state := if how = .done ∧ request = .requestShell then .shellReady else s.state
            reached := if how.sent then s.reached ++ [(s.taken, c, request)] else s.reached }
      | _, _ => none
  | .giveUp i => if i < s.calls.length then some (s.endCall i) else none
  | .nextEvent ended =>
      if s.alone then
        -- without a channel there is nothing to wait for
        some (if s.channel.isSome ∧ ended then { s with state := .closed } else s)
      else none
  | .disconnect =>
      if s.alone then
        some (match s.channel with
          | some _ => { s with channel := none, taken := s.taken + 1, disconnecting := some .closingChannel }
          | none => s.afterChannel)
      else none
  | .channelClosed =>
      if s.disconnecting = some .closingChannel then some { s with disconnecting := none }.afterChannel
        else none
  | .goodbye ok =>
      if s.disconnecting = some .sayingGoodbye then
        some (if ok then { s with disconnecting := none }.closeTransport
          else { s with disconnecting := none })
      else none
  | .endpointClosed => if s.disconnecting = some .closingEndpoint then some s.finish else none
  | .giveUpDisconnect => if s.disconnecting.isSome then some { s with disconnecting := none } else none

end LiveSession

end Irosh
