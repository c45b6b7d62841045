import Irosh.Lib.Serial
import Irosh.Server.Loop
import Irosh.Transfer.Sanitize

/-!
# The control socket

`IpcClient::send` writes a command to the control socket, closes its side, and reads until
the answer ends. The daemon gives every connection a task of its own. The task reads the
command, for 30 seconds and 64 KiB at most, puts it on the control channel of the server
loop with a oneshot channel for the answer, waits ten seconds for that, and writes it.

The loop is that of `Server/Loop.lean`. Beside its control channel stands who sent each
message, and beside the wormholes their codes. The loop answers a command when it has
handled it, except for a shutdown, which it answers when the IPC task has been told.

What goes over the socket is JSON. `IpcCodec` is what is relied on: a value is read back,
and a value that is cut short is not read as another one.
-/

namespace Irosh

open Serial

/-- `IpcCommand`. -/
inductive IpcCommand (H : Type) where
  | enableWormhole (code : List Char) (password : Option H) (persistent : Bool)
  | disableWormhole
  | getStatus
  | shutdown
  deriving DecidableEq, Repr

/-- What of `DaemonStatus` tells about the loop. The endpoint and the ticket are the daemon's own, and
the list of sessions is the tracker's. -/
structure StatusReport where
  wormholeActive : Bool
  wormholeCode : Option (List Char)
  activeSessions : Nat
  deriving DecidableEq, Repr

/-- `IpcResponse`. -/
inductive IpcResponse where
  | ok
  | error (message : String)
  | status (report : StatusReport)
  deriving DecidableEq, Repr

/-- `serde_json` for commands and responses, whose values are objects and strings. -/
structure IpcCodec (H : Type) where
  command : IpcCommand H → List UInt8
  parseCommand : List UInt8 → Option (IpcCommand H)
  response : IpcResponse → List UInt8
  parseResponse : List UInt8 → Option IpcResponse
  command_read : ∀ c, parseCommand (command c) = some c
  command_cut : ∀ c p, p <+: command c → p ≠ command c → parseCommand p = none
  response_read : ∀ r, parseResponse (response r) = some r
  response_cut : ∀ r p, p <+: response r → p ≠ response r → parseResponse p = none

/-- `WormholeCode::new(code).ok()`. -/
def wormholeCode (code : List Char) : Option (List Char) :=
  if (trim code).isEmpty then none else some code

/-- A message on the control channel, with who waits for the answer. Other code of the process may send
commands too, as the expiry tasks do. -/
inductive Message (H : Type) where
  | request (sender : Option Nat) (command : IpcCommand H)
  | expired (raisedBy : Nat)
  deriving DecidableEq, Repr

namespace IpcCommand

/-- What the loop makes of it. -/
def request {H : Type} : IpcCommand H → Request H
  | .enableWormhole _ password persistent => .enableWormhole password persistent
  | .disableWormhole => .disableWormhole
  | .getStatus => .getStatus
  | .shutdown => .shutdown

end IpcCommand

def Message.control {H : Type} : Message H → Control H
  | .request _ command => .request command.request
  | .expired w => .expired w

/-- Where `handle_ipc_connection` is. -/
inductive HandlerPc (H : Type) where
  /-- In `read_to_end`. -/
  | reading
  /-- In `control_tx.send`. -/
  | queueing (command : IpcCommand H)
  /-- Waiting for the answer. -/
  | waiting
  | replying (response : IpcResponse)
  /-- It has returned, and the stream is closed. -/
  | returned
  deriving DecidableEq, Repr

/-- How `IpcClient::send` fails. -/
inductive IpcFailure where
  | io
  | invalidData
  deriving DecidableEq, Repr

/-- One connection to the control socket, with both its ends. -/
structure Conversation (H : Type) where
  /-- All the client means to write (ghost). -/
  payload : List UInt8
  /-- What the client has still to write. -/
  unsent : List UInt8
  /-- What is on its way to the daemon. -/
  socket : List UInt8
  /-- The client has shut down its side. -/
  closed : Bool
  /-- The client has gone away. -/
  gone : Bool
  buf : List UInt8
  pc : HandlerPc H
  /-- What the loop has sent on the oneshot channel. -/
  oneshot : Option IpcResponse
  /-- What is on its way back. -/
  reply : List UInt8
  /-- What `send` has returned. -/
  outcome : Option (Except IpcFailure IpcResponse)
  deriving DecidableEq

namespace Conversation

variable {H : Type}

/-- A connection that has just been accepted. -/
def accepted (payload : List UInt8) : Conversation H :=
  ⟨payload, payload, [], false, false, [], .reading, none, [], none⟩

/-- `take(1024 * 64)`. -/
def limit : Nat := 1024 * 64

/-- `tx.send(response)`, where the receiver may be gone. -/
def told (response : IpcResponse) (v : Conversation H) : Conversation H :=
  match v.pc with
  | .waiting => { v with oneshot := some response }
  | _ => v

end Conversation

/-- The messages of `handle_ipc_connection` itself. -/
def noResponse : IpcResponse := .error "Server failed to provide a response"

def timedOut : IpcResponse := .error "IPC command timed out"

def channelClosed : IpcResponse := .error "Server control channel closed"

/-- How a daemon can change that no command has asked for. -/
inductive OwnChange where
  /-- The wormhole is gone: used up, rate limited, expired, or the loop has ended. -/
  | burnt
  | sessions (n : Nat)
  | stopping
  deriving DecidableEq, Repr

/-- What commands are about. -/
structure DaemonView where
  code : Option (List Char)
  sessions : Nat
  stopping : Bool
  deriving DecidableEq, Repr

/-- A daemon that handles one command at a time. -/
def sequentialDaemon (H : Type) : Object DaemonView (IpcCommand H) IpcResponse OwnChange where
  call v
    | .enableWormhole code _ _ => ({ v with code := some code }, .ok)
    | .disableWormhole => ({ v with code := none }, .ok)
    | .getStatus => (v, .status ⟨v.code.isSome, v.code.bind wormholeCode, v.sessions⟩)
    | .shutdown => ({ v with stopping := true }, .ok)
  change v
    | .burnt => { v with code := none }
    | .sessions n => { v with sessions := n }
    | .stopping => { v with stopping := true }

/-- The daemon, with its control socket. -/
structure IpcDaemon (K H P : Type) where
  server : Server K H P
  /-- The codes of the wormholes in the heap. -/
  codes : List (List Char)
  /-- The control channel. -/
  queue : List (Message H)
  /-- Whose shutdown the loop is passing on. -/
  parked : Option Nat
  conns : List (Conversation H)
  /-- What the loop has handled (ghost). -/
  history : List (Entry (Option Nat) (IpcCommand H) IpcResponse OwnChange)

/-- What can happen. -/
inductive IpcAct (K H P : Type) where
  /-- Anything else of the daemon. -/
  | daemon (e : ServerEvent K H P)
  /-- A command through `control_handle`. -/
  | inProcess (command : IpcCommand H)
  | accept (payload : List UInt8)
  | write (i n : Nat)
  | shutdown (i : Nat)
  | leave (i : Nat)
  | read (i n : Nat)
  /-- `read_to_end` is over. -/
  | parse (i : Nat)
  | requestTimeout (i : Nat)
  /-- `control_tx.send` returns. -/
  | enqueue (i : Nat)
  | answer (i : Nat)
  | commandTimeout (i : Nat)
  /-- The answer is written, or the first `n` bytes of it. -/
  | reply (i n : Nat)
  /-- `IpcClient::send` has read to the end. -/
  | receive (i : Nat)
  /-- It fails. -/
  | fail (i : Nat)

/-- What a step of the loop's own does to the view. -/
def ownChanges {K H P : Type} (s s' : Server K H P) : List OwnChange :=
  (if s.active ≠ none ∧ s'.active = none then [.burnt] else [])
    ++ (if s'.activeSessions ≠ s.activeSessions then [.sessions s'.activeSessions] else [])
    ++ if s'.shutdownRequested ∧ ¬ s.shutdownRequested then [.stopping] else []

namespace IpcDaemon

variable {K H P : Type}

/-- A daemon about to enter its loop. -/
def start (server : Server K H P) : IpcDaemon K H P := ⟨server, [], [], none, [], []⟩

/-- The code of the active wormhole. -/
def activeCode (d : IpcDaemon K H P) : Option (List Char) := d.server.active.bind (d.codes[·]?)

def view (d : IpcDaemon K H P) : DaemonView :=
  ⟨d.activeCode, d.server.activeSessions, d.server.shutdownRequested⟩

/-- What `GetStatus` answers. -/
def report (d : IpcDaemon K H P) : StatusReport :=
  ⟨d.server.active.isSome, d.activeCode.bind wormholeCode, d.server.activeSessions⟩

/-- The answer to a command goes out. -/
def tell (sender : Option Nat) (response : IpcResponse) (d : IpcDaemon K H P) : IpcDaemon K H P :=
  match sender with
  | some i => { d with conns := d.conns.modify i (Conversation.told response) }
  | none => d

/-- The arms of the loop's `match msg`, when the loop itself has gone from `d.server` to `s`. -/
def handled (d : IpcDaemon K H P) (rest : List (Message H)) (s : Server K H P) : Message H → IpcDaemon K H P
  | .request sender command =>
      match command with
      | .enableWormhole code password persistent =>
          tell sender .ok { d with
            server := s
            codes := d.codes ++ [code]
            queue := rest
            history := d.history ++ [.called sender (.enableWormhole code password persistent) .ok] }
      | .disableWormhole =>
          tell sender .ok { d with
            server := s
            queue := rest
            history := d.history ++ [.called sender .disableWormhole .ok] }
      | .getStatus =>
          tell sender (.status d.report) { d with
            server := s
            queue := rest
            history := d.history ++ [.called sender .getStatus (.status d.report)] }
      | .shutdown =>
          -- answered behind `ipc_shutdown_tx.send`
          { d with
            server := s
            queue := rest
            parked := sender
            history := d.history ++ [.called sender .shutdown .ok] }
  | .expired _ =>
      { d with server := s, queue := rest, history := d.history ++ (ownChanges d.server s).map .changed }

/-- `control_tx.send`, with room on the channel. -/
def put [DecidableEq K] (c : Crypto K H P) (sender : Option Nat) (command : IpcCommand H)
    (d : IpcDaemon K H P) :
    Option (IpcDaemon K H P) :=
  (d.server.step c (.command command.request)).map fun s =>
    { d with server := s, queue := d.queue ++ [.request sender command] }

/-- A step of the daemon below. -/
def daemonStep [DecidableEq K] (c : Crypto K H P) (d : IpcDaemon K H P) (e : ServerEvent K H P) :
    Option (IpcDaemon K H P) :=
  match e with
  | .command _ => none
  | .recvControl =>
      match d.queue with
      | m :: rest => (d.server.step c .recvControl).map fun s => d.handled rest s m
      | [] => none
  | .expire w =>
      (d.server.step c (.expire w)).map fun s => { d with server := s, queue := d.queue ++ [.expired w] }
  | .ipcSent =>
      (d.server.step c .ipcSent).map fun s => tell d.parked .ok { d with server := s, parked := none }
  | e =>
      (d.server.step c e).map fun s =>
        { d with server := s, history := d.history ++ (ownChanges d.server s).map .changed }

/-- A step of one connection. -/
def atConn (d : IpcDaemon K H P) (i : Nat) (f : Conversation H → Option (Conversation H)) :
    Option (IpcDaemon K H P) :=
  match d.conns[i]? with
  | some v => (f v).map fun v' => { d with conns := d.conns.set i v' }
  | none => none

/-- What each event does. -/
def step [DecidableEq K] [DecidableEq H] (codec : IpcCodec H) (c : Crypto K H P) (d : IpcDaemon K H P) :
    IpcAct K H P → Option (IpcDaemon K H P)
  | .daemon e => d.daemonStep c e
  | .inProcess command => if d.server.pc = .exited then none else d.put c none command
  | .accept payload =>
      if d.server.ipcRx = .running then some { d with conns := d.conns ++ [.accepted payload] } else none
  | .write i n =>
      d.atConn i fun v =>
        if v.gone = false ∧ v.pc ≠ .returned ∧ 0 < n ∧ n ≤ v.unsent.length then
          some { v with unsent := v.unsent.drop n, socket := v.socket ++ v.unsent.take n }
        else none
  | .shutdown i =>
      d.atConn i fun v =>
        if v.gone = false ∧ v.unsent = [] then some { v with closed := true } else none
  | .leave i =>
      d.atConn i fun v => if v.outcome = none then some { v with gone := true, closed := true } else none
  | .read i n =>
      d.atConn i fun v =>
        if v.pc = .reading ∧ 0 < n ∧ n ≤ v.socket.length ∧ v.buf.length + n ≤ Conversation.limit then
          some { v with socket := v.socket.drop n, buf := v.buf ++ v.socket.take n }
        else none
  | .parse i =>
      d.atConn i fun v =>
        if v.pc = .reading ∧ (v.buf.length = Conversation.limit ∨ v.socket = [] ∧ v.closed = true) then
          some (match codec.parseCommand v.buf with
            | some command => { v with pc := .queueing command }
            | none => { v with pc := .returned })
        else none
  | .requestTimeout i => d.atConn i fun v => if v.pc = .reading then some { v with pc := .returned } else none
  | .enqueue i =>
      match (d.conns[i]?).map Conversation.pc with
      | some (.queueing command) =>
          if d.server.pc = .exited then d.atConn i fun v => some { v with pc := .replying channelClosed }
          else (d.put c (some i) command).bind fun d' => d'.atConn i fun v => some { v with pc := .waiting }
      | _ => none
  | .answer i =>
      d.atConn i fun v =>
        if v.pc = .waiting then
          match v.oneshot with
          | some response => some { v with pc := .replying response }
          -- the control channel is dropped with what is on it
          | none => if d.server.pc = .exited then some { v with pc := .replying noResponse } else none
        else none
  | .commandTimeout i =>
      d.atConn i fun v =>
        if v.pc = .waiting ∧ v.oneshot = none ∧ d.server.pc ≠ .exited then
          some { v with pc := .replying timedOut }
        else none
  | .reply i n =>
      d.atConn i fun v =>
        match v.pc with
        | .replying response => some { v with reply := (codec.response response).take n, pc := .returned }
        | _ => none
  | .receive i =>
      d.atConn i fun v =>
        if v.pc = .returned ∧ v.closed = true ∧ v.gone = false ∧ v.outcome = none then
          some { v with outcome := some (match codec.parseResponse v.reply with
            | some response => .ok response
            | none => .error .invalidData) }
        else none
  | .fail i =>
      d.atConn i fun v =>
        if v.pc = .returned ∧ v.gone = false
          ∧ v.outcome = none then some { v with outcome := some (.error .io) }
        else none

end IpcDaemon

end Irosh
