import Mathlib.Logic.Relation
import Mathlib.Data.List.Basic

/-!
# Live sessions and the status query

A connection is counted when it is accepted, registered in a `SessionTracker`, and
when it ends its guard takes it out of the count at once and out of the tracker in a
task of its own. In between its byte counters are shared with the tracker's entry.

`Server::run` builds one `SshProtocol` with a tracker of its own and clones it for
pairing connections, so all connections register in that one. The status query asks
the tracker of the `Server`.

A step is one atomic action of one connection; any number of connections may be at
any stage.
-/

namespace Irosh

variable {P : Type}

/-- `ActiveSession`. The counters are the ones the connection of this number has. -/
structure ActiveSession (P : Type) where
  peerId : P
  startedAt : Nat
  counters : Nat
  deriving DecidableEq, Repr

/-- `SessionTracker`. The map is a list of its entries. -/
structure SessionTracker (P : Type) where
  sessions : List (Nat × ActiveSession P)
  nextId : Nat
  deriving DecidableEq, Repr

/-- `SessionStatus`. -/
structure SessionStatus (P : Type) where
  peerId : P
  startedAt : Nat
  bytesSent : Nat
  bytesReceived : Nat
  deriving DecidableEq, Repr

namespace SessionTracker

/-- `SessionTracker::new`. -/
def new : SessionTracker P := ⟨[], 0⟩

/-- `insert`, at the end of `register`. -/
def insert (tracker : SessionTracker P) (id : Nat) (session : ActiveSession P) : SessionTracker P :=
  { tracker with sessions := (id, session) :: tracker.sessions.filter fun entry => entry.1 ≠ id }

/-- `SessionTracker::unregister`. -/
def unregister (tracker : SessionTracker P) (id : Nat) : SessionTracker P :=
  { tracker with sessions := tracker.sessions.filter fun entry => entry.1 ≠ id }

/-- `SessionTracker::snapshot`, with the values of the counters. -/
def snapshot (tracker : SessionTracker P) (counters : Nat → Nat × Nat) : List (SessionStatus P) :=
  tracker.sessions.map fun entry =>
    ⟨entry.2.peerId, entry.2.startedAt, (counters entry.2.counters).1, (counters entry.2.counters).2⟩

end SessionTracker

/-- How far `SshProtocol::accept` has come. -/
inductive Stage where
  /-- `active_sessions` has been incremented. -/
  | counted
  /-- `register` has drawn the session's id. -/
  | numbered (id : Nat)
  /-- The session is in the tracker and guarded. -/
  | live (id startedAt : Nat)
  /-- The guard is dropped and the task that unregisters is still to run. -/
  | ended (id startedAt : Nat)
  deriving DecidableEq, Repr

/-- A connection, in its `accept`. `key` stands for its counters, which are shared by reference. -/
structure AcceptTask (P : Type) where
  key : Nat
  peer : P
  isPairing : Bool
  stage : Stage
  bytesSent : Nat
  bytesReceived : Nat
  deriving DecidableEq, Repr

/-- What `Server::run` and the connections share. -/
structure Daemon (P : Type) where
  /-- `Server::session_tracker`, set at startup. -/
  serverTracker : SessionTracker P
  /-- The tracker both protocol handlers have. -/
  protocolTracker : SessionTracker P
  activeSessions : Nat
  connections : List (AcceptTask P)
  /-- Connections so far. -/
  accepted : Nat
  deriving DecidableEq, Repr

/-- The part of `DaemonStatus` the sessions make up. -/
structure DaemonStatus (P : Type) where
  activeSessions : Nat
  sessions : List (SessionStatus P)
  deriving DecidableEq, Repr

namespace Daemon

/-- `Server::run`, when its loop begins. -/
def start : Daemon P := ⟨.new, .new, 0, [], 0⟩

/-- The counters with this key. -/
def counters (d : Daemon P) (key : Nat) : Nat × Nat :=
  ((d.connections.find? fun c => c.key = key).map fun c => (c.bytesSent, c.bytesReceived)).getD (0, 0)

/-- What `GetStatus` answers. -/
def getStatus (d : Daemon P) : DaemonStatus P :=
  ⟨d.activeSessions, d.serverTracker.snapshot d.counters⟩

/-- One step of one connection. -/
inductive Step : Daemon P → Daemon P → Prop
  | accept (d : Daemon P) (peer : P) (isPairing : Bool) :
      Step d { d with
        activeSessions := d.activeSessions + 1
        connections := d.connections ++ [⟨d.accepted, peer, isPairing, .counted, 0, 0⟩]
        accepted := d.accepted + 1 }
  /-- `next_id.fetch_add(1)`. -/
  | number (d : Daemon P) {before after : List (AcceptTask P)} {c : AcceptTask P}
      (hd : d.connections = before ++ c :: after) (hc : c.stage = .counted) :
      Step d { d with
        protocolTracker := { d.protocolTracker with nextId := d.protocolTracker.nextId + 1 }
        connections := before ++ { c with stage := .numbered d.protocolTracker.nextId } :: after }
  /-- The insertion, and the guard. -/
  | register (d : Daemon P) {before after : List (AcceptTask P)} {c : AcceptTask P} {id : Nat}
      (now : Nat) (hd : d.connections = before ++ c :: after) (hc : c.stage = .numbered id) :
      Step d { d with
        protocolTracker := d.protocolTracker.insert id ⟨c.peer, now, c.key⟩
        connections := before ++ { c with stage := .live id now } :: after }
  /-- Bytes go over the stream. -/
  | transfer (d : Daemon P) {before after : List (AcceptTask P)} {c : AcceptTask P} {id now : Nat}
      (sent received : Nat) (hd : d.connections = before ++ c :: after) (hc : c.stage = .live id now) :
      Step d { d with
        connections := before ++ { c with
          bytesSent := c.bytesSent + sent
          bytesReceived := c.bytesReceived + received } :: after }
  /-- The guard is dropped. -/
  | close (d : Daemon P) {before after : List (AcceptTask P)} {c : AcceptTask P} {id now : Nat}
      (hd : d.connections = before ++ c :: after) (hc : c.stage = .live id now) :
      Step d { d with
        activeSessions := d.activeSessions - 1
        connections := before ++ { c with stage := .ended id now } :: after }
  /-- The task of the guard. -/
  | unregister (d : Daemon P) {before after : List (AcceptTask P)} {c : AcceptTask P} {id now : Nat}
      (hd : d.connections = before ++ c :: after) (hc : c.stage = .ended id now) :
      Step d { d with
        protocolTracker := d.protocolTracker.unregister id
        connections := before ++ after }

def Reachable : Daemon P → Prop := Relation.ReflTransGen Step start

/-- No accept and no unregister is in flight: every connection there is, is live. -/
def Quiet (d : Daemon P) : Prop := ∀ c ∈ d.connections, ∃ id now, c.stage = .live id now

end Daemon

end Irosh
