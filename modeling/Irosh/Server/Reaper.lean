import Mathlib.Data.List.Perm.Basic
import Irosh.Server.Channels

/-!
# The idle timeout

The timestamps of a connection's channels and the task that closes idle ones:
`mark_channel_active`, `touch_idle`, `forget_channel` and `ensure_reaper`. Every lock taken and
every wait of the reaper is a step of its own, so traffic may come in between.
-/

namespace Irosh

/-- What `HashMap<ChannelId, Instant>` holds. -/
abbrev IdleMap := List (ChannelId × Nat)

namespace IdleMap

def remove (idle : IdleMap) (channel : ChannelId) : IdleMap :=
  idle.filter fun entry => entry.1 != channel

def insert (idle : IdleMap) (channel : ChannelId) (now : Nat) : IdleMap :=
  (channel, now) :: IdleMap.remove idle channel

/-- The channels whose last traffic is longer ago than the timeout. -/
def stale (idle : IdleMap) (now timeout : Nat) : List ChannelId :=
  (idle.filter fun entry => timeout < now - entry.2).map (·.1)

end IdleMap

/-- Where the reaper is in its loop. -/
inductive Reaper where
  | notStarted
  | sleeping
  /-- It has read the clock. -/
  | woken (now : Nat)
  /-- It goes through the stale channels that are left. -/
  | reaping (stale : List ChannelId)
  /-- It waits for a channel to be closed. -/
  | closing (channel : ChannelId) (stale : List ChannelId)
  | stopped
  deriving DecidableEq, Repr

structure IdleSite where
  timeout : Nat
  now : Nat
  idle : IdleMap
  reaper : Reaper
  deriving DecidableEq, Repr

inductive IdleEvent where
  /-- Time passes. -/
  | tick (elapsed : Nat)
  /-- Traffic: `data`, a start, or output of the process. -/
  | traffic (channel : ChannelId)
  /-- `channel_eof`, `channel_close`, or the end of the process. -/
  | forget (channel : ChannelId)
  | ensureReaper
  | wake
  /-- The stale channels are collected, in the order the map lists them. -/
  | snapshot (stale : List ChannelId)
  | removeEntry
  | closed (ok : Bool)
  /-- No stale channel is left. -/
  | rest
  /-- The connection is gone, or the lock is poisoned. -/
  | stop
  deriving DecidableEq, Repr

namespace IdleSite

def new (timeout : Nat) : IdleSite := ⟨timeout, 0, [], .notStarted⟩

/-- `mark_channel_active`, and `touch_idle` in the reader tasks. -/
def markChannelActive (s : IdleSite) (channel : ChannelId) : IdleSite :=
  if s.timeout = 0 then s else { s with idle := IdleMap.insert s.idle channel s.now }

/-- `forget_channel`. -/
def forgetChannel (s : IdleSite) (channel : ChannelId) : IdleSite :=
  { s with idle := IdleMap.remove s.idle channel }

/-- `ensure_reaper`. -/
def ensureReaper (s : IdleSite) : IdleSite :=
  if s.timeout = 0 then s
  else if s.reaper = .notStarted then { s with reaper := .sleeping }
  else s

def step (s : IdleSite) : IdleEvent → Option IdleSite
  | .tick elapsed => some { s with now := s.now + elapsed }
  | .traffic channel => some (s.markChannelActive channel)
  | .forget channel => some (s.forgetChannel channel)
  | .ensureReaper => some s.ensureReaper
  | .wake =>
      match s.reaper with
      | .sleeping => some { s with reaper := .woken s.now }
      | _ => none
  | .snapshot stale =>
      match s.reaper with
      | .woken now =>
          if stale.Perm (IdleMap.stale s.idle now s.timeout) then
            some { s with reaper := .reaping stale }
          else none
      | _ => none
  | .removeEntry =>
      match s.reaper with
      | .reaping (channel :: stale) =>
          some { s with
            idle := IdleMap.remove s.idle channel
            reaper := .closing channel stale }
      | _ => none
  | .closed ok =>
      match s.reaper with
      -- a failed close ends the pass
      | .closing _ stale => some { s with reaper := if ok then .reaping stale else .sleeping }
      | _ => none
  | .rest =>
      match s.reaper with
      | .reaping [] => some { s with reaper := .sleeping }
      | _ => none
  | .stop =>
      match s.reaper with
      | .sleeping | .woken _ => some { s with reaper := .stopped }
      | _ => none

end IdleSite

end Irosh
