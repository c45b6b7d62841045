import Irosh.Lib.Newest
import Irosh.Server.Control

/-!
# Where a wormhole is found

A wormhole is announced under a public key derived from its code. Enabling it spawns
`broadcast_ticket_loop`, which signs one packet with the ticket and publishes that packet
over and over. Whoever clears the wormhole aborts the loop and spawns `unpublish_ticket`,
which signs an empty packet and publishes it once.

Both are tasks of their own, which may be run beside the loop. Aborting a task takes effect
where it next waits, so that it may still sign and publish, and a publication on its way may
arrive later. Nothing says which of two tasks signs first. Packets carry the time of their
signing, and a newer one replaces an older one. `Pkarr` is the network and the derivation
of keys.
-/

namespace Irosh

open Newest

/-- What is relied on of `pkarr`: a register of signed packets, with a ticket or empty, and the keys
derived from codes. Nobody else publishes under these keys. -/
structure Pkarr (R Q T : Type) where
  relays : Register R Q (Option T)
  /-- `derive_keypair(code).public_key()`. -/
  publicKey : List Char → Q

/-- A task that runs `broadcast_ticket_loop`. -/
structure Broadcast where
  code : List Char
  /-- When its packet was signed. -/
  signed : Option Nat
  /-- It has not been aborted. -/
  alive : Bool
  /-- It is being run, up to where it next waits. -/
  polled : Bool
  /-- A publication is on its way. -/
  sending : Bool
  deriving DecidableEq, Repr

/-- A task that runs `unpublish_ticket`. -/
structure Unpublish where
  /-- The wormhole that was cleared. -/
  wid : Nat
  code : List Char
  signed : Option Nat
  finished : Bool
  deriving DecidableEq, Repr

/-- `tokio::spawn(broadcast_ticket_loop(&code, ticket))`. -/
def Broadcast.spawned (code : List Char) : Broadcast := ⟨code, none, true, false, false⟩

/-- `wh.task.abort()`. -/
def Broadcast.abort (b : Broadcast) : Broadcast := { b with alive := false }

/-- The daemon, its tasks and the relays. -/
structure Meeting (K H P R : Type) where
  daemon : IpcDaemon K H P
  /-- The broadcast of each wormhole in the heap. -/
  broadcasts : List Broadcast
  unpublishes : List Unpublish
  /-- Later than every signature. -/
  clock : Nat
  relays : R

inductive MeetingAct (K H P Q : Type) where
  | daemon (act : IpcAct K H P)
  /-- A broadcast is run. -/
  | resume (w : Nat)
  /-- It waits. -/
  | pause (w : Nat)
  /-- The packet with the ticket is signed. -/
  | sign (w : Nat)
  /-- `client.publish(&signed_packet)` begins. -/
  | publish (w : Nat)
  | arrive (w : Nat)
  | lose (w : Nat)
  /-- The empty packet is signed. -/
  | signEmpty (j : Nat)
  | arriveEmpty (j : Nat)
  | loseEmpty (j : Nat)
  /-- A record is forgotten. -/
  | forget (q : Q)

namespace Meeting

variable {K H P R Q T : Type}

/-- A daemon about to enter its loop, with what is at the relays. -/
def start (server : Server K H P) (clock : Nat) (relays : R) : Meeting K H P R :=
  ⟨.start server, [], [], clock, relays⟩

/-- What goes with the loop letting go of its wormhole. -/
def clear (m : Meeting K H P R) (active : Option Nat) : Meeting K H P R :=
  match m.daemon.server.active, m.daemon.activeCode with
  | some w, some code =>
      if active = some w then m
      else { m with
        broadcasts := m.broadcasts.modify w Broadcast.abort
        unpublishes := m.unpublishes ++ [⟨w, code, none, false⟩] }
  | _, _ => m

/-- The tasks after the daemon has gone on to `d`. -/
def follow (m : Meeting K H P R) (d : IpcDaemon K H P) : Meeting K H P R :=
  { m.clear d.server.active with
    daemon := d
    broadcasts := (m.clear d.server.active).broadcasts
      ++ (d.codes.drop m.broadcasts.length).map Broadcast.spawned }

/-- A step of one broadcast. -/
def atBroadcast (m : Meeting K H P R) (w : Nat) (f : Broadcast → Option Broadcast) :
    Option (Meeting K H P R) :=
  match m.broadcasts[w]? with
  | some b => (f b).map fun b' => { m with broadcasts := m.broadcasts.set w b' }
  | none => none

/-- A step of one task that unpublishes. -/
def atUnpublish (m : Meeting K H P R) (j : Nat) (f : Unpublish → Option Unpublish) :
    Option (Meeting K H P R) :=
  match m.unpublishes[j]? with
  | some u => (f u).map fun u' => { m with unpublishes := m.unpublishes.set j u' }
  | none => none

/-- What each event does. -/
def step [DecidableEq K] [DecidableEq H] (pkarr : Pkarr R Q T) (ticket : T) (codec : IpcCodec H)
    (c : Crypto K H P) (m : Meeting K H P R) : MeetingAct K H P Q → Option (Meeting K H P R)
  | .daemon act => (m.daemon.step codec c act).map m.follow
  | .resume w =>
      m.atBroadcast w fun b =>
        if b.alive = true ∧ b.polled = false then some { b with polled := true } else none
  | .pause w => m.atBroadcast w fun b => if b.polled = true then some { b with polled := false } else none
  | .sign w =>
      (m.atBroadcast w fun b =>
        if b.polled = true ∧ b.signed = none then some { b with signed := some m.clock } else none).map
          fun m' => { m' with clock := m.clock + 1 }
  | .publish w =>
      m.atBroadcast w fun b =>
        if b.polled = true ∧ b.signed ≠ none
          ∧ b.sending = false then some { b with sending := true } else none
  | .arrive w =>
      match m.broadcasts[w]? with
      | some b =>
          match b.signed with
          | some t =>
              if b.sending = true then
                some { m with
                  broadcasts := m.broadcasts.set w { b with sending := false }
                  relays := pkarr.relays.put m.relays (pkarr.publicKey b.code) ⟨t, some ticket⟩ }
              else none
          | none => none
      | none => none
  | .lose w => m.atBroadcast w fun b => if b.sending = true then some { b with sending := false } else none
  | .signEmpty j =>
      (m.atUnpublish j fun u => if u.signed = none then some { u with signed := some m.clock } else none).map
        fun m' => { m' with clock := m.clock + 1 }
  | .arriveEmpty j =>
      match m.unpublishes[j]? with
      | some u =>
          match u.signed with
          | some t =>
              if u.finished = false then
                some { m with
                  unpublishes := m.unpublishes.set j { u with finished := true }
                  relays := pkarr.relays.put m.relays (pkarr.publicKey u.code) ⟨t, none⟩ }
              else none
          | none => none
      | none => none
  | .loseEmpty j =>
      m.atUnpublish j fun u => if u.finished = false then some { u with finished := true } else none
  | .forget q => some { m with relays := pkarr.relays.drop m.relays q }

end Meeting

end Irosh
