import Irosh.Server.Control

/-!
# The control socket is linearizable

However many clients there are and however their conversations with the daemon interleave,
the commands that are carried out are carried out one after another, each at most once, by
a daemon that is described by `sequentialDaemon`. A client that is told a result is told
the one its own command had in that order. A command that was carried out before a
connection came about stands before the command of that connection.

The order is `IpcDaemon.history`. `Orderly` is the invariant: the history replays to the
state of the loop, and who is in it or on the control channel is there once.
-/

namespace Irosh.Proof

open Irosh Server Serial Exec

variable {K H P : Type}

/-! ## What the loop does without a command -/

/-- All that the control socket sees of a step of the loop that handles no message. -/
structure Unasked (s s' : Server K H P) : Prop where
  controlQ : s'.controlQ = s.controlQ
  heap : s'.heap.length = s.heap.length
  active : s'.active = s.active ∨ s'.active = none
  stopping : s.shutdownRequested = true → s'.shutdownRequested = true

theorem Unasked.refl (s : Server K H P) : Unasked s s := ⟨rfl, rfl, .inl rfl, id⟩

/-- The active wormhole is in the heap. -/
theorem Unasked.bound {s s' : Server K H P} (h : Unasked s s')
    (hs : ∀ w, s.active = some w → w < s.heap.length) (w : Nat)
    (hw : s'.active = some w) : w < s'.heap.length := by
  rw [h.heap]
  rcases h.active with hsame | hnone
  · exact hs w (hsame ▸ hw)
  · rw [hnone] at hw
    cases hw

theorem unasked_takeWormhole (s : Server K H P) : Unasked s s.takeWormhole := by
  unfold takeWormhole
  split
  · exact .refl s
  · exact ⟨rfl, List.length_modify _ _ _, .inr rfl, id⟩

/-- Where the loop stands does not matter. -/
theorem Unasked.moves {s s' : Server K H P} (h : Unasked s s') (pc : LoopPc) :
    Unasked s { s' with pc := pc } :=
  ⟨h.controlQ, h.heap, h.active, h.stopping⟩

theorem Unasked.stops {s s' : Server K H P} (h : Unasked s s') : Unasked s s'.requestShutdown :=
  ⟨h.controlQ, h.heap, h.active, fun _ => rfl⟩

theorem unasked_clearFor (w : Nat) (s : Server K H P) : Unasked s (s.clearFor w) := by
  have htake := unasked_takeWormhole s
  unfold clearFor
  split
  · exact .refl s
  · exact ⟨htake.controlQ, htake.heap, htake.active, htake.stopping⟩

/-- Taking a notice off its channel. -/
theorem Unasked.unqueued {s s' : Server K H P} {success failure : Option Nat}
    (h : Unasked { s with successQ := success, failureQ := failure } s') : Unasked s s' :=
  ⟨h.controlQ, h.heap, h.active, h.stopping⟩

theorem unasked_handleSuccess (w : Nat) (s : Server K H P) : Unasked s (s.handleSuccess w) := by
  have hclear := unasked_clearFor w s
  unfold handleSuccess
  split
  · exact (Unasked.refl s).moves .bottom
  · split
    · exact (Unasked.refl s).moves .bottom
    · split
      · exact hclear.stops
      · exact hclear.moves .bottom

theorem unasked_writeBack (s : Server K H P) (i : Nat) (p : PairingSession K P) (w : Wormhole H)
    (pc : Check K P) (a : UnifiedAuthenticator K H) : Unasked s (s.writeBack i p w pc a) :=
  ⟨rfl, List.length_set, .inl rfl, id⟩

section Steps

variable [DecidableEq K] {c : Crypto K H P} {s s' : Server K H P}

/-- An event of the loop that neither takes a message off the control channel nor puts one there. -/
def isUnasked : ServerEvent K H P → Bool
  | .command _ | .recvControl | .expire _ => false
  | _ => true

theorem unasked_step {e : ServerEvent K H P} (he : isUnasked e = true) (h : s.step c e = some s') :
    Unasked s s' := by
  have hrefl := Unasked.refl s
  have hsame : ∀ t : Server K H P, t.controlQ = s.controlQ → t.heap = s.heap → t.active = s.active →
      t.shutdownRequested = s.shutdownRequested → Unasked s t := by
    intro t h1 h2 h3 h4
    exact ⟨h1, by rw [h2], .inl h3, fun h => h4.trans h⟩
  cases e with
  | command r => cases he
  | recvControl => cases he
  | expire w => cases he
  | connect => cases h; exact hsame _ rfl rfl rfl rfl
  | disk dir shadow => cases h; exact hsame _ rfl rfl rfl rfl
  | pair =>
      obtain ⟨w, hw, rfl⟩ := Option.map_eq_some_iff.mp h
      exact hsame _ rfl rfl rfl rfl
  | begin i asked =>
      simp only [step] at h
      split at h
      · split at h <;> cases h
        exact hsame _ rfl rfl rfl rfl
      · cases h
  | advance i now wr =>
      simp only [step] at h
      split at h
      · rename_i p w _
        split at h
        · obtain ⟨⟨pc', a⟩, _, rfl⟩ := Option.map_eq_some_iff.mp h
          have hback := unasked_writeBack s i p w pc' a
          exact ⟨hback.controlQ, hback.heap, hback.active, hback.stopping⟩
        · cases h
      · cases h
  | recvShutdown =>
      simp only [step] at h
      split at h <;> cases h
      exact ⟨rfl, rfl, .inl rfl, fun _ => rfl⟩
  | recvSuccess =>
      simp only [step] at h
      split at h <;> cases h
      exact (unasked_handleSuccess _ _).unqueued
  | recvFailure =>
      simp only [step] at h
      split at h <;> cases h
      exact ((unasked_clearFor _ _).moves .bottom).unqueued
  | drained =>
      simp only [step] at h
      split at h <;> cases h
      exact (unasked_takeWormhole s).moves .exited
  | signal =>
      simp only [step] at h
      split at h <;> cases h
      exact hsame _ rfl rfl rfl rfl
  | disconnect =>
      simp only [step] at h
      split at h <;> cases h
      exact hsame _ rfl rfl rfl rfl
  | loadVault i =>
      simp only [step] at h
      split at h
      · split at h <;> cases h
        exact hsame _ rfl rfl rfl rfl
      · cases h
  | deliver j =>
      simp only [step] at h
      split at h <;> cases h
      exact hsame _ rfl rfl rfl rfl
  | ipcRecv =>
      simp only [step] at h
      split at h <;> cases h
      exact hsame _ rfl rfl rfl rfl
  | ipcFail =>
      simp only [step] at h
      split at h <;> cases h
      exact hsame _ rfl rfl rfl rfl
  | loopTest =>
      simp only [step] at h
      split at h <;> cases h
      · exact hsame _ rfl rfl rfl rfl
      · exact hsame _ rfl rfl rfl rfl
  | ipcSent =>
      simp only [step] at h
      split at h
      · split at h
        · cases h; exact hsame _ rfl rfl rfl rfl
        · split at h <;> cases h
          exact hsame _ rfl rfl rfl rfl
      · cases h

end Steps

/-! ## The history -/

variable {d d' : IpcDaemon K H P}

section Changes

variable (v : DaemonView) (q : Prop) [Decidable q]

theorem foldl_burnt : (if q then [OwnChange.burnt] else []).foldl (sequentialDaemon H).change v
    = ⟨if q then none else v.code, v.sessions, v.stopping⟩ := by
  split <;> rfl

theorem foldl_sessions (n : Nat) :
    (if q then [OwnChange.sessions n] else []).foldl (sequentialDaemon H).change v
    = ⟨v.code, if q then n else v.sessions, v.stopping⟩ := by
  split <;> rfl

theorem foldl_stopping : (if q then [OwnChange.stopping] else []).foldl (sequentialDaemon H).change v
    = ⟨v.code, v.sessions, if q then true else v.stopping⟩ := by
  split <;> rfl

end Changes

/-- What is left of the code. -/
theorem activeCode_unasked {s : Server K H P} (h : Unasked d.server s) :
    { d with server := s }.activeCode
      = if d.server.active ≠ none ∧ s.active = none then none else d.activeCode := by
  show s.active.bind (d.codes[·]?) = _
  rcases h.active with hsame | hnone
  · have hkept : ¬(d.server.active ≠ none ∧ s.active = none) := fun hgone => hgone.1 (hsame ▸ hgone.2)
    rw [if_neg hkept, hsame]
    rfl
  · by_cases hold : d.server.active = none
    · rw [if_neg fun hgone => hgone.1 hold, hnone, IpcDaemon.activeCode, hold]
    · rw [if_pos ⟨hold, hnone⟩, hnone]
      rfl

/-- **A step of the loop's own is told in full by its changes.** -/
theorem view_unasked {s : Server K H P} (h : Unasked d.server s) :
    (ownChanges d.server s).foldl (sequentialDaemon H).change d.view = { d with server := s }.view := by
  have hcode := activeCode_unasked h
  have hsessions :
      (if s.activeSessions ≠ d.server.activeSessions then s.activeSessions else d.server.activeSessions)
      = s.activeSessions := by
    split <;> omega
  have hstopping : (if s.shutdownRequested = true ∧ ¬ d.server.shutdownRequested = true then true
      else d.server.shutdownRequested) = s.shutdownRequested := by
    have := h.stopping
    grind
  rw [ownChanges, List.foldl_append, List.foldl_append, foldl_burnt, foldl_sessions, foldl_stopping]
  show (⟨_, _, _⟩ : DaemonView) = ⟨_, s.activeSessions, s.shutdownRequested⟩
  rw [hcode]
  exact congrArg₂ (DaemonView.mk _) hsessions hstopping

/-! ## Whose turn it has been -/

/-- Who waits for the answer to a message. -/
def sender? : Message H → Option Nat
  | .request sender _ => sender
  | .expired _ => none

/-- The conversations whose command has been handled or is on the control channel, in the order of
handling. -/
def servedBy (d : IpcDaemon K H P) : List Nat := callers d.history ++ d.queue.filterMap sender?

/-- The command has left the handler, or there is none. -/
def submitted (v : Conversation H) : Bool :=
  match v.pc with
  | .reading | .queueing _ => false
  | _ => true

/-- An answer that conversation `i` may be given. -/
def Genuine (history : List (Entry (Option Nat) (IpcCommand H) IpcResponse OwnChange))
    (served : List Nat) (i : Nat) (r : IpcResponse) : Prop :=
  (∃ command, .called (some i) command r ∈ history) ∨ r = noResponse ∨ r = timedOut
    ∨ r = channelClosed ∧ i ∉ served

/-- What a conversation keeps. -/
structure Converses (codec : IpcCodec H)
    (history : List (Entry (Option Nat) (IpcCommand H) IpcResponse OwnChange)) (served : List Nat) (i : Nat)
    (v : Conversation H) : Prop where
  bytes : v.buf ++ v.socket ++ v.unsent = v.payload
  short : v.buf.length ≤ Conversation.limit
  new : submitted v = false → v.oneshot = none ∧ v.reply = [] ∧ v.outcome = none
  queueing : ∀ command, v.pc = .queueing command → codec.parseCommand v.buf = some command
  oneshot : ∀ r, v.oneshot = some r → Genuine history served i r
  replying : ∀ r, v.pc = .replying r → Genuine history served i r
  reply : v.reply = [] ∨ ∃ r n, v.reply = (codec.response r).take n ∧ Genuine history served i r
  outcome : ∀ r, v.outcome = some (.ok r) → Genuine history served i r

/-- **What every run of the daemon keeps.** -/
structure Orderly (codec : IpcCodec H) (first : DaemonView) (d : IpcDaemon K H P) : Prop where
  aligned : d.server.controlQ = d.queue.map Message.control
  codes : d.codes.length = d.server.heap.length
  active : ∀ w, d.server.active = some w → w < d.server.heap.length
  replays : replay (sequentialDaemon H) first d.history = some d.view
  once : (servedBy d).Nodup
  served : ∀ i ∈ servedBy d, ∃ v, d.conns[i]? = some v ∧ submitted v = true
  asked : ∀ i command, (∃ r, .called (some i) command r ∈ d.history) ∨ .request (some i) command ∈ d.queue →
    ∀ v, d.conns[i]? = some v → codec.parseCommand v.buf = some command
  parked : ∀ i, d.parked = some i → .called (some i) .shutdown .ok ∈ d.history
  converses : ∀ i v, d.conns[i]? = some v → Converses codec d.history (servedBy d) i v

section Converses

variable {codec : IpcCodec H}
  {history history' : List (Entry (Option Nat) (IpcCommand H) IpcResponse OwnChange)}
  {served served' : List Nat} {i : Nat} {r : IpcResponse} {v : Conversation H}

theorem Genuine.mono (h : Genuine history served i r) (hgrown : history <+: history')
    (hserved : i ∉ served → i ∉ served') : Genuine history' served' i r := by
  rcases h with ⟨command, hmem⟩ | h | h | ⟨h, hnot⟩
  · exact .inl ⟨command, hgrown.subset hmem⟩
  · exact .inr (.inl h)
  · exact .inr (.inr (.inl h))
  · exact .inr (.inr (.inr ⟨h, hserved hnot⟩))

theorem Converses.mono (h : Converses codec history served i v) (hgrown : history <+: history')
    (hserved : i ∉ served → i ∉ served') : Converses codec history' served' i v := by
  refine ⟨h.bytes, h.short, h.new, h.queueing, ?_, ?_, ?_, ?_⟩
  · exact fun r hr => (h.oneshot r hr).mono hgrown hserved
  · exact fun r hr => (h.replying r hr).mono hgrown hserved
  · rcases h.reply with hnil | ⟨r, n, hr, hgenuine⟩
    · exact .inl hnil
    · exact .inr ⟨r, n, hr, hgenuine.mono hgrown hserved⟩
  · exact fun r hr => (h.outcome r hr).mono hgrown hserved

theorem converses_accepted (payload : List UInt8) : Converses codec history served i (.accepted payload) := by
  refine ⟨rfl, Nat.zero_le _, fun _ => ⟨rfl, rfl, rfl⟩, ?_, ?_, ?_, .inl rfl, ?_⟩
  · intro command h; cases h
  · intro r h; cases h
  · intro r h; cases h
  · intro r h; cases h

/-- Nothing is read as an answer before there is one. -/
theorem parseResponse_nil (codec : IpcCodec H) : codec.parseResponse [] = none := by
  -- two answers are written differently, so one of them is written as something
  have hsome : ∃ r, codec.response r ≠ [] := by
    by_contra hnone
    have hall : ∀ r, codec.response r = [] := fun r => by_contra fun hr => hnone ⟨r, hr⟩
    have hread : some noResponse = some timedOut := by
      rw [← codec.response_read noResponse, ← codec.response_read timedOut, hall, hall]
    exact absurd (Option.some.inj hread) (by decide)
  obtain ⟨r, hr⟩ := hsome
  exact codec.response_cut r [] (List.nil_prefix) fun h => hr h.symm

/-- **What a client reads is what was answered.** -/
theorem Converses.read (h : Converses codec history served i v) (hr : codec.parseResponse v.reply = some r) :
    Genuine history served i r := by
  rcases h.reply with hnil | ⟨r', n, hcut, hgenuine⟩
  · rw [hnil, parseResponse_nil] at hr
    cases hr
  · by_cases hwhole : v.reply = codec.response r'
    · rw [hwhole, codec.response_read] at hr
      exact Option.some.inj hr ▸ hgenuine
    · rw [codec.response_cut r' v.reply (hcut ▸ List.take_prefix n _) hwhole] at hr
      cases hr

/-- An answer of the loop reaches its conversation. -/
theorem Converses.told (h : Converses codec history served i v) (hr : Genuine history served i r) :
    Converses codec history served i (v.told r) := by
  unfold Conversation.told
  split
  · rename_i hpc
    have hsubmitted : submitted v = true := by
      unfold submitted
      rw [hpc]
    refine ⟨h.bytes, h.short, fun hnot => ?_, h.queueing, ?_, h.replying, h.reply, h.outcome⟩
    · exact absurd (hsubmitted.symm.trans hnot) (by decide)
    · intro r' hr'
      exact Option.some.inj hr' ▸ hr
  · exact h

end Converses

/-! ## One conversation's steps -/

/-- What no step changes about a conversation. -/
structure Moves (v v' : Conversation H) : Prop where
  payload : v'.payload = v.payload
  outcome : ∀ o, v.outcome = some o → v'.outcome = some o
  kept : submitted v = true → submitted v' = true ∧ v'.buf = v.buf

theorem Moves.refl (v : Conversation H) : Moves v v := ⟨rfl, fun _ h => h, fun h => ⟨h, rfl⟩⟩

theorem Moves.trans {v v' v'' : Conversation H} (h : Moves v v') (h' : Moves v' v'') : Moves v v'' := by
  refine ⟨h'.payload.trans h.payload, fun o ho => h'.outcome o (h.outcome o ho), fun hs => ?_⟩
  obtain ⟨hs', hbuf⟩ := h.kept hs
  obtain ⟨hs'', hbuf'⟩ := h'.kept hs'
  exact ⟨hs'', hbuf'.trans hbuf⟩

theorem moves_told (v : Conversation H) (r : IpcResponse) : Moves v (v.told r) := by
  unfold Conversation.told
  split
  · exact ⟨rfl, fun _ h => h, fun h => ⟨h, rfl⟩⟩
  · exact .refl v

theorem atConn_some {i : Nat} {f : Conversation H → Option (Conversation H)} (h : d.atConn i f = some d') :
    ∃ v v', d.conns[i]? = some v ∧ f v = some v' ∧ d' = { d with conns := d.conns.set i v' } := by
  unfold IpcDaemon.atConn at h
  split at h
  · rename_i v hi
    obtain ⟨v', hv', rfl⟩ := Option.map_eq_some_iff.mp h
    exact ⟨v, v', hi, hv', rfl⟩
  · cases h

theorem getElem?_of_set {A : Type} {vs : List A} {i j : Nat} {v u : A}
    (h : (vs.set i v)[j]? = some u) : (j = i ∧ u = v) ∨ (j ≠ i ∧ vs[j]? = some u) := by
  by_cases hji : j = i
  · subst hji
    obtain ⟨hlt, heq⟩ := List.getElem?_eq_some_iff.mp h
    rw [List.getElem_set_self] at heq
    exact .inl ⟨rfl, heq.symm⟩
  · rw [List.getElem?_set_ne (Ne.symm hji)] at h
    exact .inr ⟨hji, h⟩

theorem getElem?_of_append {A : Type} {vs : List A} {j : Nat} {v u : A}
    (h : (vs ++ [v])[j]? = some u) : vs[j]? = some u ∨ u = v := by
  rw [List.getElem?_append] at h
  split at h
  · exact .inl h
  · exact .inr (List.mem_singleton.mp (List.mem_of_getElem? h))

/-- Every conversation has moved, and there may be new ones. -/
def Follow (vs vs' : List (Conversation H)) : Prop :=
  ∀ (j : Nat) (u : Conversation H), vs[j]? = some u → ∃ u' : Conversation H, vs'[j]? = some u' ∧ Moves u u'

theorem Follow.refl (vs : List (Conversation H)) : Follow vs vs := fun _ u hj => ⟨u, hj, .refl u⟩

theorem Follow.trans {vs vs' vs'' : List (Conversation H)} (h : Follow vs vs') (h' : Follow vs' vs'') :
    Follow vs vs'' := by
  intro j u hj
  obtain ⟨u', hu', hmoves⟩ := h j u hj
  obtain ⟨u'', hu'', hmoves'⟩ := h' j u' hu'
  exact ⟨u'', hu'', hmoves.trans hmoves'⟩

theorem follow_append (vs new : List (Conversation H)) : Follow vs (vs ++ new) :=
  fun _ u hj => ⟨u, (List.getElem?_append_left (List.getElem?_eq_some_iff.mp hj).1).trans hj, .refl u⟩

theorem follow_set {vs : List (Conversation H)} {i : Nat} {v v' : Conversation H} (hi : vs[i]? = some v)
    (hmoves : Moves v v') : Follow vs (vs.set i v') := by
  intro j u hj
  by_cases hji : j = i
  · subst hji
    rw [hi] at hj
    cases hj
    exact ⟨v', List.getElem?_set_self (List.getElem?_eq_some_iff.mp hi).1, hmoves⟩
  · exact ⟨u, by rw [List.getElem?_set_ne (Ne.symm hji)]; exact hj, .refl u⟩

section Invariant

variable {codec : IpcCodec H} {first : DaemonView} {i : Nat} {v v' : Conversation H}

/-- Who is served is there, in a list of conversations in which each has moved. -/
theorem Orderly.served_moved (h : Orderly codec first d) {conns : List (Conversation H)}
    (hmoved : Follow d.conns conns) :
    ∀ j ∈ servedBy d, ∃ u, conns[j]? = some u ∧ submitted u = true := by
  intro j hj
  obtain ⟨u, hu, hs⟩ := h.served j hj
  obtain ⟨u', hu', hmoves⟩ := hmoved j u hu
  exact ⟨u', hu', (hmoves.kept hs).1⟩

theorem mem_servedBy {j : Nat} {command : IpcCommand H}
    (h : (∃ r, .called (some j) command r ∈ d.history) ∨ .request (some j) command ∈ d.queue) :
      j ∈ servedBy d := by
  rcases h with ⟨r, hmem⟩ | hmem
  · exact List.mem_append_left _ (mem_callers.mpr ⟨command, r, hmem⟩)
  · exact List.mem_append_right _ (List.mem_filterMap.mpr ⟨_, hmem, rfl⟩)

/-- What has been asked stays what it was. -/
theorem Orderly.asked_moved (h : Orderly codec first d) {conns : List (Conversation H)}
    (hmoved : Follow d.conns conns) (j : Nat) (command : IpcCommand H)
    (hasked : (∃ r, .called (some j) command r ∈ d.history) ∨ .request (some j) command ∈ d.queue)
    (u' : Conversation H) (hu' : conns[j]? = some u') : codec.parseCommand u'.buf = some command := by
  obtain ⟨u, hu, hs⟩ := h.served j (mem_servedBy hasked)
  obtain ⟨u'', hu'', hmoves⟩ := hmoved j u hu
  rw [hu'] at hu''
  cases hu''
  rw [(hmoves.kept hs).2]
  exact h.asked j command hasked u hu

/-- **One conversation moves.** -/
theorem Orderly.setConn (h : Orderly codec first d) (hi : d.conns[i]? = some v) (hmoves : Moves v v')
    (hv : Converses codec d.history (servedBy d) i v') :
    Orderly codec first { d with conns := d.conns.set i v' } := by
  have hmoved : Follow d.conns (d.conns.set i v') := follow_set hi hmoves
  refine ⟨h.aligned, h.codes, h.active, h.replays, h.once, h.served_moved hmoved,
    h.asked_moved hmoved, h.parked, ?_⟩
  intro j u hj
  rcases getElem?_of_set hj with ⟨rfl, rfl⟩ | ⟨-, hold⟩
  · exact hv
  · exact h.converses j u hold

/-- A conversation comes about. -/
theorem Orderly.accept (h : Orderly codec first d) (payload : List UInt8) :
    Orderly codec first { d with conns := d.conns ++ [.accepted payload] } := by
  have hmoved : Follow d.conns (d.conns ++ [.accepted payload]) := follow_append _ _
  refine ⟨h.aligned, h.codes, h.active, h.replays, h.once, h.served_moved hmoved,
    h.asked_moved hmoved, h.parked, ?_⟩
  intro j u hj
  rcases getElem?_of_append hj with hold | rfl
  · exact h.converses j u hold
  · exact converses_accepted payload

/-- What the loop reports is what the sequential daemon would. -/
theorem Orderly.report (h : Orderly codec first d) :
    ⟨d.view.code.isSome, d.view.code.bind wormholeCode, d.view.sessions⟩ = d.report := by
  have hsome : d.activeCode.isSome = d.server.active.isSome := by
    unfold IpcDaemon.activeCode
    cases hactive : d.server.active with
    | none => rfl
    | some w =>
        have hw : w < d.codes.length := by
          rw [h.codes]
          exact h.active w hactive
        show d.codes[w]?.isSome = true
        rw [List.getElem?_eq_getElem hw]
        rfl
  exact congrArg (StatusReport.mk · _ _) hsome

theorem modify_eq_set {A : Type} {vs : List A} {i : Nat} {v : A} (f : A → A) (hi : vs[i]? = some v) :
    vs.modify i f = vs.set i (f v) := by
  refine List.ext_getElem? fun j => ?_
  by_cases hij : i = j
  · subst hij
    rw [List.getElem?_modify_eq, hi, List.getElem?_set_self (List.getElem?_eq_some_iff.mp hi).1]
    rfl
  · rw [List.getElem?_modify_ne f vs hij, List.getElem?_set_ne hij]

/-- **An answer of the loop goes out.** -/
theorem Orderly.tell (h : Orderly codec first d) {sender : Option Nat} {r : IpcResponse}
    (hr : ∀ i, sender = some i → ∃ command, .called (some i) command r ∈ d.history) :
    Orderly codec first (d.tell sender r) := by
  cases sender with
  | none => exact h
  | some i =>
      obtain ⟨command, hmem⟩ := hr i rfl
      obtain ⟨v, hi, -⟩ := h.served i (mem_servedBy (.inl ⟨r, hmem⟩))
      show Orderly codec first { d with conns := d.conns.modify i (Conversation.told r) }
      rw [modify_eq_set _ hi]
      exact h.setConn hi (moves_told v r) ((h.converses i v hi).told (.inl ⟨command, hmem⟩))

end Invariant

/-! ## The steps of the ends -/

section Ends

variable {codec : IpcCodec H} {history : List (Entry (Option Nat) (IpcCommand H) IpcResponse OwnChange)}
  {served : List Nat} {i : Nat} {v v' : Conversation H}

/-- Bytes move on towards the daemon. -/
theorem Converses.bytesMove (h : Converses codec history served i v) {unsent socket : List UInt8}
    {closed gone : Bool} (hbytes : v.buf ++ socket ++ unsent = v.payload) :
    Converses codec history served i
      { v with unsent := unsent, socket := socket, closed := closed, gone := gone } :=
  ⟨hbytes, h.short, h.new, h.queueing, h.oneshot, h.replying, h.reply, h.outcome⟩

/-- The handler gives an answer. -/
theorem Converses.replies (h : Converses codec history served i v) {r : IpcResponse}
    (hr : Genuine history served i r) : Converses codec history served i { v with pc := .replying r } := by
  refine ⟨h.bytes, h.short, fun hnot => ?_, fun _ hpc => ?_, h.oneshot, fun r' hpc => ?_, h.reply, h.outcome⟩
  · cases hnot
  · cases hpc
  · cases hpc
    exact hr

/-- The handler returns. -/
theorem Converses.ends (h : Converses codec history served i v) {reply : List UInt8}
    (hr : reply = [] ∨ ∃ r n, reply = (codec.response r).take n ∧ Genuine history served i r) :
    Converses codec history served i { v with reply := reply, pc := .returned } := by
  refine ⟨h.bytes, h.short, fun hnot => ?_, fun _ hpc => ?_, h.oneshot, fun _ hpc => ?_, hr, h.outcome⟩
  · cases hnot
  · cases hpc
  · cases hpc

theorem submitted_pc {pc : HandlerPc H} (h : submitted v = true) (hpc : v.pc = pc)
    (hnot : pc = .reading ∨ ∃ command, pc = .queueing command) : False := by
  unfold submitted at h
  rcases hnot with rfl | ⟨command, rfl⟩
  · rw [hpc] at h
    cases h
  · rw [hpc] at h
    cases h

/-- The handler goes on, with the outcome left as it is. -/
theorem moves_on {pc : HandlerPc H} {reply : List UInt8} (hs : submitted { v with pc := pc } = true) :
    Moves v { v with reply := reply, pc := pc } :=
  ⟨rfl, fun _ h => h, fun _ => ⟨hs, rfl⟩⟩

end Ends

/-- The events of a single conversation, other than putting its command on the control channel. -/
def isLocal : IpcAct K H P → Bool
  | .write _ _ | .shutdown _ | .leave _ | .read _ _ | .parse _ | .requestTimeout _ | .answer _
  | .commandTimeout _
  | .reply _ _ | .receive _ | .fail _ => true
  | _ => false

section AtConn

variable {codec : IpcCodec H} {first : DaemonView}

/-- A step of one conversation, from what it does to the conversation. -/
theorem Orderly.atConn (h : Orderly codec first d) {i : Nat} {f : Conversation H → Option (Conversation H)}
    (hf : ∀ v v', Converses codec d.history (servedBy d) i v → f v = some v' →
      Moves v v' ∧ Converses codec d.history (servedBy d) i v') (hs : d.atConn i f = some d') :
    ∃ i v v', d.conns[i]? = some v ∧ Moves v v' ∧ Converses codec d.history (servedBy d) i v'
      ∧ d' = { d with conns := d.conns.set i v' } := by
  obtain ⟨v, v', hi, hv, rfl⟩ := atConn_some hs
  obtain ⟨hmoves, hv'⟩ := hf v v' (h.converses i v hi) hv
  exact ⟨i, v, v', hi, hmoves, hv', rfl⟩

end AtConn

section Local

variable [DecidableEq K] [DecidableEq H] {codec : IpcCodec H} {c : Crypto K H P} {first : DaemonView}

/-- **What an end of a conversation does.** -/
theorem Orderly.local {act : IpcAct K H P} (h : Orderly codec first d) (hact : isLocal act = true)
    (hs : d.step codec c act = some d') :
    ∃ i v v', d.conns[i]? = some v ∧ Moves v v' ∧ Converses codec d.history (servedBy d) i v'
      ∧ d' = { d with conns := d.conns.set i v' } := by
  cases act with
  | daemon e => cases hact
  | inProcess command => cases hact
  | accept payload => cases hact
  | enqueue i => cases hact
  | write i n =>
      refine h.atConn ?_ hs
      intro v v' hk hv
      split at hv <;> cases hv
      refine ⟨⟨rfl, fun _ ho => ho, fun hsub => ⟨hsub, rfl⟩⟩, hk.bytesMove ?_⟩
      rw [← hk.bytes, List.append_assoc v.buf, List.append_assoc v.buf, List.append_assoc v.socket,
        List.take_append_drop]
  | shutdown i =>
      refine h.atConn ?_ hs
      intro v v' hk hv
      split at hv <;> cases hv
      exact ⟨⟨rfl, fun _ ho => ho, fun hsub => ⟨hsub, rfl⟩⟩, hk.bytesMove hk.bytes⟩
  | leave i =>
      refine h.atConn ?_ hs
      intro v v' hk hv
      split at hv <;> cases hv
      exact ⟨⟨rfl, fun _ ho => ho, fun hsub => ⟨hsub, rfl⟩⟩, hk.bytesMove hk.bytes⟩
  | read i n =>
      refine h.atConn ?_ hs
      intro v v' hk hv
      split at hv
      · rename_i hread
        obtain ⟨hpc, -, hn, hroom⟩ := hread
        cases hv
        refine ⟨⟨rfl, fun _ ho => ho, fun hsub => (submitted_pc hsub hpc (.inl rfl)).elim⟩, ?_⟩
        refine ⟨?_, ?_, hk.new, fun command hq => ?_, hk.oneshot, hk.replying, hk.reply, hk.outcome⟩
        · rw [← hk.bytes, List.append_assoc v.buf (v.socket.take n), List.take_append_drop]
        · rw [List.length_append, List.length_take]
          omega
        · rw [hpc] at hq
          cases hq
      · cases hv
  | parse i =>
      refine h.atConn ?_ hs
      intro v v' hk hv
      split at hv
      · rename_i hread
        have hmoved : ∀ v' : Conversation H, v'.payload = v.payload → v'.outcome = v.outcome → Moves v v' :=
          fun v' hp ho => ⟨hp, fun o h => ho.trans h, fun hsub => (submitted_pc hsub hread.1 (.inl rfl)).elim⟩
        split at hv
        · rename_i command hparse
          cases hv
          refine ⟨hmoved _ rfl rfl, ?_⟩
          refine ⟨hk.bytes, hk.short, fun _ => hk.new ?_, fun command' hq => ?_, hk.oneshot, fun r hq => ?_,
            hk.reply, hk.outcome⟩
          · unfold submitted
            rw [hread.1]
          · cases hq
            exact hparse
          · cases hq
        · cases hv
          exact ⟨hmoved _ rfl rfl, hk.ends hk.reply⟩
      · cases hv
  | requestTimeout i =>
      refine h.atConn ?_ hs
      intro v v' hk hv
      split at hv <;> cases hv
      exact ⟨moves_on rfl, hk.ends hk.reply⟩
  | answer i =>
      refine h.atConn ?_ hs
      intro v v' hk hv
      split at hv
      · split at hv
        · rename_i r hr
          cases hv
          exact ⟨moves_on rfl, hk.replies (hk.oneshot r hr)⟩
        · split at hv <;> cases hv
          exact ⟨moves_on rfl, hk.replies (.inr (.inl rfl))⟩
      · cases hv
  | commandTimeout i =>
      refine h.atConn ?_ hs
      intro v v' hk hv
      split at hv <;> cases hv
      exact ⟨moves_on rfl, hk.replies (.inr (.inr (.inl rfl)))⟩
  | reply i n =>
      refine h.atConn ?_ hs
      intro v v' hk hv
      split at hv
      · rename_i r hpc
        cases hv
        exact ⟨moves_on rfl, hk.ends (.inr ⟨r, n, rfl, hk.replying r hpc⟩)⟩
      · cases hv
  | receive i =>
      refine h.atConn ?_ hs
      intro v v' hk hv
      split at hv
      · rename_i hover
        obtain ⟨hpc, -, -, hnone⟩ := hover
        cases hv
        refine ⟨⟨rfl, fun o ho => ?_, fun hsub => ⟨hsub, rfl⟩⟩, ?_⟩
        · rw [hnone] at ho
          cases ho
        · refine ⟨hk.bytes, hk.short, fun hnot => ?_, hk.queueing, hk.oneshot, hk.replying, hk.reply,
            fun r hr => ?_⟩
          · unfold submitted at hnot
            rw [hpc] at hnot
            cases hnot
          · split at hr
            · rename_i r' hread
              cases hr
              exact hk.read hread
            · cases hr
      · cases hv
  | fail i =>
      refine h.atConn ?_ hs
      intro v v' hk hv
      split at hv
      · rename_i hover
        obtain ⟨hpc, -, hnone⟩ := hover
        cases hv
        refine ⟨⟨rfl, fun o ho => ?_, fun hsub => ⟨hsub, rfl⟩⟩, ?_⟩
        · rw [hnone] at ho
          cases ho
        · refine ⟨hk.bytes, hk.short, fun hnot => ?_, hk.queueing, hk.oneshot, hk.replying, hk.reply,
            fun r hr => ?_⟩
          · unfold submitted at hnot
            rw [hpc] at hnot
            cases hnot
          · cases hr
      · cases hv

end Local

/-! ## The steps of the loop -/

theorem tell_server (sender : Option Nat) (r : IpcResponse) (d : IpcDaemon K H P) :
    (d.tell sender r).server = d.server := by
  cases sender with
  | none => rfl
  | some i => rfl

theorem handled_server (d : IpcDaemon K H P) (rest : List (Message H)) (s : Server K H P) (m : Message H) :
    (d.handled rest s m).server = s := by
  cases m with
  | expired w => rfl
  | request sender command =>
      cases command with
      | shutdown => rfl
      | _ => exact tell_server sender _ _

section Handling

variable {codec : IpcCodec H} {first : DaemonView} {s : Server K H P}

/-- **The loop handles a command.** The answer is the one of `sequentialDaemon`, given or still to be
given. -/
theorem Orderly.called (h : Orderly codec first d) {sender : Option Nat} {command : IpcCommand H}
    {rest : List (Message H)} {codes : List (List Char)} {parked : Option Nat} {r : IpcResponse}
    (hqueue : d.queue = .request sender command :: rest) (hcontrol : s.controlQ = rest.map Message.control)
    (hcodes : codes.length = s.heap.length) (hactive : ∀ w, s.active = some w → w < s.heap.length)
    (hview : (⟨s.active.bind (codes[·]?), s.activeSessions, s.shutdownRequested⟩ : DaemonView)
      = ((sequentialDaemon H).call d.view command).1)
    (hr : ((sequentialDaemon H).call d.view command).2 = r)
    (hparked : ∀ i, parked = some i → d.parked = some i ∨ sender = some i ∧ command = .shutdown ∧ r = .ok) :
    Orderly codec first { d with
      server := s
      codes := codes
      queue := rest
      parked := parked
      history := d.history ++ [.called sender command r] } := by
  have hgrown : d.history <+: d.history ++ [.called sender command r] := List.prefix_append _ _
  -- the sender moves from the head of the queue to the end of the history
  have hserved :
      callers (d.history ++ [.called sender command r]) ++ rest.filterMap sender? = servedBy d := by
    rw [servedBy, hqueue, callers_append, List.append_assoc]
    cases sender with
    | none => rfl
    | some i => rfl
  have hasked : ∀ i command', (∃ r', .called (some i) command' r' ∈ d.history ++ [.called sender command r])
      ∨ .request (some i) command' ∈ rest →
      (∃ r', .called (some i) command' r' ∈ d.history) ∨ .request (some i) command' ∈ d.queue := by
    rintro i command' (⟨r', hmem⟩ | hmem)
    · rcases List.mem_append.mp hmem with hold | hlast
      · exact .inl ⟨r', hold⟩
      · cases List.mem_singleton.mp hlast
        exact .inr (hqueue ▸ List.mem_cons_self)
    · exact .inr (hqueue ▸ List.mem_cons_of_mem _ hmem)
  refine ⟨hcontrol, hcodes, hactive, ?_, ?_, ?_, ?_, ?_, ?_⟩
  · show replay _ _ (d.history ++ _) = some (⟨s.active.bind (codes[·]?), _, _⟩ : DaemonView)
    rw [hview, ← hr]
    exact replay_called h.replays
  · exact (congrArg List.Nodup hserved).mpr h.once
  · exact fun i hi => h.served i (hserved ▸ hi)
  · exact fun i command' h' => h.asked i command' (hasked i command' h')
  · intro i hi
    rcases hparked i hi with hold | ⟨rfl, rfl, rfl⟩
    · exact hgrown.subset (h.parked i hold)
    · exact List.mem_append_right _ List.mem_cons_self
  · intro i v hi
    exact (h.converses i v hi).mono hgrown fun hnot hmem => hnot (hserved ▸ hmem)

/-- **A step of the loop's own.** -/
theorem Orderly.unasked (h : Orderly codec first d) {rest : List (Message H)} (hs : Unasked d.server s)
    (hrest : rest.filterMap sender? = d.queue.filterMap sender?)
    (hqueue : ∀ i command, Message.request (some i) command ∈ rest →
      Message.request (some i) command ∈ d.queue)
    (hcontrol : s.controlQ = rest.map Message.control) :
    Orderly codec first { d with
      server := s, queue := rest, history := d.history ++ (ownChanges d.server s).map .changed } := by
  have hgrown : d.history <+: d.history ++ (ownChanges d.server s).map .changed := List.prefix_append _ _
  have hserved : callers (d.history ++ (ownChanges d.server s).map .changed) ++ rest.filterMap sender?
      = servedBy d := by
    rw [servedBy, callers_append, callers_changed, List.append_nil, hrest]
  refine ⟨hcontrol, h.codes.trans hs.heap.symm, hs.bound h.active, ?_, ?_, ?_, ?_, ?_, ?_⟩
  · show replay _ _ (d.history ++ _) = some { d with server := s }.view
    rw [← view_unasked hs]
    exact replay_changed h.replays
  · exact (congrArg List.Nodup hserved).mpr h.once
  · exact fun i hi => h.served i (hserved ▸ hi)
  · rintro i command (⟨r, hmem⟩ | hmem)
    · refine h.asked i command (.inl ⟨r, ?_⟩)
      refine (List.mem_append.mp hmem).resolve_right fun hnew => ?_
      obtain ⟨o, -, ho⟩ := List.mem_map.mp hnew
      cases ho
    · exact h.asked i command (.inr (hqueue i command hmem))
  · exact fun i hi => hgrown.subset (h.parked i hi)
  · intro i v hi
    exact (h.converses i v hi).mono hgrown fun hnot hmem => hnot (hserved ▸ hmem)

theorem ownChanges_nil {s s' : Server K H P} (hactive : s'.active = s.active)
    (hsessions : s'.activeSessions = s.activeSessions)
    (hstopping : s'.shutdownRequested = s.shutdownRequested) :
    ownChanges s s' = [] := by
  unfold ownChanges
  rw [hactive, hsessions, hstopping, if_neg fun h => h.1 h.2, if_neg fun h => h rfl, if_neg fun h => h.2 h.1]
  rfl

/-- A step that only moves the loop. -/
theorem Orderly.moves (h : Orderly codec first d) (hs : Unasked d.server s)
    (hactive : s.active = d.server.active) (hsessions : s.activeSessions = d.server.activeSessions)
    (hstopping : s.shutdownRequested = d.server.shutdownRequested) :
    Orderly codec first { d with server := s } := by
  have hstep := h.unasked hs rfl (fun _ _ hmem => hmem) (hs.controlQ.trans h.aligned)
  rw [ownChanges_nil hactive hsessions hstopping, List.map_nil, List.append_nil] at hstep
  exact hstep

theorem takeWormhole_view (s : Server K H P) : s.takeWormhole.active = none
    ∧ s.takeWormhole.activeSessions = s.activeSessions
      ∧ s.takeWormhole.shutdownRequested = s.shutdownRequested := by
  unfold takeWormhole
  split
  · rename_i hactive
    exact ⟨hactive, rfl, rfl⟩
  · exact ⟨rfl, rfl, rfl⟩

theorem called_last (history : List (Entry (Option Nat) (IpcCommand H) IpcResponse OwnChange))
    (sender : Option Nat) (command : IpcCommand H) (r : IpcResponse) (i : Nat) (hi : sender = some i) :
    ∃ command', .called (some i) command' r ∈ history ++ [.called sender command r] :=
  ⟨command, List.mem_append_right _ (hi ▸ List.mem_singleton_self _)⟩

/-- **The arms of the loop's `match msg`.** -/
theorem Orderly.handled (h : Orderly codec first d) {m : Message H} {rest : List (Message H)}
    (hqueue : d.queue = m :: rest) :
    Orderly codec first
      (d.handled rest ({ d.server with controlQ := rest.map Message.control }.handleControl m.control)
        m) := by
  have htake := unasked_takeWormhole { d.server with controlQ := rest.map Message.control }
  obtain ⟨hactive, hsessions, hstopping⟩ :=
    takeWormhole_view { d.server with controlQ := rest.map Message.control }
  cases m with
  | expired w =>
      have hs : Unasked { d.server with controlQ := rest.map Message.control }
          ({ d.server with controlQ := rest.map Message.control }.clearFor w) := unasked_clearFor w _
      have hfilter : rest.filterMap sender? = d.queue.filterMap sender? := by
        rw [hqueue]
        rfl
      -- the message itself is off the channel
      have hcut :
          Orderly codec first { d with server.controlQ := rest.map Message.control, queue := rest } := by
        refine ⟨rfl, h.codes, h.active, h.replays, ?_, ?_, ?_, h.parked, ?_⟩
        · exact (congrArg List.Nodup (congrArg (callers d.history ++ ·) hfilter)).mpr h.once
        · exact fun i hi => h.served i ((congrArg (i ∈ callers d.history ++ ·) hfilter).mp hi)
        · intro i command hasked
          exact h.asked i command (hasked.imp_right fun hmem => hqueue ▸ List.mem_cons_of_mem _ hmem)
        · intro i v hi
          exact (h.converses i v hi).mono (List.prefix_refl _)
            fun hnot hmem => hnot ((congrArg (i ∈ callers d.history ++ ·) hfilter).mp hmem)
      exact hcut.unasked (hs.moves .bottom) rfl (fun _ _ hmem => hmem) (hs.moves .bottom).controlQ
  | request sender command =>
      cases command with
      | enableWormhole code password persistent =>
          have hindex : (d.codes ++ [code])[d.server.heap.length]? = some code := by
            rw [← h.codes]
            exact List.getElem?_concat_length
          refine Orderly.tell ?_ (called_last _ sender _ _)
          refine h.called hqueue htake.controlQ ?_ (fun w hw => ?_) ?_ rfl fun _ hi => .inl hi
          · show (d.codes ++ [code]).length = (_ ++ [_]).length
            rw [List.length_append, List.length_append, h.codes, htake.heap]
            rfl
          · show w < (_ ++ [_]).length
            rw [← Option.some.inj hw, List.length_append]
            exact Nat.lt_succ_self _
          · show (⟨(d.codes ++ [code])[Server.takeWormhole _ |>.heap.length]?,
                Server.takeWormhole _ |>.activeSessions,
              Server.takeWormhole _ |>.shutdownRequested⟩ : DaemonView) = _
            rw [htake.heap, hindex, hsessions, hstopping]
            rfl
      | disableWormhole =>
          refine Orderly.tell ?_ (called_last _ sender _ _)
          refine h.called hqueue htake.controlQ (h.codes.trans htake.heap.symm)
            (htake.bound h.active) ?_ rfl fun _ hi => .inl hi
          show (⟨(Server.takeWormhole _).active.bind _, (Server.takeWormhole _).activeSessions,
            (Server.takeWormhole _).shutdownRequested⟩ : DaemonView) = _
          rw [hactive, hsessions, hstopping]
          rfl
      | getStatus =>
          refine Orderly.tell ?_ (called_last _ sender _ _)
          exact h.called hqueue rfl h.codes h.active rfl
            (congrArg IpcResponse.status h.report) fun _ hi => .inl hi
      | shutdown =>
          exact h.called hqueue rfl h.codes h.active rfl rfl fun _ hi => .inr ⟨hi, rfl, rfl⟩

/-- The loop passes nobody's shutdown on any more. -/
theorem Orderly.unpark (h : Orderly codec first d) : Orderly codec first { d with parked := none } :=
  ⟨h.aligned, h.codes, h.active, h.replays, h.once, h.served, h.asked, (fun _ hi => by cases hi), h.converses⟩

end Handling

section LoopSteps

variable [DecidableEq K] {codec : IpcCodec H} {c : Crypto K H P} {first : DaemonView} {s : Server K H P}

theorem command_step {r : Request H} (h : d.server.step c (.command r) = some s) :
    s = { d.server with controlQ := d.server.controlQ ++ [.request r] } := by
  simp only [step] at h
  split at h <;> cases h
  rfl

theorem expire_step {w : Nat} (h : d.server.step c (.expire w) = some s) :
    s = { d.server with
      heap := d.server.heap.modify w Wormhole.disarm, controlQ := d.server.controlQ ++ [.expired w] } := by
  simp only [step] at h
  split at h
  · split at h <;> cases h
    rfl
  · cases h

theorem recvControl_step {m : Control H} {rest : List (Control H)} (hq : d.server.controlQ = m :: rest)
    (h : d.server.step c .recvControl = some s) : s = { d.server with controlQ := rest }.handleControl m := by
  simp only [step] at h
  split at h
  · rename_i m' rest' _ hq'
    rw [hq] at hq'
    cases hq'
    exact (Option.some.inj h).symm
  · cases h

/-- A command goes on the control channel, and nobody waits for its answer. -/
theorem Orderly.inProcess (h : Orderly codec first d) {command : IpcCommand H}
    (hs : d.put c none command = some d') : Orderly codec first d' := by
  obtain ⟨s, hstep, rfl⟩ := Option.map_eq_some_iff.mp hs
  have hq : (d.queue ++ [Message.request none command]).filterMap sender? = d.queue.filterMap sender? := by
    rw [List.filterMap_append]
    exact List.append_nil _
  have hserved : servedBy { d with server := s, queue := d.queue ++ [.request none command] } = servedBy d :=
    congrArg (callers d.history ++ ·) hq
  rw [command_step hstep] at hserved ⊢
  refine ⟨?_, h.codes, h.active, h.replays, hserved ▸ h.once, hserved ▸ h.served, ?_, h.parked, ?_⟩
  · show d.server.controlQ ++ _ = _
    rw [h.aligned, List.map_append]
    rfl
  · intro i command' hasked
    refine h.asked i command' (hasked.imp_right fun hmem => ?_)
    refine (List.mem_append.mp hmem).resolve_right fun hnew => ?_
    cases List.mem_singleton.mp hnew
  · rw [hserved]
    exact h.converses

/-- An expiry task sends its message. -/
theorem Orderly.expire (h : Orderly codec first d) {w : Nat} (hs : d.server.step c (.expire w) = some s) :
    Orderly codec first { d with server := s, queue := d.queue ++ [.expired w] } := by
  have hq : (d.queue ++ [Message.expired w]).filterMap sender? = d.queue.filterMap sender? := by
    rw [List.filterMap_append]
    exact List.append_nil _
  have hserved : servedBy { d with server := s, queue := d.queue ++ [.expired w] } = servedBy d :=
    congrArg (callers d.history ++ ·) hq
  rw [expire_step hs] at hserved ⊢
  refine ⟨?_, ?_, ?_, h.replays, hserved ▸ h.once, hserved ▸ h.served, ?_, h.parked, ?_⟩
  · show d.server.controlQ ++ _ = _
    rw [h.aligned, List.map_append]
    rfl
  · exact h.codes.trans (List.length_modify _ _ _).symm
  · exact fun w hw => (h.active w hw).trans_eq (List.length_modify _ _ _).symm
  · intro i command' hasked
    refine h.asked i command' (hasked.imp_right fun hmem => ?_)
    refine (List.mem_append.mp hmem).resolve_right fun hnew => ?_
    cases List.mem_singleton.mp hnew
  · rw [hserved]
    exact h.converses

/-- **A command goes from its handler onto the control channel.** -/
theorem Orderly.enqueue (h : Orderly codec first d) {i : Nat} {v : Conversation H} {command : IpcCommand H}
    (hi : d.conns[i]? = some v) (hpc : v.pc = .queueing command) (hs : d.put c (some i) command = some d') :
    Orderly codec first { d' with conns := d'.conns.set i { v with pc := .waiting } } := by
  obtain ⟨s, hstep, rfl⟩ := Option.map_eq_some_iff.mp hs
  have hk := h.converses i v hi
  have hnew : i ∉ servedBy d := by
    intro hmem
    obtain ⟨u, hu, hsub⟩ := h.served i hmem
    rw [hi] at hu
    cases hu
    exact submitted_pc hsub hpc (.inr ⟨command, rfl⟩)
  have hmoves : Moves v { v with pc := .waiting } :=
    ⟨rfl, fun _ ho => ho, fun hsub => (submitted_pc hsub hpc (.inr ⟨command, rfl⟩)).elim⟩
  have hfollow : Follow d.conns (d.conns.set i { v with pc := .waiting }) := follow_set hi hmoves
  have hset : (d.conns.set i { v with pc := .waiting })[i]? = some { v with pc := .waiting } :=
    List.getElem?_set_self (List.getElem?_eq_some_iff.mp hi).1
  have hserved : callers d.history ++ (d.queue ++ [Message.request (some i) command]).filterMap sender?
      = servedBy d ++ [i] := by
    rw [List.filterMap_append, ← List.append_assoc]
    rfl
  rw [command_step hstep]
  refine ⟨?_, h.codes, h.active, h.replays, ?_, ?_, ?_, h.parked, ?_⟩
  · show d.server.controlQ ++ _ = _
    rw [h.aligned, List.map_append]
    rfl
  · show (callers d.history ++ (d.queue ++ [Message.request (some i) command]).filterMap sender?).Nodup
    rw [hserved]
    exact List.nodup_append.mpr ⟨h.once, List.nodup_singleton i,
      fun a ha b hb heq => hnew (List.mem_singleton.mp hb ▸ heq ▸ ha)⟩
  · intro j hj
    rcases List.mem_append.mp (hserved ▸ hj : j ∈ servedBy d ++ [i]) with hold | hlast
    · exact h.served_moved hfollow j hold
    · rw [List.mem_singleton.mp hlast]
      exact ⟨_, hset, rfl⟩
  · intro j command' hasked u hu
    by_cases hji : j = i
    · subst hji
      rw [hset] at hu
      cases hu
      -- nothing was asked for `i` before
      have hlast : command' = command := by
        rcases hasked with hcalled | hmem
        · exact absurd (mem_servedBy (d := d) (.inl hcalled)) hnew
        · rcases List.mem_append.mp hmem with hold | hlast
          · exact absurd (mem_servedBy (d := d) (.inr hold)) hnew
          · cases List.mem_singleton.mp hlast
            rfl
      rw [hlast]
      exact hk.queueing command hpc
    · refine h.asked_moved hfollow j command' (hasked.imp_right fun hmem => ?_) u hu
      refine (List.mem_append.mp hmem).resolve_right fun hlast => hji ?_
      cases List.mem_singleton.mp hlast
      rfl
  · intro j u hj
    show Converses codec d.history (callers d.history
        ++ (d.queue ++ [Message.request (some i) command]).filterMap sender?) j u
    rw [hserved]
    rcases getElem?_of_set hj with ⟨rfl, rfl⟩ | ⟨hji, hold⟩
    · -- it has been told nothing yet
      obtain ⟨hone, hreply, hout⟩ := hk.new (by unfold submitted; rw [hpc])
      refine ⟨hk.bytes, hk.short, fun hnot => ?_, fun _ hq => ?_, fun r hr => ?_, fun _ hq => ?_,
        .inl hreply, fun r hr => ?_⟩
      · cases hnot
      · cases hq
      · exact absurd (hone.symm.trans hr) (by simp)
      · cases hq
      · exact absurd (hout.symm.trans hr) (by simp)
    · refine (h.converses j u hold).mono (List.prefix_refl _) fun hnot hmem => ?_
      rcases List.mem_append.mp hmem with hmem | hlast
      · exact hnot hmem
      · exact hji (List.mem_singleton.mp hlast)

/-- Any event of the loop's own, but the end of `ipc_shutdown_tx.send`. -/
theorem daemonStep_unasked {e : ServerEvent K H P} (he : isUnasked e = true) (hsent : e ≠ .ipcSent) :
    d.daemonStep c e = (d.server.step c e).map fun s =>
      { d with server := s, history := d.history ++ (ownChanges d.server s).map .changed } := by
  cases e with
  | command r => cases he
  | recvControl => cases he
  | expire w => cases he
  | ipcSent => exact absurd rfl hsent
  | _ => rfl

/-- The end of `ipc_shutdown_tx.send`. -/
theorem ipcSent_step (h : d.server.step c .ipcSent = some s) : s.active = d.server.active
    ∧ s.activeSessions = d.server.activeSessions ∧ s.shutdownRequested = d.server.shutdownRequested := by
  simp only [step] at h
  split at h
  · split at h
    · cases h; exact ⟨rfl, rfl, rfl⟩
    · split at h <;> cases h
      exact ⟨rfl, rfl, rfl⟩
  · cases h

/-- **Everything else of the daemon.** -/
theorem Orderly.daemon (h : Orderly codec first d) {e : ServerEvent K H P} (hs : d.daemonStep c e = some d') :
    Orderly codec first d' := by
  by_cases hown : isUnasked e = true
  · by_cases hsent : e = .ipcSent
    · subst hsent
      obtain ⟨s, hstep, rfl⟩ := Option.map_eq_some_iff.mp hs
      obtain ⟨hactive, hsessions, hstopping⟩ := ipcSent_step hstep
      have hmoved := (h.moves (unasked_step rfl hstep) hactive hsessions hstopping).unpark
      exact hmoved.tell fun i hi => ⟨.shutdown, h.parked i hi⟩
    · rw [daemonStep_unasked hown hsent] at hs
      obtain ⟨s, hstep, rfl⟩ := Option.map_eq_some_iff.mp hs
      have hunasked := unasked_step hown hstep
      exact h.unasked hunasked rfl (fun _ _ hmem => hmem) (hunasked.controlQ.trans h.aligned)
  · cases e with
    | command r => cases hs
    | expire w =>
        obtain ⟨s, hstep, rfl⟩ := Option.map_eq_some_iff.mp hs
        exact h.expire hstep
    | recvControl =>
        simp only [IpcDaemon.daemonStep] at hs
        split at hs
        · rename_i m rest hqueue
          obtain ⟨s, hstep, rfl⟩ := Option.map_eq_some_iff.mp hs
          have haligned := h.aligned
          rw [hqueue, List.map_cons] at haligned
          rw [recvControl_step haligned hstep]
          exact h.handled hqueue
        · cases hs
    | _ => exact absurd rfl hown

end LoopSteps

/-! ## Runs -/

theorem orderly_start (codec : IpcCodec H) (ipcEnabled shutdownOnWormholeSuccess : Bool)
    (policy : HostKeyPolicy) (dir : ClientsDir K) (shadow : Shadow H) :
    Orderly codec ⟨none, 0, false⟩
      (.start (Server.start ipcEnabled shutdownOnWormholeSuccess policy dir shadow) : IpcDaemon K H P) := by
  refine ⟨rfl, rfl, ?_, rfl, List.nodup_nil, ?_, ?_, ?_, ?_⟩
  · intro w hw; cases hw
  · intro i hi; cases hi
  · rintro i command (⟨r, hmem⟩ | hmem)
    · cases hmem
    · cases hmem
  · intro i hi; cases hi
  · intro i v hi; cases hi

/-- Whatever happens, the history grows and the conversations go on. -/
structure Goes (d d' : IpcDaemon K H P) : Prop where
  history : d.history <+: d'.history
  conns : Follow d.conns d'.conns

theorem Goes.refl (d : IpcDaemon K H P) : Goes d d := ⟨List.prefix_refl _, .refl _⟩

theorem Goes.trans {d₁ : IpcDaemon K H P} (h : Goes d d₁) (h' : Goes d₁ d') : Goes d d' :=
  ⟨h.history.trans h'.history, h.conns.trans h'.conns⟩

theorem Goes.tell (h : Goes d d') (sender : Option Nat) (r : IpcResponse) : Goes d (d'.tell sender r) := by
  refine h.trans ?_
  cases sender with
  | none => exact .refl d'
  | some i =>
      refine ⟨List.prefix_refl _, fun j u hj => ?_⟩
      show ∃ u', (d'.conns.modify i (Conversation.told r))[j]? = some u' ∧ Moves u u'
      by_cases hij : i = j
      · subst hij
        exact ⟨u.told r, by rw [List.getElem?_modify_eq, hj]; rfl, moves_told u r⟩
      · exact ⟨u, by rw [List.getElem?_modify_ne _ _ hij]; exact hj, .refl u⟩

theorem goes_handled (d : IpcDaemon K H P) (rest : List (Message H)) (s : Server K H P) (m : Message H) :
    Goes d (d.handled rest s m) := by
  cases m with
  | expired w => exact ⟨List.prefix_append _ _, .refl _⟩
  | request sender command =>
      cases command with
      | shutdown => exact ⟨List.prefix_append _ _, .refl _⟩
      | _ =>
          show Goes d (IpcDaemon.tell sender _ _)
          refine Goes.tell ?_ sender _
          exact ⟨List.prefix_append _ _, .refl _⟩

theorem goes_daemonStep [DecidableEq K] {c : Crypto K H P} {e : ServerEvent K H P}
    (hs : d.daemonStep c e = some d') : Goes d d' := by
  by_cases hown : isUnasked e = true
  · by_cases hsent : e = .ipcSent
    · subst hsent
      obtain ⟨s, -, rfl⟩ := Option.map_eq_some_iff.mp hs
      have hgoes : Goes d { d with server := s, parked := none } := ⟨List.prefix_refl _, .refl _⟩
      exact hgoes.tell d.parked .ok
    · rw [daemonStep_unasked hown hsent] at hs
      obtain ⟨s, -, rfl⟩ := Option.map_eq_some_iff.mp hs
      exact ⟨List.prefix_append _ _, .refl _⟩
  · cases e with
    | command r => cases hs
    | expire w =>
        obtain ⟨s, -, rfl⟩ := Option.map_eq_some_iff.mp hs
        exact ⟨List.prefix_refl _, .refl _⟩
    | recvControl =>
        simp only [IpcDaemon.daemonStep] at hs
        split at hs
        · obtain ⟨s, -, rfl⟩ := Option.map_eq_some_iff.mp hs
          exact goes_handled _ _ _ _
        · cases hs
    | _ => exact absurd rfl hown

theorem atConn_eq {i : Nat} {f : Conversation H → Option (Conversation H)} {v v' : Conversation H}
    (hi : d.conns[i]? = some v) (hf : f v = some v') :
    d.atConn i f = some { d with conns := d.conns.set i v' } := by
  unfold IpcDaemon.atConn
  rw [hi]
  show (f v).map _ = _
  rw [hf]
  rfl

/-! ### What a client learns -/

section Told

variable {codec : IpcCodec H} {first : DaemonView}

/-- The loop gives none of the handler's own answers. -/
theorem answer_called (h : Orderly codec first d) {sender : Option Nat} {command : IpcCommand H}
    {message : String} (hmem : .called sender command (.error message) ∈ d.history) : False := by
  obtain ⟨view, hr⟩ := answer_of_replay h.replays hmem
  cases command with
  | _ => cases hr

theorem Orderly.outcome (h : Orderly codec first d) {i : Nat} {v : Conversation H} {r : IpcResponse}
    (hi : d.conns[i]? = some v) (hr : v.outcome = some (.ok r)) :
    (∃ command, .called (some i) command r ∈ d.history) ∨ r = noResponse ∨ r = timedOut ∨ r = channelClosed :=
  ((h.converses i v hi).outcome r hr).imp_right fun hown => hown.imp_right fun hown => hown.imp_right And.left

/-- What is handled is what was sent, and nothing that was cut short. -/
theorem Orderly.sent (h : Orderly codec first d) {i : Nat} {command : IpcCommand H} {r : IpcResponse}
    (hmem : .called (some i) command r ∈ d.history) :
    ∃ v, d.conns[i]? = some v
      ∧ (∃ p, p <+: v.payload ∧ p.length ≤ Conversation.limit ∧ codec.parseCommand p = some command)
      ∧ ∀ own, v.payload = codec.command own → command = own := by
  obtain ⟨v, hi, -⟩ := h.served i (mem_servedBy (.inl ⟨r, hmem⟩))
  have hparse := h.asked i command (.inl ⟨r, hmem⟩) v hi
  have hk := h.converses i v hi
  have hpre : v.buf <+: v.payload := by
    rw [← hk.bytes, List.append_assoc]
    exact List.prefix_append _ _
  refine ⟨v, hi, ⟨v.buf, hpre, hk.short, hparse⟩, fun own hown => ?_⟩
  by_cases hwhole : v.buf = codec.command own
  · rw [hwhole, codec.command_read] at hparse
    exact (Option.some.inj hparse).symm
  · rw [codec.command_cut own v.buf (hown ▸ hpre) hwhole] at hparse
    cases hparse

/-- A client that was told that the channel is closed has had no effect. -/
theorem Orderly.closed (h : Orderly codec first d) {i : Nat} {v : Conversation H} (hi : d.conns[i]? = some v)
    (hr : v.outcome = some (.ok channelClosed)) : i ∉ callers d.history := by
  rcases (h.converses i v hi).outcome _ hr with ⟨command, hmem⟩ | heq | heq | ⟨-, hnot⟩
  · exact (answer_called h hmem).elim
  · exact absurd heq (by decide)
  · exact absurd heq (by decide)
  · exact fun hmem => hnot (List.mem_append_left _ hmem)

end Told

/-! ### Step by step -/

section Runs

variable [DecidableEq K] [DecidableEq H] {codec : IpcCodec H} {c : Crypto K H P} {first : DaemonView}

theorem enqueue_some {i : Nat} (hs : d.step codec c (.enqueue i) = some d') :
    ∃ v command, d.conns[i]? = some v ∧ v.pc = .queueing command ∧
      ((d.server.pc = .exited
        ∧ d' = { d with conns := d.conns.set i { v with pc := .replying channelClosed } })
      ∨ ∃ d₁, d.put c (some i) command = some d₁
        ∧ d' = { d₁ with conns := d₁.conns.set i { v with pc := .waiting } }) := by
  simp only [IpcDaemon.step] at hs
  split at hs
  · rename_i command hpc
    obtain ⟨v, hi, hv⟩ := Option.map_eq_some_iff.mp hpc
    refine ⟨v, command, hi, hv, ?_⟩
    split at hs
    · rename_i hexit
      obtain ⟨v', v'', hi', hv', rfl⟩ := atConn_some hs
      rw [hi] at hi'
      cases hi'
      cases hv'
      exact .inl ⟨hexit, rfl⟩
    · obtain ⟨d₁, hput, hat⟩ := Option.bind_eq_some_iff.mp hs
      obtain ⟨v', v'', hi', hv', rfl⟩ := atConn_some hat
      obtain ⟨s, -, hd₁⟩ := Option.map_eq_some_iff.mp hput
      have hconns : d₁.conns = d.conns := by rw [← hd₁]
      rw [hconns, hi] at hi'
      cases hi'
      cases hv'
      exact .inr ⟨d₁, hput, rfl⟩
  · cases hs

/-- **Everything keeps the order.** -/
theorem Orderly.step {act : IpcAct K H P} (h : Orderly codec first d) (hs : d.step codec c act = some d') :
    Orderly codec first d' := by
  by_cases hlocal : isLocal act = true
  · obtain ⟨i, v, v', hi, hmoves, hv, rfl⟩ := h.local hlocal hs
    exact h.setConn hi hmoves hv
  · cases act with
    | daemon e => exact h.daemon hs
    | inProcess command =>
        simp only [IpcDaemon.step] at hs
        split at hs
        · cases hs
        · exact h.inProcess hs
    | accept payload =>
        simp only [IpcDaemon.step] at hs
        split at hs <;> cases hs
        exact h.accept payload
    | enqueue i =>
        obtain ⟨v, command, hi, hpc, ⟨-, rfl⟩ | ⟨d₁, hput, rfl⟩⟩ := enqueue_some hs
        · have hnew : i ∉ servedBy d := by
            intro hmem
            obtain ⟨u, hu, hsub⟩ := h.served i hmem
            rw [hi] at hu
            cases hu
            exact submitted_pc hsub hpc (.inr ⟨command, rfl⟩)
          exact h.setConn hi (moves_on rfl) ((h.converses i v hi).replies (.inr (.inr (.inr ⟨rfl, hnew⟩))))
        · exact h.enqueue hi hpc hput
    | _ => exact absurd rfl hlocal

theorem goes_step {act : IpcAct K H P} (h : Orderly codec first d) (hs : d.step codec c act = some d') :
    Goes d d' := by
  by_cases hlocal : isLocal act = true
  · obtain ⟨i, v, v', hi, hmoves, -, rfl⟩ := h.local hlocal hs
    exact ⟨List.prefix_refl _, follow_set hi hmoves⟩
  · cases act with
    | daemon e => exact goes_daemonStep hs
    | inProcess command =>
        simp only [IpcDaemon.step] at hs
        split at hs
        · cases hs
        · obtain ⟨s, -, rfl⟩ := Option.map_eq_some_iff.mp hs
          exact ⟨List.prefix_refl _, .refl _⟩
    | accept payload =>
        simp only [IpcDaemon.step] at hs
        split at hs <;> cases hs
        exact ⟨List.prefix_refl _, follow_append _ _⟩
    | enqueue i =>
        obtain ⟨v, command, hi, hpc, ⟨-, rfl⟩ | ⟨d₁, hput, rfl⟩⟩ := enqueue_some hs
        · exact ⟨List.prefix_refl _, follow_set hi (moves_on rfl)⟩
        · obtain ⟨s, -, rfl⟩ := Option.map_eq_some_iff.mp hput
          refine ⟨List.prefix_refl _, follow_set hi ⟨rfl, fun _ ho => ho, fun hsub => ?_⟩⟩
          exact (submitted_pc hsub hpc (.inr ⟨command, rfl⟩)).elim
    | _ => exact absurd rfl hlocal

theorem Orderly.run (h : Orderly codec first d) {acts : List (IpcAct K H P)}
    (hx : exec (IpcDaemon.step codec c) d acts = some d') : Orderly codec first d' ∧ Goes d d' := by
  refine exec_invariant_all (I := fun d₁ => Orderly codec first d₁ ∧ Goes d d₁) ?_ ⟨h, .refl d⟩ hx
  intro d₁ act d₂ h₁ hs
  exact ⟨h₁.1.step hs, h₁.2.trans (goes_step h₁.1 hs)⟩

/-! ### The loop beneath -/

/-- What happens at the control socket is nothing else to the loop than some event of its own. -/
theorem beneath_step {act : IpcAct K H P} (h : Orderly codec first d) (hs : d.step codec c act = some d') :
    ∃ es, exec (Server.step c) d.server es = some d'.server := by
  have hevent : ∀ (e : ServerEvent K H P) {s : Server K H P}, d.server.step c e = some s →
      ∃ es, exec (Server.step c) d.server es = some s := by
    intro e s hstep
    refine ⟨[e], ?_⟩
    rw [exec_cons, hstep]
    rfl
  by_cases hlocal : isLocal act = true
  · obtain ⟨i, v, v', -, -, -, rfl⟩ := h.local hlocal hs
    exact ⟨[], rfl⟩
  · cases act with
    | daemon e =>
        by_cases hown : isUnasked e = true
        · by_cases hsent : e = .ipcSent
          · subst hsent
            obtain ⟨s, hstep, rfl⟩ := Option.map_eq_some_iff.mp hs
            rw [tell_server]
            exact hevent _ hstep
          · simp only [IpcDaemon.step] at hs
            rw [daemonStep_unasked hown hsent] at hs
            obtain ⟨s, hstep, rfl⟩ := Option.map_eq_some_iff.mp hs
            exact hevent _ hstep
        · cases e with
          | command r => cases hs
          | expire w =>
              obtain ⟨s, hstep, rfl⟩ := Option.map_eq_some_iff.mp hs
              exact hevent _ hstep
          | recvControl =>
              simp only [IpcDaemon.step, IpcDaemon.daemonStep] at hs
              split at hs
              · obtain ⟨s, hstep, rfl⟩ := Option.map_eq_some_iff.mp hs
                rw [handled_server]
                exact hevent _ hstep
              · cases hs
          | _ => exact absurd rfl hown
    | inProcess command =>
        simp only [IpcDaemon.step] at hs
        split at hs
        · cases hs
        · obtain ⟨s, hstep, rfl⟩ := Option.map_eq_some_iff.mp hs
          exact hevent _ hstep
    | accept payload =>
        simp only [IpcDaemon.step] at hs
        split at hs <;> cases hs
        exact ⟨[], rfl⟩
    | enqueue i =>
        obtain ⟨v, command, -, -, ⟨-, rfl⟩ | ⟨d₁, hput, rfl⟩⟩ := enqueue_some hs
        · exact ⟨[], rfl⟩
        · obtain ⟨s, hstep, rfl⟩ := Option.map_eq_some_iff.mp hput
          exact hevent _ hstep
    | _ => exact absurd rfl hlocal

theorem beneath_run (h : Orderly codec first d) {acts : List (IpcAct K H P)}
    (hx : exec (IpcDaemon.step codec c) d acts = some d') :
    ∃ es, exec (Server.step c) d.server es = some d'.server := by
  refine (exec_invariant_all
    (I := fun d₁ => Orderly codec first d₁ ∧ ∃ es, exec (Server.step c) d.server es = some d₁.server)
    ?_ ⟨h, [], rfl⟩ hx).2
  rintro d₁ act d₂ ⟨h₁, es, hes⟩ hs
  obtain ⟨es', hes'⟩ := beneath_step h₁ hs
  exact ⟨h₁.step hs, es ++ es', (exec_append hes).trans hes'⟩

/-! ### A handler can always finish -/

/-- The events by which the handler of conversation `i` waits no longer. -/
def isHandlers (i : Nat) : IpcAct K H P → Bool
  | .requestTimeout j | .answer j | .commandTimeout j | .reply j _ => j == i
  | _ => false

/-- The handler of conversation `i` can be over within two steps of its own. -/
def Finishes (codec : IpcCodec H) (c : Crypto K H P) (d : IpcDaemon K H P) (i : Nat) : Prop :=
  ∃ own : List (IpcAct K H P), own.length ≤ 2 ∧ (∀ act ∈ own, isHandlers i act = true)
    ∧ ∃ d' v, exec (IpcDaemon.step codec c) d own = some d' ∧ d'.conns[i]? = some v ∧ v.pc = .returned

/-- A handler that has its answer writes it. -/
theorem reply_step (codec : IpcCodec H) (c : Crypto K H P) {i : Nat} {v : Conversation H}
    {r : IpcResponse} (hi : d.conns[i]? = some v) (hpc : v.pc = .replying r) :
    ∃ d' v', exec (IpcDaemon.step codec c) d [.reply i (codec.response r).length] = some d'
      ∧ d'.conns[i]? = some v' ∧ v'.pc = .returned := by
  have hstep : d.step codec c (.reply i (codec.response r).length)
      = some { d with conns := d.conns.set i { v with reply := codec.response r, pc := .returned } } := by
    refine atConn_eq hi ?_
    simp only [hpc]
    rw [List.take_length]
  refine ⟨{ d with conns := d.conns.set i { v with reply := codec.response r, pc := .returned } },
    { v with reply := codec.response r, pc := .returned }, ?_,
      List.getElem?_set_self (List.getElem?_eq_some_iff.mp hi).1, rfl⟩
  rw [exec_cons, hstep]
  rfl

/-- A first step that leaves the handler with an answer, and then the answer. -/
theorem finishes_answering {i : Nat} {v v' : Conversation H} {r : IpcResponse} {act : IpcAct K H P}
    (hi : d.conns[i]? = some v) (hstep : d.step codec c act = some { d with conns := d.conns.set i v' })
    (hact : isHandlers i act = true) (hpc : v'.pc = .replying r) :
    Finishes codec c d i := by
  obtain ⟨d₂, v₂, hx, hi₂, hover⟩ := reply_step codec c
    (d := { d with conns := d.conns.set i v' })
    (List.getElem?_set_self (List.getElem?_eq_some_iff.mp hi).1) hpc
  refine ⟨[act, .reply i (codec.response r).length], le_rfl, ?_, d₂, v₂, ?_, hi₂, hover⟩
  · intro act' hmem
    rcases List.mem_pair.mp hmem with rfl | rfl
    · exact hact
    · exact beq_self_eq_true i
  · rw [exec_cons, hstep]
    exact hx

/-- **A handler that does not wait for room can finish.** -/
theorem handler_finishes {i : Nat} {v : Conversation H} (hi : d.conns[i]? = some v)
    (hroom : ∀ command, v.pc ≠ .queueing command) : Finishes codec c d i := by
  have hself : (i == i) = true := beq_self_eq_true i
  cases hpc : v.pc with
  | returned => exact ⟨[], Nat.zero_le _, (fun _ h => by cases h), d, v, rfl, hi, hpc⟩
  | queueing command => exact absurd hpc (hroom command)
  | reading =>
      have hstep : d.step codec c (.requestTimeout i : IpcAct K H P)
          = some { d with conns := d.conns.set i { v with pc := .returned } } := atConn_eq hi (if_pos hpc)
      refine ⟨[.requestTimeout i], Nat.le_succ 1, ?_,
        { d with conns := d.conns.set i { v with pc := .returned } },
        { v with pc := .returned }, ?_, List.getElem?_set_self (List.getElem?_eq_some_iff.mp hi).1, rfl⟩
      · intro act h
        rw [List.mem_singleton.mp h]
        exact hself
      · rw [exec_cons, hstep]
        rfl
  | replying r =>
      obtain ⟨d₂, v₂, hx, hi₂, hover⟩ := reply_step codec c hi hpc
      refine ⟨[.reply i (codec.response r).length], Nat.le_succ 1, ?_, d₂, v₂, hx, hi₂, hover⟩
      intro act h
      rw [List.mem_singleton.mp h]
      exact hself
  | waiting =>
      cases hone : v.oneshot with
      | some r =>
          have hstep : d.step codec c (.answer i : IpcAct K H P)
              = some { d with conns := d.conns.set i { v with pc := .replying r } } := by
            refine atConn_eq hi ?_
            simp only [hpc, hone, if_true]
          exact finishes_answering hi hstep hself rfl
      | none =>
          by_cases hexit : d.server.pc = .exited
          · have hstep : d.step codec c (.answer i : IpcAct K H P)
                = some { d with conns := d.conns.set i { v with pc := .replying noResponse } } := by
              refine atConn_eq hi ?_
              simp only [hpc, hone, hexit, if_true]
            exact finishes_answering hi hstep hself rfl
          · have hstep : d.step codec c (.commandTimeout i : IpcAct K H P)
                = some { d with conns := d.conns.set i { v with pc := .replying timedOut } } :=
              atConn_eq hi (if_pos ⟨hpc, hone, hexit⟩)
            exact finishes_answering hi hstep hself rfl

end Runs

/-- **Commands over the control socket.** -/
theorem ipc_linearizable [DecidableEq K] [DecidableEq H] (codec : IpcCodec H) (c : Crypto K H P)
    (ipcEnabled shutdownOnWormholeSuccess : Bool) (policy : HostKeyPolicy) (dir : ClientsDir K)
    (shadow : Shadow H) (acts : List (IpcAct K H P)) (d : IpcDaemon K H P)
    (hx : exec (IpcDaemon.step codec c)
      (.start (Server.start ipcEnabled shutdownOnWormholeSuccess policy dir shadow)) acts = some d) :
    -- to the loop it is a run like any other
    (∃ es, exec (Server.step c) (Server.start ipcEnabled shutdownOnWormholeSuccess policy dir shadow) es
        = some d.server)
    -- what it has handled is a history of the sequential daemon, and no command is in it twice
    ∧ replay (sequentialDaemon H) ⟨none, 0, false⟩ d.history = some d.view
    ∧ (callers d.history).Nodup
    -- a command in it is the one its client has sent, whole
    ∧ (∀ i command r, .called (some i) command r ∈ d.history → ∃ v, d.conns[i]? = some v
        ∧ (∃ p, p <+: v.payload ∧ p.length ≤ Conversation.limit ∧ codec.parseCommand p = some command)
        ∧ ∀ own, v.payload = codec.command own → command = own)
    -- a client is told the answer in it, or one of three messages
    ∧ (∀ i v r, d.conns[i]? = some v → v.outcome = some (.ok r) →
        (∃ command, .called (some i) command r ∈ d.history) ∨ r = noResponse ∨ r = timedOut
          ∨ r = channelClosed)
    -- later on the history only grows: in real time, and never by a command that was refused
    ∧ (∀ later d', exec (IpcDaemon.step codec c) d later = some d' → d.history <+: d'.history
        ∧ (∀ x ∈ d.history, ∀ j command r, d.conns.length ≤ j → .called (some j) command r ∈ d'.history →
          Before d'.history x (.called (some j) command r))
        ∧ ∀ i v, d.conns[i]? = some v → v.outcome = some (.ok channelClosed) → i ∉ callers d'.history)
    -- and no handler hangs, unless there is no room on the control channel
    ∧ ∀ (i : Nat) (v : Conversation H), d.conns[i]? = some v → (∀ command, v.pc ≠ .queueing command) →
        Finishes codec c d i := by
  have hstart : Orderly codec ⟨none, 0, false⟩
      (.start (Server.start ipcEnabled shutdownOnWormholeSuccess policy dir shadow) : IpcDaemon K H P) :=
    orderly_start codec ipcEnabled shutdownOnWormholeSuccess policy dir shadow
  have h : Orderly codec ⟨none, 0, false⟩ d := (hstart.run hx).1
  refine ⟨beneath_run hstart hx, h.replays, (List.nodup_append.mp h.once).1, fun _ _ _ hmem => h.sent hmem,
    fun _ _ _ hi hr => h.outcome hi hr, fun later d' hx' => ?_, fun _ _ hi hroom => handler_finishes hi hroom⟩
  obtain ⟨h', hgoes⟩ := h.run hx'
  refine ⟨hgoes.history, ?_, ?_⟩
  · intro x hmem j command r hj hmem'
    refine before_of_prefix hgoes.history hmem (fun hold => ?_) hmem'
    obtain ⟨v, hv, -⟩ := h.sent hold
    exact absurd (List.getElem?_eq_some_iff.mp hv).1 (not_lt.mpr hj)
  · intro i v hi hr
    obtain ⟨v', hi', hmoves⟩ := hgoes.conns i v hi
    exact h'.closed hi' (hmoves.outcome _ hr)

/-! ### A codec for concrete runs -/

/-- Numbers in unary, and an end. -/
def unary (ns : List Nat) : List UInt8 := ns.flatMap (fun n => List.replicate n 1 ++ [0]) ++ [2]

/-- The numbers, where `n` has been counted of the first. -/
def ofUnary (n : Nat) : List UInt8 → Option (List Nat)
  | [] => none
  | b :: bs =>
      if b = 1 then ofUnary (n + 1) bs
      else if b = 0 then (ofUnary 0 bs).map (n :: ·)
      else if bs = [] ∧ n = 0 then some [] else none

theorem ofUnary_replicate (n k : Nat) (bs : List UInt8) :
    ofUnary n (List.replicate k 1 ++ 0 :: bs) = (ofUnary 0 bs).map ((n + k) :: ·) := by
  induction k generalizing n with
  | zero => rfl
  | succ k ih =>
      show ofUnary (n + 1) (List.replicate k 1 ++ 0 :: bs) = _
      rw [ih, Nat.add_assoc, Nat.add_comm 1 k]

theorem ofUnary_unary (ns : List Nat) : ofUnary 0 (unary ns) = some ns := by
  induction ns with
  | nil => rfl
  | cons n ns ih =>
      have hsplit : unary (n :: ns) = List.replicate n 1 ++ 0 :: unary ns := by
        simp [unary]
      rw [hsplit, ofUnary_replicate, ih, Nat.zero_add, Option.map_some]

/-- What is read ends with the end. -/
theorem mem_of_ofUnary {n : Nat} {bs : List UInt8} {ns : List Nat} (h : ofUnary n bs = some ns) :
    ∃ b ∈ bs, b ≠ 0 ∧ b ≠ 1 := by
  induction bs generalizing n ns with
  | nil => cases h
  | cons b bs ih =>
      simp only [ofUnary] at h
      split at h
      · obtain ⟨b', hmem, hb'⟩ := ih h
        exact ⟨b', List.mem_cons_of_mem _ hmem, hb'⟩
      · split at h
        · obtain ⟨ns', hns', -⟩ := Option.map_eq_some_iff.mp h
          obtain ⟨b', hmem, hb'⟩ := ih hns'
          exact ⟨b', List.mem_cons_of_mem _ hmem, hb'⟩
        · rename_i hone hzero
          exact ⟨b, List.mem_cons_self, hzero, hone⟩

theorem ofUnary_cut {ns : List Nat} {p : List UInt8} (hp : p <+: unary ns) (hne : p ≠ unary ns) :
    ofUnary 0 p = none := by
  obtain hpre := (List.prefix_concat_iff.mp hp).resolve_left hne
  refine Option.eq_none_iff_forall_ne_some.mpr fun ns' hns' => ?_
  obtain ⟨b, hmem, hzero, hone⟩ := mem_of_ofUnary hns'
  obtain ⟨n, -, hb⟩ := List.mem_flatMap.mp (hpre.subset hmem)
  rcases List.mem_append.mp hb with h | h
  · exact hone (List.eq_of_mem_replicate h)
  · exact hzero (List.mem_singleton.mp h)

def chars (s : List Char) : List Nat := s.map Char.toNat

def ofChars (ns : List Nat) : List Char := ns.map Char.ofNat

theorem ofChars_chars (s : List Char) : ofChars (chars s) = s := by
  unfold ofChars chars
  rw [List.map_map]
  exact (List.map_congr_left fun c _ => Char.ofNat_toNat c).trans (List.map_id s)

def commandNats : IpcCommand Nat → List Nat
  | .enableWormhole code password persistent => 0 :: persistent.toNat :: password.elim 0 (· + 1) :: chars code
  | .disableWormhole => [1]
  | .getStatus => [2]
  | .shutdown => [3]

def ofCommandNats : List Nat → Option (IpcCommand Nat)
  | 0 :: persistent :: password :: code =>
      some (.enableWormhole (ofChars code) (if password = 0 then none
        else some (password - 1)) (persistent == 1))
  | [1] => some .disableWormhole
  | [2] => some .getStatus
  | [3] => some .shutdown
  | _ => none

def responseNats : IpcResponse → List Nat
  | .ok => [0]
  | .error message => 1 :: chars message.toList
  | .status ⟨active, none, sessions⟩ => [2, active.toNat, sessions]
  | .status ⟨active, some code, sessions⟩ => 3 :: active.toNat :: sessions :: chars code

def ofResponseNats : List Nat → Option IpcResponse
  | [0] => some .ok
  | 1 :: message => some (.error (String.ofList (ofChars message)))
  | [2, active, sessions] => some (.status ⟨active == 1, none, sessions⟩)
  | 3 :: active :: sessions :: code => some (.status ⟨active == 1, some (ofChars code), sessions⟩)
  | _ => none

theorem ofCommandNats_commandNats (command : IpcCommand Nat) :
    ofCommandNats (commandNats command) = some command := by
  cases command with
  | enableWormhole code password persistent =>
      show some (IpcCommand.enableWormhole (ofChars (chars code)) _ _) = _
      rw [ofChars_chars]
      cases password <;> cases persistent <;> rfl
  | _ => rfl

theorem ofResponseNats_responseNats (r : IpcResponse) : ofResponseNats (responseNats r) = some r := by
  cases r with
  | ok => rfl
  | error message =>
      show some (IpcResponse.error (String.ofList (ofChars (chars message.toList)))) = _
      rw [ofChars_chars, String.ofList_toList]
  | status report =>
      obtain ⟨active, code, sessions⟩ := report
      cases code with
      | none => cases active <;> rfl
      | some code =>
          show some (IpcResponse.status ⟨_, some (ofChars (chars code)), _⟩) = _
          rw [ofChars_chars]
          cases active <;> rfl

/-- Any coding of commands and answers by numbers will do. -/
def unaryCodec : IpcCodec Nat where
  command command := unary (commandNats command)
  parseCommand bytes := (ofUnary 0 bytes).bind ofCommandNats
  response r := unary (responseNats r)
  parseResponse bytes := (ofUnary 0 bytes).bind ofResponseNats
  command_read command := by rw [ofUnary_unary]; exact ofCommandNats_commandNats command
  command_cut command p hp hne := by rw [ofUnary_cut hp hne]; rfl
  response_read r := by rw [ofUnary_unary]; exact ofResponseNats_responseNats r
  response_cut r p hp hne := by rw [ofUnary_cut hp hne]; rfl

/-- A client asks for the wormhole to be disabled, and is told so. -/
def firstClient : List (IpcAct Nat Nat Nat) :=
  [.accept [1, 0, 2], .write 0 3, .shutdown 0, .read 0 3, .parse 0, .enqueue 0, .daemon .loopTest,
    .daemon .recvControl, .answer 0, .reply 0 2, .receive 0]

/-- A client that connects after that asks for the status. -/
def secondClient : List (IpcAct Nat Nat Nat) :=
  [.accept [1, 1, 0, 2], .write 1 4, .shutdown 1, .read 1 4, .parse 1, .enqueue 1, .daemon .loopTest,
    .daemon .loopTest, .daemon .recvControl, .answer 1, .reply 1 6, .receive 1]

/-- Two clients, one after the other: the loop has handled their commands in that order. -/
theorem ipc_linearizable_two_clients : ∃ d d' : IpcDaemon Nat Nat Nat,
    exec (IpcDaemon.step unaryCodec Crypto.clear) (.start (Server.start true false .tofu .empty .missing))
      firstClient = some d
    ∧ exec (IpcDaemon.step unaryCodec Crypto.clear) d secondClient = some d'
    ∧ d'.conns.map Conversation.outcome = [some (.ok .ok), some (.ok (.status ⟨false, none, 0⟩))]
    ∧ d.history <+: d'.history
    ∧ Before d'.history (.called (some 0) .disableWormhole .ok)
        (.called (some 1) .getStatus (.status ⟨false, none, 0⟩)) := by
  have hfirst : (exec (IpcDaemon.step unaryCodec Crypto.clear)
      (.start (Server.start true false .tofu .empty .missing)) firstClient).map
      (fun d => (d.history, d.conns.length)) = some ([.called (some 0) .disableWormhole .ok], 1) := by
    decide +kernel
  have hboth : (exec (IpcDaemon.step unaryCodec Crypto.clear)
      (.start (Server.start true false .tofu .empty .missing)) (firstClient ++ secondClient)).map
      (fun d => (d.history, d.conns.map Conversation.outcome))
      = some ([.called (some 0) .disableWormhole .ok,
            .called (some 1) .getStatus (.status ⟨false, none, 0⟩)],
          [some (.ok .ok), some (.ok (.status ⟨false, none, 0⟩))]) := by
    decide +kernel
  obtain ⟨d, hx, hd⟩ := Option.map_eq_some_iff.mp hfirst
  obtain ⟨d', hx', hd'⟩ := Option.map_eq_some_iff.mp hboth
  simp only [Prod.mk.injEq] at hd hd'
  rw [Exec.exec_append hx] at hx'
  have hall := ipc_linearizable unaryCodec Crypto.clear true false .tofu .empty .missing _ d hx
  obtain ⟨-, -, -, -, -, hlater, -⟩ := hall
  obtain ⟨hgrows, hbefore, -⟩ := hlater _ d' hx'
  refine ⟨d, d', hx, hx', hd'.2, hgrows, hbefore _ ?_ 1 _ _ ?_ ?_⟩
  · rw [hd.1]
    exact List.mem_cons_self
  · rw [hd.2]
  · rw [hd'.1]
    exact List.mem_cons_of_mem _ List.mem_cons_self

end Irosh.Proof
