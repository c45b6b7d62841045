import Mathlib.Data.List.Nodup
import Irosh.Server.Tracker

/-!
# What the status answer says about live sessions

The tracker of the protocol handlers does what it is for: whenever nothing is in
flight it holds exactly the live connections, each with its own counters, and their
number is `active_sessions` (`protocol_tracks`). Its entries are, at any moment, those
of the connections that have registered and not unregistered (`Tracked`).

The status query does not ask that tracker. The one it asks stays empty, so the answer
is right exactly when there is nobody to list.
-/

namespace Irosh

namespace AcceptTask

variable {P : Type}

/-- The id it has drawn. -/
def id? (c : AcceptTask P) : Option Nat :=
  match c.stage with
  | .counted => none
  | .numbered id => some id
  | .live id _ => some id
  | .ended id _ => some id

/-- Its entry in the tracker. -/
def entry (c : AcceptTask P) : Option (Nat × ActiveSession P) :=
  match c.stage with
  | .live id now => some (id, ⟨c.peer, now, c.key⟩)
  | .ended id now => some (id, ⟨c.peer, now, c.key⟩)
  | _ => none

/-- It is counted in `active_sessions`. -/
def counts (c : AcceptTask P) : Bool :=
  match c.stage with
  | .ended _ _ => false
  | _ => true

/-- What a status answer should say of it. -/
def status (c : AcceptTask P) : SessionStatus P :=
  ⟨c.peer, match c.stage with | .live _ now => now | _ => 0, c.bytesSent, c.bytesReceived⟩

theorem id_of_entry {c : AcceptTask P} {e : Nat × ActiveSession P} (h : c.entry = some e) :
    c.id? = some e.1 := by
  rcases hs : c.stage with _ | id | ⟨id, now⟩ | ⟨id, now⟩
  all_goals simp only [entry, id?, hs] at h ⊢
  all_goals cases h
  all_goals rfl

end AcceptTask

/-! ## The invariant -/

variable {P : Type} {d d' : Daemon P} {before after : List (AcceptTask P)} {c : AcceptTask P}

structure Daemon.Tracked (d : Daemon P) : Prop where
  count : d.activeSessions = d.connections.countP AcceptTask.counts
  server : d.serverTracker = .new
  entries : d.protocolTracker.sessions.Perm (d.connections.filterMap AcceptTask.entry)
  ids : (d.connections.filterMap AcceptTask.id?).Nodup
  drawn : ∀ c ∈ d.connections, ∀ id, c.id? = some id → id < d.protocolTracker.nextId
  keys : (d.connections.map AcceptTask.key).Nodup
  fresh : ∀ c ∈ d.connections, c.key < d.accepted

theorem tracked_start : (Daemon.start : Daemon P).Tracked where
  count := rfl
  server := rfl
  entries := .nil
  ids := List.nodup_nil
  drawn := by simp [Daemon.start]
  keys := List.nodup_nil
  fresh := by simp [Daemon.start]

theorem mem_middle {c' x : AcceptTask P} (h : x ∈ before ++ c' :: after) :
    x = c' ∨ x ∈ before ++ after := by
  rcases List.mem_append.mp h with h | h
  · exact .inr (List.mem_append_left _ h)
  · rcases List.mem_cons.mp h with h | h
    · exact .inl h
    · exact .inr (List.mem_append_right _ h)

theorem mem_of_mem_sides {x : AcceptTask P} (h : x ∈ before ++ after) : x ∈ before ++ c :: after := by
  rcases List.mem_append.mp h with h | h
  · exact List.mem_append_left _ h
  · exact List.mem_append_right _ (List.mem_cons_of_mem _ h)

/-- No other connection has this one's id. -/
theorem Daemon.Tracked.id_ne (h : d.Tracked) (hd : d.connections = before ++ c :: after) {id : Nat}
    (hid : c.id? = some id) {x : AcceptTask P} (hx : x ∈ before ++ after) : x.id? ≠ some id := by
  intro he
  have hids := h.ids
  rw [hd, List.filterMap_append, List.filterMap_cons_some hid] at hids
  have hmiddle := List.nodup_middle.mp hids
  refine (List.nodup_cons.mp hmiddle).1 ?_
  rw [← List.filterMap_append]
  exact List.mem_filterMap.mpr ⟨x, hx, he⟩

/-- Removing by id leaves the entries of the others alone. -/
theorem filter_entries {id : Nat} (hids : ∀ x ∈ before ++ after, x.id? ≠ some id) :
    ((before ++ after).filterMap AcceptTask.entry).filter (fun entry => entry.1 ≠ id)
      = (before ++ after).filterMap AcceptTask.entry := by
  rw [List.filter_eq_self]
  intro e he
  obtain ⟨x, hx, hxe⟩ := List.mem_filterMap.mp he
  have hne := hids x hx
  rw [AcceptTask.id_of_entry hxe] at hne
  exact decide_eq_true fun h => hne (congrArg some h)

/-- What one connection does is one change of the list. `e` is the tracker it leaves. -/
theorem Daemon.Tracked.replace (h : d.Tracked) (hd : d.connections = before ++ c :: after)
    {c' : AcceptTask P} {active : Nat} {tracker : SessionTracker P}
    (hkey : c'.key = c.key)
    (hcount : active = (before ++ c' :: after).countP AcceptTask.counts)
    (hentries : tracker.sessions.Perm ((before ++ c' :: after).filterMap AcceptTask.entry))
    (hnext : d.protocolTracker.nextId ≤ tracker.nextId)
    (hid : ∀ id, c'.id? = some id →
      id < tracker.nextId ∧ ∀ x ∈ before ++ after, x.id? ≠ some id) :
    Daemon.Tracked { d with
      protocolTracker := tracker, activeSessions := active, connections := before ++ c' :: after } where
  count := hcount
  server := h.server
  entries := hentries
  ids := by
    have hids := h.ids
    rw [hd] at hids
    have hsides : ((before ++ after).filterMap AcceptTask.id?).Nodup := by
      refine hids.sublist (List.Sublist.filterMap _ ?_)
      exact List.Sublist.append_left (List.sublist_cons_self _ _) _
    show ((before ++ c' :: after).filterMap AcceptTask.id?).Nodup
    rw [List.filterMap_append] at hsides ⊢
    cases hc' : c'.id? with
    | none =>
        rw [List.filterMap_cons_none hc']
        exact hsides
    | some id =>
        rw [List.filterMap_cons_some hc', List.nodup_middle, List.nodup_cons]
        refine ⟨?_, hsides⟩
        rw [← List.filterMap_append]
        intro hm
        obtain ⟨x, hx, hxid⟩ := List.mem_filterMap.mp hm
        exact (hid id hc').2 x hx hxid
  drawn := by
    intro x hx id hxid
    rcases mem_middle hx with rfl | hx
    · exact (hid id hxid).1
    · exact Nat.lt_of_lt_of_le (h.drawn x (hd ▸ mem_of_mem_sides hx) id hxid) hnext
  keys := by
    have hkeys := h.keys
    rw [hd, List.map_append, List.map_cons] at hkeys
    show ((before ++ c' :: after).map AcceptTask.key).Nodup
    rw [List.map_append, List.map_cons, hkey]
    exact hkeys
  fresh := by
    intro x hx
    rcases mem_middle hx with rfl | hx
    · rw [hkey]
      exact h.fresh c (hd ▸ List.mem_append_right _ List.mem_cons_self)
    · exact h.fresh x (hd ▸ mem_of_mem_sides hx)

/-! ## Steps -/

theorem countP_replace {c' : AcceptTask P} (h : c'.counts = c.counts) :
    (before ++ c' :: after).countP AcceptTask.counts
      = (before ++ c :: after).countP AcceptTask.counts := by
  simp only [List.countP_append, List.countP_cons, h]

theorem Daemon.Tracked.entries_middle (h : d.Tracked) (hd : d.connections = before ++ c :: after)
    {e : Nat × ActiveSession P} (he : c.entry = some e) :
    d.protocolTracker.sessions.Perm (e :: (before ++ after).filterMap AcceptTask.entry) := by
  refine h.entries.trans ?_
  rw [hd, List.filterMap_append, List.filterMap_cons_some he, List.filterMap_append]
  exact List.perm_middle

theorem Daemon.Tracked.entries_sides (h : d.Tracked) (hd : d.connections = before ++ c :: after)
    (he : c.entry = none) :
    d.protocolTracker.sessions.Perm ((before ++ after).filterMap AcceptTask.entry) := by
  refine h.entries.trans ?_
  rw [hd, List.filterMap_append, List.filterMap_cons_none he, List.filterMap_append]

theorem Daemon.Tracked.step (h : d.Tracked) (hs : Daemon.Step d d') : d'.Tracked := by
  cases hs with
  | accept peer isPairing =>
      have hnone : AcceptTask.entry (⟨d.accepted, peer, isPairing, .counted, 0, 0⟩ : AcceptTask P) = none :=
        rfl
      have hid : AcceptTask.id? (⟨d.accepted, peer, isPairing, .counted, 0, 0⟩ : AcceptTask P) = none :=
        rfl
      refine ⟨?_, h.server, ?_, ?_, ?_, ?_, ?_⟩
      · show d.activeSessions + 1 = (d.connections ++ [_]).countP _
        rw [List.countP_append, ← h.count]
        rfl
      · show d.protocolTracker.sessions.Perm ((d.connections ++ [_]).filterMap _)
        rw [List.filterMap_append, List.filterMap_cons_none hnone, List.filterMap_nil, List.append_nil]
        exact h.entries
      · show ((d.connections ++ [_]).filterMap AcceptTask.id?).Nodup
        rw [List.filterMap_append, List.filterMap_cons_none hid, List.filterMap_nil, List.append_nil]
        exact h.ids
      · intro x hx id hxid
        rcases List.mem_append.mp hx with hx | hx
        · exact h.drawn x hx id hxid
        · rw [List.mem_singleton.mp hx, hid] at hxid
          cases hxid
      · show ((d.connections ++ [_]).map AcceptTask.key).Nodup
        rw [List.map_append, List.map_singleton, List.nodup_append]
        refine ⟨h.keys, List.nodup_singleton _, ?_⟩
        intro key hkey key' hkey' he
        obtain ⟨x, hx, rfl⟩ := List.mem_map.mp hkey
        rw [List.mem_singleton.mp hkey'] at he
        exact absurd he (Nat.ne_of_lt (h.fresh x hx))
      · intro x hx
        rcases List.mem_append.mp hx with hx | hx
        · exact Nat.lt_succ_of_lt (h.fresh x hx)
        · rw [List.mem_singleton.mp hx]
          exact Nat.lt_succ_self _
  | @number before after c hd hc =>
      refine h.replace hd rfl ?_ ?_ (Nat.le_succ _) ?_
      · rw [h.count, hd]
        exact (countP_replace (by simp [AcceptTask.counts, hc])).symm
      · rw [List.filterMap_append, List.filterMap_cons_none (by rfl), ← List.filterMap_append]
        exact h.entries_sides hd (by simp [AcceptTask.entry, hc])
      · rintro id ⟨⟩
        refine ⟨Nat.lt_succ_self _, fun x hx hxid => ?_⟩
        exact absurd (h.drawn x (hd ▸ mem_of_mem_sides hx) _ hxid) (Nat.lt_irrefl _)
  | @register before after c id now hd hc =>
      have hid : c.id? = some id := by simp [AcceptTask.id?, hc]
      have hothers : ∀ x ∈ before ++ after, x.id? ≠ some id := fun x hx => h.id_ne hd hid hx
      refine h.replace hd rfl ?_ ?_ (Nat.le_refl _) ?_
      · rw [h.count, hd]
        exact (countP_replace (by simp [AcceptTask.counts, hc])).symm
      · rw [List.filterMap_append, List.filterMap_cons_some (b := (id, ⟨c.peer, now, c.key⟩)) (by rfl)]
        refine List.Perm.trans ?_ List.perm_middle.symm
        refine List.Perm.cons _ ?_
        rw [← List.filterMap_append, ← filter_entries hothers]
        exact (h.entries_sides hd (by simp [AcceptTask.entry, hc])).filter _
      · rintro id' ⟨⟩
        exact ⟨h.drawn c (hd ▸ List.mem_append_right _ List.mem_cons_self) id hid, hothers⟩
  | @transfer before after c id now sent received hd hc =>
      have hid : c.id? = some id := by simp [AcceptTask.id?, hc]
      refine h.replace hd rfl ?_ ?_ (Nat.le_refl _) ?_
      · rw [h.count, hd]
        refine (countP_replace ?_).symm
        rfl
      · have hentry : c.entry = some (id, ⟨c.peer, now, c.key⟩) := by simp [AcceptTask.entry, hc]
        rw [List.filterMap_append, List.filterMap_cons_some (b := (id, ⟨c.peer, now, c.key⟩))
          (by simpa [AcceptTask.entry] using hentry)]
        refine (h.entries_middle hd hentry).trans ?_
        rw [List.filterMap_append]
        exact List.perm_middle.symm
      · intro id' hid'
        have hsame : c.id? = some id' := hid'
        exact ⟨h.drawn c (hd ▸ List.mem_append_right _ List.mem_cons_self) id' hsame,
          fun x hx => h.id_ne hd hsame hx⟩
  | @close before after c id now hd hc =>
      have hid : c.id? = some id := by simp [AcceptTask.id?, hc]
      have hentry : c.entry = some (id, ⟨c.peer, now, c.key⟩) := by simp [AcceptTask.entry, hc]
      refine h.replace hd rfl ?_ ?_ (Nat.le_refl _) ?_
      · have hcounts : c.counts = true := by simp [AcceptTask.counts, hc]
        rw [h.count, hd, List.countP_append, List.countP_cons_of_pos hcounts, List.countP_append,
          List.countP_cons_of_neg (by simp [AcceptTask.counts])]
        omega
      · rw [List.filterMap_append, List.filterMap_cons_some (b := (id, ⟨c.peer, now, c.key⟩)) (by rfl)]
        refine (h.entries_middle hd hentry).trans ?_
        rw [List.filterMap_append]
        exact List.perm_middle.symm
      · rintro id' ⟨⟩
        exact ⟨h.drawn c (hd ▸ List.mem_append_right _ List.mem_cons_self) id hid,
          fun x hx => h.id_ne hd hid hx⟩
  | @unregister before after c id now hd hc =>
      have hid : c.id? = some id := by simp [AcceptTask.id?, hc]
      have hentry : c.entry = some (id, ⟨c.peer, now, c.key⟩) := by simp [AcceptTask.entry, hc]
      have hothers : ∀ x ∈ before ++ after, x.id? ≠ some id := fun x hx => h.id_ne hd hid hx
      have hsub : (before ++ after).Sublist (before ++ c :: after) :=
        List.Sublist.append_left (List.sublist_cons_self _ _) _
      refine ⟨?_, h.server, ?_, ?_, ?_, ?_, ?_⟩
      · show d.activeSessions = _
        rw [h.count, hd, List.countP_append, List.countP_cons_of_neg (by simp [AcceptTask.counts, hc]),
          List.countP_append]
      · show (d.protocolTracker.sessions.filter _).Perm _
        refine ((h.entries_middle hd hentry).filter _).trans ?_
        rw [List.filter_cons_of_neg (by simp), filter_entries hothers]
      · exact (hd ▸ h.ids).sublist (hsub.filterMap _)
      · exact fun x hx => h.drawn x (hd ▸ mem_of_mem_sides hx)
      · exact (hd ▸ h.keys).sublist (hsub.map _)
      · exact fun x hx => h.fresh x (hd ▸ mem_of_mem_sides hx)

theorem tracked_of_reachable (h : d.Reachable) : d.Tracked := by
  induction h with
  | refl => exact tracked_start
  | tail _ hs ih => exact ih.step hs

/-! ## Whenever nothing is in flight -/

/-- The live connections. -/
def Daemon.live (d : Daemon P) : List (AcceptTask P) :=
  d.connections.filter fun c =>
    match c.stage with
    | .live _ _ => true
    | _ => false

/-- A status answer that reflects them: an entry for each, and their number. -/
def Daemon.Reflects (d : Daemon P) (status : DaemonStatus P) : Prop :=
  status.sessions.Perm (d.live.map AcceptTask.status)
    ∧ status.sessions.length = status.activeSessions

theorem Daemon.Quiet.live_eq (h : d.Quiet) : d.live = d.connections := by
  rw [Daemon.live, List.filter_eq_self]
  intro c hc
  obtain ⟨id, now, hstage⟩ := h c hc
  simp [hstage]

/-- The counters of a connection are found under its key. -/
theorem Daemon.Tracked.counters_eq (h : d.Tracked) (hc : c ∈ d.connections) :
    d.counters c.key = (c.bytesSent, c.bytesReceived) := by
  obtain ⟨before, after, hd⟩ := List.append_of_mem hc
  have hkeys := h.keys
  rw [hd, List.map_append, List.map_cons] at hkeys
  have hbefore : ∀ x ∈ before, ¬ decide (x.key = c.key) = true := by
    intro x hx he
    have hne := (List.nodup_append.mp hkeys).2.2 x.key (List.mem_map_of_mem hx) c.key List.mem_cons_self
    exact hne (of_decide_eq_true he)
  rw [Daemon.counters, hd, List.find?_append, List.find?_eq_none.mpr hbefore, Option.none_or,
    List.find?_cons, decide_eq_true rfl]
  rfl

/-- **The tracker of the protocol handlers holds the live connections.** -/
theorem protocol_tracks (h : d.Reachable) (hq : d.Quiet) :
    d.Reflects ⟨d.activeSessions, d.protocolTracker.snapshot d.counters⟩ := by
  have ht := tracked_of_reachable h
  have hperm : (d.protocolTracker.snapshot d.counters).Perm (d.connections.map AcceptTask.status) := by
    refine (ht.entries.map _).trans ?_
    rw [List.map_filterMap, ← List.filterMap_eq_map]
    apply List.Perm.of_eq
    apply List.filterMap_congr
    intro c hc
    obtain ⟨id, now, hstage⟩ := hq c hc
    have hcounters := ht.counters_eq hc
    simp [AcceptTask.entry, AcceptTask.status, hstage, hcounters]
  have hcount : d.activeSessions = d.connections.length := by
    rw [ht.count, List.countP_eq_length]
    intro c hc
    obtain ⟨id, now, hstage⟩ := hq c hc
    simp [AcceptTask.counts, hstage]
  refine ⟨by rw [hq.live_eq]; exact hperm, ?_⟩
  rw [hperm.length_eq, List.length_map]
  exact hcount.symm

namespace Proof

/-- **The status answer reflects the live connections exactly if there are none**, in every state
that can be reached and has no accept or unregister in flight. -/
theorem status_reflects_iff (h : d.Reachable) (hq : d.Quiet) :
    d.Reflects d.getStatus ↔ d.live = [] := by
  have hserver := (tracked_of_reachable h).server
  have hempty : d.getStatus.sessions = [] := by
    rw [Daemon.getStatus, hserver]
    rfl
  constructor
  · intro hr
    have hperm := hr.1
    rw [hempty] at hperm
    exact List.map_eq_nil_iff.mp hperm.nil_eq.symm
  · intro hlive
    have hcount := (protocol_tracks h hq).2
    have hperm := (protocol_tracks h hq).1
    rw [hlive, List.map_nil] at hperm
    rw [hperm.eq_nil] at hcount
    refine ⟨?_, ?_⟩
    · rw [hempty, hlive]
      exact .nil
    · rw [hempty]
      exact hcount

/-- One connection, accepted and gone again. -/
theorem status_reflects_gone :
    ∃ d : Daemon Nat, d.Reachable ∧ d.Quiet ∧ d.accepted = 1 ∧ (d.Reflects d.getStatus ↔ d.live = []) := by
  have hstart : Daemon.Reachable (.start : Daemon Nat) := .refl
  have haccept := hstart.tail (.accept _ 7 false)
  have hnumber := haccept.tail (@Daemon.Step.number _ _ [] [] _ rfl rfl)
  have hregister := hnumber.tail (@Daemon.Step.register _ _ [] [] _ 0 9 rfl rfl)
  have hclose := hregister.tail (@Daemon.Step.close _ _ [] [] _ 0 9 rfl rfl)
  have hgone := hclose.tail (@Daemon.Step.unregister _ _ [] [] _ 0 9 rfl rfl)
  have hquiet : Daemon.Quiet (⟨.new, ⟨[], 1⟩, 0, [], 1⟩ : Daemon Nat) := by simp [Daemon.Quiet]
  exact ⟨_, hgone, hquiet, rfl, status_reflects_iff hgone hquiet⟩

/-- One live connection: the answer counts it and does not list it. -/
theorem status_misses_session :
    ∃ d : Daemon Nat, d.Reachable ∧ d.Quiet ∧ d.getStatus = ⟨1, []⟩
      ∧ ¬ d.Reflects d.getStatus := by
  have hstart : Daemon.Reachable (.start : Daemon Nat) := .refl
  have haccept := hstart.tail (.accept _ 7 false)
  have hnumber := haccept.tail (@Daemon.Step.number _ _ [] [] _ rfl rfl)
  have hregister := hnumber.tail (@Daemon.Step.register _ _ [] [] _ 0 9 rfl rfl)
  refine ⟨_, hregister, ?_, rfl, ?_⟩
  · intro c hc
    rw [List.mem_singleton.mp hc]
    exact ⟨0, 9, rfl⟩
  · intro hr
    exact absurd hr.2 (by decide)

end Proof

end Irosh
