import Irosh.Server.Loop

/-!
# One-time wormholes

A wormhole that is not persistent is meant for a single pairing. It is burned by
the loop, though, some time after the pairing has told it so, and by then any
number of sessions may have captured its password. Nothing in the password check
asks whether the wormhole still exists or has been used, and the checks of two
sessions may both have verified the password before either of them writes its key.

What the state does offer is the success flag, which all sessions of a wormhole
share. `UsedOnce` says that the flag is a faithful witness: whenever a key has been
vaulted through a wormhole, its flag is up, or a check is just about to raise it. So
a wormhole is used once in every run in which a new key is settled for its password
only while the wormhole is active and its flag is neither up nor about to be.
-/

namespace Irosh.Proof

open Irosh Server UnifiedAuthenticator

variable {K H P : Type}

/-- The session has a key in its cache that its list does not know. -/
def hasNewKey [DecidableEq K] (p : PairingSession K P) : Bool :=
  match p.cachedKey with
  | some k => !decide (k ∈ p.keys)
  | none => false

/-- A check that has verified the temp password of a one-time wormhole writes a new key only while the
wormhole is active, its success flag is down, and no other check is about to raise it. -/
def SettlesInTime [DecidableEq K] (s : Server K H P) : ServerEvent K H P → Bool
  | .advance i _ wr =>
      match s.sessionAt i with
      | some (p, w) =>
          match p.check with
          | some (.settle (some true)) =>
              w.persistent || !hasNewKey p || wr.isSome
                || (s.active == some p.wid && !w.success && !s.flagPending p.wid)
          | _ => true
      | none => true
  | _ => true

/-! ## How the heap changes -/

/-- Wormholes are added, never removed; their kind is fixed and their flag is never lowered. -/
structure HeapLe (h h' : List (Wormhole H)) : Prop where
  length : h.length ≤ h'.length
  kept : ∀ w wh', h'[w]? = some wh' → w < h.length →
    ∃ wh, h[w]? = some wh ∧ wh'.persistent = wh.persistent
      ∧ (wh.success = true → wh'.success = true)

theorem HeapLe.refl (h : List (Wormhole H)) : HeapLe h h :=
  ⟨Nat.le_refl _, fun _ wh' hw _ => ⟨wh', hw, rfl, fun hs => hs⟩⟩

theorem HeapLe.trans {h₁ h₂ h₃ : List (Wormhole H)} (h : HeapLe h₁ h₂) (h' : HeapLe h₂ h₃) :
    HeapLe h₁ h₃ := by
  refine ⟨Nat.le_trans h.length h'.length, ?_⟩
  intro w wh₃ hw hlt
  obtain ⟨wh₂, hw₂, hp₂, hs₂⟩ := h'.kept w wh₃ hw (Nat.lt_of_lt_of_le hlt h.length)
  obtain ⟨wh₁, hw₁, hp₁, hs₁⟩ := h.kept w wh₂ hw₂ hlt
  exact ⟨wh₁, hw₁, hp₂.trans hp₁, fun hs => hs₂ (hs₁ hs)⟩

theorem heapLe_disarm (h : List (Wormhole H)) (v : Nat) : HeapLe h (h.modify v Wormhole.disarm) := by
  refine ⟨by simp, ?_⟩
  intro w wh' hw _
  rw [List.getElem?_modify] at hw
  obtain ⟨wh, ho, rfl⟩ := Option.map_eq_some_iff.mp hw
  refine ⟨wh, ho, ?_, ?_⟩ <;> split <;> first | rfl | exact fun hs => hs

theorem heapLe_append (h : List (Wormhole H)) (wh : Wormhole H) : HeapLe h (h ++ [wh]) := by
  refine ⟨by simp, ?_⟩
  intro w wh' hw hlt
  rw [List.getElem?_append_left hlt] at hw
  exact ⟨wh', hw, rfl, fun hs => hs⟩

theorem heapLe_set {h : List (Wormhole H)} {v : Nat} {wh new : Wormhole H}
    (hv : h[v]? = some wh) (hp : new.persistent = wh.persistent)
    (hs : wh.success = true → new.success = true) : HeapLe h (h.set v new) := by
  refine ⟨by simp, ?_⟩
  intro w wh' hw _
  by_cases hvw : v = w
  · subst hvw
    rw [List.getElem?_set_self (List.getElem?_eq_some_iff.mp hv).1] at hw
    cases hw
    exact ⟨wh, hv, hp, hs⟩
  · rw [List.getElem?_set_ne hvw] at hw
    exact ⟨wh', hw, rfl, fun hs => hs⟩

theorem heapLe_takeWormhole (s : Server K H P) : HeapLe s.heap s.takeWormhole.heap := by
  unfold takeWormhole
  split
  · exact .refl _
  · exact heapLe_disarm _ _

theorem heapLe_clearFor (s : Server K H P) (v : Nat) : HeapLe s.heap (s.clearFor v).heap := by
  unfold clearFor
  split
  · exact .refl _
  · exact heapLe_takeWormhole s

theorem takeWormhole_pairings (s : Server K H P) :
    s.takeWormhole.pairings = s.pairings ∧ s.takeWormhole.sessions = s.sessions := by
  unfold takeWormhole
  split <;> exact ⟨rfl, rfl⟩

theorem clearFor_pairings (s : Server K H P) (w : Nat) :
    (s.clearFor w).pairings = s.pairings ∧ (s.clearFor w).sessions = s.sessions := by
  unfold clearFor
  split
  · exact ⟨rfl, rfl⟩
  · exact takeWormhole_pairings s

/-- What is pending is a matter of the sessions. -/
theorem flagPending_congr {s s' : Server K H P} (h : s'.sessions = s.sessions) (w : Nat) :
    s'.flagPending w = s.flagPending w := by
  unfold flagPending
  rw [h]

/-! ## The invariant -/

/-- The keys vaulted through wormhole `w`. -/
def pairingsOf (s : Server K H P) (w : Nat) : List (Pairing K) := s.pairings.filter (·.wid == w)

/-- **The flag of a wormhole says whether it has been used**, or is about to. -/
structure UsedOnce (s : Server K H P) : Prop where
  /-- Pairings belong to wormholes that exist. -/
  bound : ∀ x ∈ s.pairings, x.wid < s.heap.length
  /-- At most one for each one-time wormhole. -/
  once : ∀ w wh, s.heap[w]? = some wh → wh.persistent = false → (pairingsOf s w).length ≤ 1
  /-- And that one was made while the wormhole was active, and has raised its flag or will next. -/
  flagged : ∀ w wh, s.heap[w]? = some wh → wh.persistent = false →
    ∀ x ∈ pairingsOf s w, x.live = true ∧ (wh.success = true ∨ s.flagPending w = true)

theorem usedOnce_start (ipc shutdown : Bool) (policy : HostKeyPolicy) (dir : ClientsDir K)
    (shadow : Shadow H) : UsedOnce (start ipc shutdown policy dir shadow : Server K H P) := by
  refine ⟨?_, ?_, ?_⟩
  · intro x hx
    cases hx
  · intro w wh hw
    simp [start] at hw
  · intro w wh hw
    simp [start] at hw

/-- No key has been vaulted through a wormhole that does not exist yet. -/
theorem pairingsOf_eq_nil {s : Server K H P} (h : UsedOnce s) {w : Nat} (hw : s.heap.length ≤ w) :
    pairingsOf s w = [] := by
  apply List.filter_eq_nil_iff.mpr
  intro x hx hxw
  have := h.bound x hx
  have hxw' : x.wid = w := by simpa using hxw
  omega

/-- **Preserved by whatever vaults nothing.** -/
theorem usedOnce_of_heapLe {s s' : Server K H P} (h : UsedOnce s) (hp : s'.pairings = s.pairings)
    (hh : HeapLe s.heap s'.heap)
    (hf : ∀ w, s.flagPending w = true → s'.flagPending w = true
      ∨ ∀ wh', s'.heap[w]? = some wh' → wh'.success = true) : UsedOnce s' := by
  have hof : ∀ w, pairingsOf s' w = pairingsOf s w := by
    intro w
    unfold pairingsOf
    rw [hp]
  refine ⟨?_, ?_, ?_⟩
  · intro x hx
    rw [hp] at hx
    exact Nat.lt_of_lt_of_le (h.bound x hx) hh.length
  · intro w wh' hw hpers
    rw [hof]
    -- a wormhole that is new has no pairing yet
    by_cases hlt : w < s.heap.length
    · obtain ⟨wh, hwh, hpe, _⟩ := hh.kept w wh' hw hlt
      exact h.once w wh hwh (by rw [← hpe]; exact hpers)
    · rw [pairingsOf_eq_nil h (Nat.le_of_not_lt hlt)]
      exact Nat.zero_le 1
  · intro w wh' hw hpers x hx
    rw [hof] at hx
    by_cases hlt : w < s.heap.length
    · obtain ⟨wh, hwh, hpe, hs⟩ := hh.kept w wh' hw hlt
      obtain ⟨hlive, hsucc⟩ := h.flagged w wh hwh (by rw [← hpe]; exact hpers) x hx
      refine ⟨hlive, ?_⟩
      rcases hsucc with hsucc | hpend
      · exact .inl (hs hsucc)
      · rcases hf w hpend with hpend | hraised
        · exact .inr hpend
        · exact .inl (hraised wh' hw)
    · rw [pairingsOf_eq_nil h (Nat.le_of_not_lt hlt)] at hx
      cases hx

/-- **Preserved by a pairing**, if it is made in time. -/
theorem usedOnce_of_pairing {s s' : Server K H P} {v : Nat} {wh new : Wormhole H} {k : K}
    (h : UsedOnce s) (hv : s.heap[v]? = some wh)
    (hin : wh.persistent = false →
      s.active = some v ∧ wh.success = false ∧ s.flagPending v = false)
    (hheap : s'.heap = s.heap.set v new) (hpers : new.persistent = wh.persistent)
    (hpend : ∀ w, w = v ∨ s.flagPending w = true → s'.flagPending w = true)
    (hp : s'.pairings = s.pairings ++ [⟨v, k, decide (s.active = some v)⟩]) : UsedOnce s' := by
  have hlt : v < s.heap.length := (List.getElem?_eq_some_iff.mp hv).1
  have hself : pairingsOf s' v = pairingsOf s v ++ [⟨v, k, decide (s.active = some v)⟩] := by
    unfold pairingsOf
    rw [hp, List.filter_append]
    simp
  have hother : ∀ w, v ≠ w → pairingsOf s' w = pairingsOf s w := by
    intro w hw
    unfold pairingsOf
    rw [hp, List.filter_append]
    simp [hw]
  -- while the flag is neither up nor about to be, nothing has been vaulted through this wormhole
  have hnone : wh.persistent = false → pairingsOf s v = [] := by
    intro hone
    apply List.eq_nil_iff_forall_not_mem.mpr
    intro x hx
    obtain ⟨_, hdown, hnopend⟩ := hin hone
    rcases (h.flagged v wh hv hone x hx).2 with hflag | hflag
    · rw [hdown] at hflag
      cases hflag
    · rw [hnopend] at hflag
      cases hflag
  refine ⟨?_, ?_, ?_⟩
  · intro x hx
    rw [hheap, List.length_set]
    rw [hp] at hx
    rcases List.mem_append.mp hx with hx | hx
    · exact h.bound x hx
    · rw [List.mem_singleton.mp hx]
      exact hlt
  · intro w wh' hw hone
    rw [hheap] at hw
    by_cases hvw : v = w
    · subst hvw
      rw [List.getElem?_set_self hlt] at hw
      cases hw
      rw [hself, hnone (by rw [← hpers]; exact hone)]
      exact Nat.le_refl 1
    · rw [List.getElem?_set_ne hvw] at hw
      rw [hother w hvw]
      exact h.once w wh' hw hone
  · intro w wh' hw hone x hx
    rw [hheap] at hw
    by_cases hvw : v = w
    · subst hvw
      rw [List.getElem?_set_self hlt] at hw
      cases hw
      have hone' : wh.persistent = false := by rw [← hpers]; exact hone
      rw [hself, hnone hone', List.nil_append, List.mem_singleton] at hx
      rw [hx]
      exact ⟨decide_eq_true (hin hone').1, .inr (hpend v (.inl rfl))⟩
    · rw [List.getElem?_set_ne hvw] at hw
      rw [hother w hvw] at hx
      obtain ⟨hlive, hsucc⟩ := h.flagged w wh' hw hone x hx
      exact ⟨hlive, hsucc.imp_right fun hq => hpend w (.inr hq)⟩

variable [DecidableEq K]

/-- What the guard says about a check that vaults a key. -/
theorem settlesInTime_vaults {s : Server K H P} {i now : Nat} {p : PairingSession K P}
    {w : Wormhole H} {k : K} (hi : s.sessionAt i = some (p, w))
    (hc : p.check = some (.settle (some true))) (hk : p.cachedKey = some k) (hnew : k ∉ p.keys)
    (hg : SettlesInTime s (.advance i now none) = true) (hone : w.persistent = false) :
    s.active = some p.wid ∧ w.success = false ∧ s.flagPending p.wid = false := by
  have hn : hasNewKey p = true := by simp [hasNewKey, hk, hnew]
  simpa [SettlesInTime, hi, hc, hone, hn, and_assoc] using hg

/-- **A step of a check**, which may vault a key. -/
theorem usedOnce_check {c : Crypto K H P} {s : Server K H P} {i now : Nat}
    {wr : Option StorageError} {p : PairingSession K P} {w : Wormhole H} {pc pc' : Check K P}
    {a : UnifiedAuthenticator K H} (h : UsedOnce s)
    (hg : SettlesInTime s (.advance i now wr) = true) (hi : s.sessionAt i = some (p, w))
    (hc : p.check = some pc) (hs : stepCheck c now wr (s.view p w) pc = some (pc', a)) :
    UsedOnce { s.writeBack i p w pc' a with
      pairings := s.pairings ++ ((pc.vaults c now wr (s.view p w)).toList.map fun k =>
        ⟨p.wid, k, decide (s.active = some p.wid)⟩) } := by
  obtain ⟨hsess, hheap⟩ := sessionAt_eq_some hi
  have hself : (s.writeBack i p w pc' a).heap[p.wid]?
      = some { w with success := a.successFlag, failedAttempts := a.failedAttempts } :=
    List.getElem?_set_self (List.getElem?_eq_some_iff.mp hheap).1
  cases hv : pc.vaults c now wr (s.view p w) with
  | none =>
      refine usedOnce_of_heapLe h (by simp) (heapLe_set hheap rfl (stepCheck_successFlag hs)) ?_
      intro v hpend
      by_cases hr : pc.raising = true
      · by_cases hpv : p.wid = v
        · -- this check has raised the flag it was to raise
          subst hpv
          refine .inr fun wh' hw => ?_
          rw [show _ = _ from hself] at hw
          cases hw
          exact stepCheck_raising hs hr
        · -- a flag of another wormhole is another session's to raise
          refine .inl ?_
          rw [flagPending_iff] at hpend ⊢
          obtain ⟨j, q, qc, hj, hq, hqc, hqr⟩ := hpend
          have hij : i ≠ j := by
            rintro rfl
            rw [hsess] at hj
            cases hj
            exact hpv hq
          exact ⟨j, q, qc, (List.getElem?_set_ne hij).trans hj, hq, hqc, hqr⟩
      · refine .inl (flagPending_set rfl hsess ?_ hpend)
        intro qc hqc hqr
        rw [hc] at hqc
        cases hqc
        exact absurd hqr hr
  | some k =>
      obtain ⟨rfl, hcache, hnew, rfl, hraise⟩ := stepCheck_vaults hs hv
      refine usedOnce_of_pairing (k := k) h hheap (settlesInTime_vaults hi hc hcache hnew hg) rfl rfl ?_ rfl
      rintro v (rfl | hpend)
      · rw [flagPending_iff]
        exact ⟨i, _, pc', List.getElem?_set_self (List.getElem?_eq_some_iff.mp hsess).1, rfl, rfl, hraise⟩
      · refine flagPending_set rfl hsess ?_ hpend
        intro qc hqc hqr
        rw [hc] at hqc
        cases hqc
        cases hqr

/-- **Preserved by every event.** -/
theorem usedOnce_step {c : Crypto K H P} {s s' : Server K H P} {e : ServerEvent K H P}
    (h : UsedOnce s) (hg : SettlesInTime s e = true) (hs : s.step c e = some s') :
    UsedOnce s' := by
  cases step_effect hs with
  | idle _ hi =>
      exact usedOnce_of_heapLe h hi.pairings (by rw [hi.heap]; exact .refl _)
        fun w hw => .inl (hi.pending w hw)
  | pairs w hw =>
      refine usedOnce_of_heapLe h rfl (.refl _) fun v hv => .inl ?_
      rw [flagPending_iff] at hv ⊢
      obtain ⟨j, p, pc, hj, hrest⟩ := hv
      exact ⟨j, p, pc, (List.getElem?_append_left (List.getElem?_eq_some_iff.mp hj).1).trans hj, hrest⟩
  | expires w wh hw ha =>
      exact usedOnce_of_heapLe h rfl (heapLe_disarm _ _) fun v hv => .inl hv
  | checks i now wr p w pc pc' a he hi hc hst =>
      subst he
      exact usedOnce_check h hg hi hc hst
  | enables password persistent rest he hc =>
      have ht := takeWormhole_pairings { s with controlQ := rest }
      refine usedOnce_of_heapLe h ht.1 ?_ fun v hv => .inl ?_
      · exact (heapLe_takeWormhole { s with controlQ := rest }).trans (heapLe_append _ _)
      · rw [← hv]
        exact flagPending_congr ht.2 v
  | takes s₁ hi pc =>
      have ht := takeWormhole_pairings s₁
      refine usedOnce_of_heapLe h (ht.1.trans hi.pairings) ?_ fun v hv => .inl ?_
      · have hh := heapLe_takeWormhole s₁
        rw [hi.heap] at hh
        exact hh
      · rw [← hi.pending v hv]
        exact flagPending_congr ht.2 v
  | clears w s₁ hw hi pc requested =>
      have ht := clearFor_pairings s₁ w
      refine usedOnce_of_heapLe h (ht.1.trans hi.pairings) ?_ fun v hv => .inl ?_
      · have hh := heapLe_clearFor s₁ w
        rw [hi.heap] at hh
        exact hh
      · rw [← hi.pending v hv]
        exact flagPending_congr ht.2 v

/-! ## The result -/

/--
**A one-time wormhole is used once**, in every run in which a check writes a new key
for the temp password of a one-time wormhole only while that wormhole is active and
its flag is neither up nor about to be raised: it vaults at most one key, and that
key while it was active.
-/
theorem wormhole_used_once (c : Crypto K H P) {ipc shutdown : Bool} {policy : HostKeyPolicy}
    {dir : ClientsDir K} {shadow : Shadow H} {es : List (ServerEvent K H P)} {s : Server K H P}
    (hm : Exec.Meets (Server.step c) (fun q e => SettlesInTime q e = true)
      (start ipc shutdown policy dir shadow) es)
    (hx : Exec.exec (Server.step c) (start ipc shutdown policy dir shadow) es = some s)
    {w : Nat} {wh : Wormhole H} (hw : s.heap[w]? = some wh) (hone : wh.persistent = false) :
    (pairingsOf s w).length ≤ 1 ∧ ∀ x ∈ pairingsOf s w, x.live = true := by
  have hinv : UsedOnce s :=
    Exec.exec_invariant (I := UsedOnce) (fun q e q' hi hg hs => usedOnce_step hi hg hs)
      (usedOnce_start ipc shutdown policy dir shadow) hm hx
  exact ⟨hinv.once w wh hw hone, fun x hx => (hinv.flagged w wh hw hone x hx).1⟩

/-- A daemon that enables a one-time wormhole with password 7. -/
def openedOnce : List (ServerEvent Nat Nat Nat) :=
  [.loopTest, .command (.enableWormhole (some 7) false), .recvControl, .loopTest, .loopTest]

/-- `n` steps of the check of guest `i`. -/
def steps (i n : Nat) : List (ServerEvent Nat Nat Nat) := List.replicate n (.advance i 0 none)

/-- Guest `i` connects and offers key `k`, and is asked for the password. -/
def offers (i k : Nat) : List (ServerEvent Nat Nat Nat) :=
  [.connect, .pair, .loadVault i, .begin i (.key k)] ++ steps i 4

/-- Guest `i` gives the password, which is verified. -/
def verifies (i : Nat) : List (ServerEvent Nat Nat Nat) := .begin i (.password 7) :: steps i 2

/-- One guest pairs and the wormhole is burned. -/
theorem wormhole_used_by_one_guest :
    ∃ s, Exec.exec (Server.step Crypto.clear) (start true false .tofu .empty .missing)
        (openedOnce ++ offers 0 1 ++ verifies 0 ++ steps 0 4 ++ [.deliver 0, .recvSuccess]) = some s
      ∧ pairingsOf s 0 = [⟨0, 1, true⟩] ∧ s.active = none
      ∧ (pairingsOf s 0).length ≤ 1 ∧ ∀ x ∈ pairingsOf s 0, x.live = true := by
  have hsome : (Exec.exec (Server.step Crypto.clear) (start true false .tofu .empty .missing)
      (openedOnce ++ offers 0 1 ++ verifies 0 ++ steps 0 4 ++ [.deliver 0, .recvSuccess])).map
      (fun s => (pairingsOf s 0, s.active, s.heap))
      = some ([⟨0, 1, true⟩], none, [⟨some 7, false, 0, true, false⟩]) := by decide
  obtain ⟨s, hx, hp⟩ := Option.map_eq_some_iff.mp hsome
  simp only [Prod.mk.injEq] at hp
  exact ⟨s, hx, hp.1, hp.2.1, wormhole_used_once Crypto.clear (by decide) hx
    (by rw [hp.2.2]; rfl) rfl⟩

/-- Two guests captured the wormhole. The first pairs, the loop burns the wormhole, and then the
second pairs as well. Or both verify the password before either of them writes its key. -/
theorem wormhole_used_after_burning :
    (Exec.exec (Server.step Crypto.clear) (start true false .tofu .empty .missing)
      (openedOnce ++ offers 0 1 ++ offers 1 2 ++ verifies 0 ++ steps 0 4 ++ [.deliver 0, .recvSuccess]
        ++ verifies 1 ++ steps 1 4)).map
      (fun s => (pairingsOf s 0, s.dir.keys, s.heap.map (·.persistent)))
      = some ([⟨0, 1, true⟩, ⟨0, 2, false⟩], [1, 2], [false])
    ∧ (Exec.exec (Server.step Crypto.clear) (start true false .tofu .empty .missing)
      (openedOnce ++ offers 0 1 ++ offers 1 2 ++ verifies 0 ++ verifies 1 ++ steps 0 4 ++ steps 1 4)).map
      (fun s => (pairingsOf s 0, s.dir.keys, s.heap.map (·.persistent)))
      = some ([⟨0, 1, true⟩, ⟨0, 2, true⟩], [1, 2], [false]) := by
  decide

end Irosh.Proof
