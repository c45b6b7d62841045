import Irosh.Proof.ControlSocket
import Irosh.Server.Rendezvous

/-!
# What a wormhole code leads to

Only the wormhole that is active is announced, and every other one is withdrawn by one task.
A code leads to a ticket of the daemon's own, to nothing, or to what was there before. Once
a packet has arrived, no older one is found again.

A withdrawal names the code and not the wormhole. Where a wormhole is enabled in place of
another with the same code, the withdrawal of the old one may be signed after the packet
of the new one, which is then not found although it is active.
-/

namespace Irosh.Proof

open Irosh Server Serial Exec Newest

variable {K H P R Q T : Type}

/-! ## What becomes of the active wormhole -/

/-- All a step can do to the codes and to what is active. -/
inductive Turns (d d' : IpcDaemon K H P) : Prop where
  | keeps (hcodes : d'.codes = d.codes) (h : d'.server.active = d.server.active)
  | clears (hcodes : d'.codes = d.codes) (h : d'.server.active = none)
  | enables (code : List Char) (hcodes : d'.codes = d.codes ++ [code])
      (h : d'.server.active = some d.codes.length)

theorem turns_of_active {d d' : IpcDaemon K H P} (hcodes : d'.codes = d.codes)
    (h : d'.server.active = d.server.active ∨ d'.server.active = none) : Turns d d' :=
  h.elim (.keeps hcodes) (.clears hcodes)

theorem tell_codes (sender : Option Nat) (r : IpcResponse) (d : IpcDaemon K H P) :
    (d.tell sender r).codes = d.codes := by
  cases sender with
  | none => rfl
  | some i => rfl

/-- A daemon that has told its answer. -/
theorem Turns.tell {d d' : IpcDaemon K H P} (h : Turns d d') (sender : Option Nat) (r : IpcResponse) :
    Turns d (d'.tell sender r) := by
  have hcodes := tell_codes sender r d'
  have hserver := congrArg Server.active (tell_server sender r d')
  cases h with
  | keeps hc ha => exact .keeps (hcodes.trans hc) (hserver.trans ha)
  | clears hc ha => exact .clears (hcodes.trans hc) (hserver.trans ha)
  | enables code hc ha => exact .enables code (hcodes.trans hc) (hserver.trans ha)

theorem turns_handled {codec : IpcCodec H} {first : DaemonView} {d : IpcDaemon K H P}
    (h : Orderly codec first d) {m : Message H} {rest : List (Message H)} :
    Turns d (d.handled rest
      ({ d.server with controlQ := rest.map Message.control }.handleControl m.control) m) := by
  have htake := unasked_takeWormhole { d.server with controlQ := rest.map Message.control }
  cases m with
  | expired w => exact turns_of_active rfl (unasked_clearFor w _).active
  | request sender command =>
      cases command with
      | enableWormhole code password persistent =>
          refine Turns.tell (.enables code rfl ?_) sender .ok
          show some _ = some _
          rw [htake.heap, h.codes]
      | disableWormhole =>
          refine Turns.tell ?_ sender .ok
          exact turns_of_active rfl htake.active
      | getStatus =>
          refine Turns.tell ?_ sender _
          exact .keeps rfl rfl
      | shutdown => exact .keeps rfl rfl

section Turns

variable [DecidableEq K] [DecidableEq H] {codec : IpcCodec H} {c : Crypto K H P} {first : DaemonView}
  {d d' : IpcDaemon K H P}

theorem turns_step {act : IpcAct K H P} (h : Orderly codec first d) (hs : d.step codec c act = some d') :
    Turns d d' := by
  by_cases hlocal : isLocal act = true
  · obtain ⟨i, v, v', -, -, -, rfl⟩ := h.local hlocal hs
    exact .keeps rfl rfl
  · cases act with
    | daemon e =>
        by_cases hown : isUnasked e = true
        · by_cases hsent : e = .ipcSent
          · subst hsent
            obtain ⟨s, hstep, rfl⟩ := Option.map_eq_some_iff.mp hs
            have hturns : Turns d { d with server := s, parked := none } := .keeps rfl (ipcSent_step hstep).1
            exact hturns.tell d.parked .ok
          · simp only [IpcDaemon.step] at hs
            rw [daemonStep_unasked hown hsent] at hs
            obtain ⟨s, hstep, rfl⟩ := Option.map_eq_some_iff.mp hs
            exact turns_of_active rfl (unasked_step hown hstep).active
        · cases e with
          | command r => cases hs
          | expire w =>
              obtain ⟨s, hstep, rfl⟩ := Option.map_eq_some_iff.mp hs
              rw [expire_step hstep]
              exact .keeps rfl rfl
          | recvControl =>
              simp only [IpcDaemon.step, IpcDaemon.daemonStep] at hs
              split at hs
              · rename_i m rest hqueue
                obtain ⟨s, hstep, rfl⟩ := Option.map_eq_some_iff.mp hs
                have haligned := h.aligned
                rw [hqueue, List.map_cons] at haligned
                rw [recvControl_step haligned hstep]
                exact turns_handled h
              · cases hs
          | _ => exact absurd rfl hown
    | inProcess command =>
        simp only [IpcDaemon.step] at hs
        split at hs
        · cases hs
        · obtain ⟨s, hstep, rfl⟩ := Option.map_eq_some_iff.mp hs
          rw [command_step hstep]
          exact .keeps rfl rfl
    | accept payload =>
        simp only [IpcDaemon.step] at hs
        split at hs <;> cases hs
        exact .keeps rfl rfl
    | enqueue i =>
        obtain ⟨v, command, -, -, ⟨-, rfl⟩ | ⟨d₁, hput, rfl⟩⟩ := enqueue_some hs
        · exact .keeps rfl rfl
        · obtain ⟨s, hstep, rfl⟩ := Option.map_eq_some_iff.mp hput
          rw [command_step hstep]
          exact .keeps rfl rfl
    | _ => exact absurd rfl hlocal

end Turns

/-! ## The tasks and the relays -/

/-- Where a packet comes from: it was there before, or a task has signed it. -/
def Traced (pkarr : Pkarr R Q T) (ticket : T) (old : R) (bs : List Broadcast) (us : List Unpublish) (q : Q)
    (p : Stamped (Option T)) : Prop :=
  pkarr.relays.find old q = some p
    ∨ (∃ (w : Nat) (b : Broadcast), bs[w]? = some b ∧ b.signed = some p.stamp ∧ pkarr.publicKey b.code = q
      ∧ p.value = some ticket)
    ∨ ∃ (j : Nat) (u : Unpublish), us[j]? = some u ∧ u.signed = some p.stamp ∧ pkarr.publicKey u.code = q
      ∧ p.value = none

/-- **What the tasks and the relays keep**, where `codes` are the codes of the wormholes and `active` is the
active one. -/
structure Posted (pkarr : Pkarr R Q T) (ticket : T) (old : R) (began : Nat) (codes : List (List Char))
    (active : Option Nat) (bs : List Broadcast) (us : List Unpublish) (clock : Nat) (relays : R) : Prop where
  begun : began ≤ clock
  named : bs.map Broadcast.code = codes
  alive : ∀ (w : Nat) (b : Broadcast), bs[w]? = some b → (b.alive = true ↔ active = some w)
  withdrawn : ∀ w, w ∈ us.map Unpublish.wid ↔ ∃ b : Broadcast, bs[w]? = some b ∧ b.alive = false
  code : ∀ (j : Nat) (u : Unpublish), us[j]? = some u → codes[u.wid]? = some u.code
  once : (us.map Unpublish.wid).Nodup
  signed : ∀ (w : Nat) (b : Broadcast) (t : Nat), bs[w]? = some b → b.signed = some t → began ≤ t ∧ t < clock
  signedEmpty : ∀ (j : Nat) (u : Unpublish) (t : Nat), us[j]? = some u → u.signed = some t →
    began ≤ t ∧ t < clock
  apart : ∀ (w : Nat) (b : Broadcast) (j : Nat) (u : Unpublish) (t : Nat), bs[w]? = some b →
    us[j]? = some u → b.signed = some t → u.signed ≠ some t
  found : ∀ q p, pkarr.relays.find relays q = some p → Traced pkarr ticket old bs us q p

section Posted

variable {pkarr : Pkarr R Q T} {ticket : T} {old relays : R} {began clock clock' : Nat}
  {codes : List (List Char)}
  {active : Option Nat} {bs bs' : List Broadcast} {us us' : List Unpublish} {w j : Nat} {b b' : Broadcast}
  {u u' : Unpublish} {code : List Char} {q : Q} {p : Stamped (Option T)}

/-- No signature is lost. -/
theorem Traced.mono (h : Traced pkarr ticket old bs us q p)
    (hbs : ∀ (w : Nat) (b : Broadcast), bs[w]? = some b → b.signed ≠ none →
      ∃ b' : Broadcast, bs'[w]? = some b' ∧ b'.code = b.code ∧ b'.signed = b.signed)
    (hus : ∀ (j : Nat) (u : Unpublish), us[j]? = some u → u.signed ≠ none →
      ∃ u' : Unpublish, us'[j]? = some u' ∧ u'.code = u.code ∧ u'.signed = u.signed) :
    Traced pkarr ticket old bs' us' q p := by
  rcases h with hold | ⟨w, b, hw, hs, hkey, hv⟩ | ⟨j, u, hj, hs, hkey, hv⟩
  · exact .inl hold
  · obtain ⟨b', hw', hcode, hs'⟩ := hbs w b hw (by rw [hs]; exact Option.some_ne_none _)
    exact .inr (.inl ⟨w, b', hw', hs'.trans hs, hcode ▸ hkey, hv⟩)
  · obtain ⟨u', hj', hcode, hs'⟩ := hus j u hj (by rw [hs]; exact Option.some_ne_none _)
    exact .inr (.inr ⟨j, u', hj', hs'.trans hs, hcode ▸ hkey, hv⟩)

theorem set_at {A : Type} {vs : List A} {i : Nat} {v v' : A} (hi : vs[i]? = some v) :
    (vs.set i v')[i]? = some v' :=
  List.getElem?_set_self (List.getElem?_eq_some_iff.mp hi).1

/-- What is the same at each place is the same as a list. -/
theorem map_eq_of_at {A B : Type} {f : A → B} {vs vs' : List A} (hlength : vs'.length = vs.length)
    (hsame : ∀ (i : Nat) (v : A), vs[i]? = some v → ∃ v' : A, vs'[i]? = some v' ∧ f v' = f v) :
    vs'.map f = vs.map f := by
  refine List.ext_getElem? fun i => ?_
  rw [List.getElem?_map, List.getElem?_map]
  cases hv : vs[i]? with
  | none =>
      have hout : vs'.length ≤ i := hlength ▸ List.getElem?_eq_none_iff.mp hv
      rw [List.getElem?_eq_none hout]
  | some v =>
      obtain ⟨v', hv', hf⟩ := hsame i v hv
      rw [hv']
      exact congrArg some hf

/-- **A broadcast goes on.** It stays what it is, but it may sign. -/
theorem Posted.broadcast (h : Posted pkarr ticket old began codes active bs us clock relays)
    (hw : bs[w]? = some b) (hcode : b'.code = b.code) (halive : b'.alive = b.alive)
    (hle : clock ≤ clock')
    (hsigned : b'.signed = b.signed ∨ b.signed = none ∧ b'.signed = some clock ∧ clock < clock') :
    Posted pkarr ticket old began codes active (bs.set w b') us clock' relays := by
  -- every entry of the new list has one of the old list behind it
  have hold : ∀ (i : Nat) (x : Broadcast), (bs.set w b')[i]? = some x →
      ∃ y : Broadcast, bs[i]? = some y ∧ x.code = y.code ∧ x.alive = y.alive
      ∧ ∀ t, x.signed = some t → y.signed = some t ∨ t = clock ∧ clock < clock' := by
    intro i x hx
    rcases getElem?_of_set hx with ⟨rfl, rfl⟩ | ⟨-, hsame⟩
    · refine ⟨b, hw, hcode, halive, fun t ht => ?_⟩
      rcases hsigned with hkept | ⟨-, hnew, hlt⟩
      · exact .inl (hkept ▸ ht)
      · rw [hnew] at ht
        exact .inr ⟨(Option.some.inj ht).symm, hlt⟩
    · exact ⟨x, hsame, rfl, rfl, fun t ht => .inl ht⟩
  have hnew : ∀ (i : Nat) (y : Broadcast), bs[i]? = some y →
      ∃ x : Broadcast, (bs.set w b')[i]? = some x ∧ x.code = y.code ∧ x.alive = y.alive
      ∧ (y.signed ≠ none → x.signed = y.signed) := by
    intro i y hy
    by_cases hiw : i = w
    · subst hiw
      rw [hw] at hy
      cases hy
      refine ⟨b', set_at hw, hcode, halive, fun hne => ?_⟩
      rcases hsigned with hkept | ⟨hnone, -⟩
      · exact hkept
      · exact absurd hnone hne
    · exact ⟨y, (List.getElem?_set_ne (Ne.symm hiw)).trans hy, rfl, rfl, fun _ => rfl⟩
  refine ⟨h.begun.trans hle, ?_, ?_, ?_, h.code, h.once, ?_, ?_, ?_, ?_⟩
  · rw [← h.named]
    refine map_eq_of_at List.length_set fun i y hy => ?_
    obtain ⟨x, hx, hxcode, -⟩ := hnew i y hy
    exact ⟨x, hx, hxcode⟩
  · intro i x hx
    obtain ⟨y, hy, -, hsame, -⟩ := hold i x hx
    rw [hsame]
    exact h.alive i y hy
  · intro i
    rw [h.withdrawn i]
    constructor
    · rintro ⟨y, hy, hdead⟩
      obtain ⟨x, hx, -, hsame, -⟩ := hnew i y hy
      exact ⟨x, hx, hsame.trans hdead⟩
    · rintro ⟨x, hx, hdead⟩
      obtain ⟨y, hy, -, hsame, -⟩ := hold i x hx
      exact ⟨y, hy, hsame.symm.trans hdead⟩
  · intro i x t hx ht
    obtain ⟨y, hy, -, -, hsign⟩ := hold i x hx
    have hbegan := h.begun
    rcases hsign t ht with hkept | ⟨rfl, hlt⟩
    · have := h.signed i y t hy hkept
      omega
    · omega
  · intro i v t hv ht
    have := h.signedEmpty i v t hv ht
    omega
  · intro i x k v t hx hv ht hvt
    obtain ⟨y, hy, -, -, hsign⟩ := hold i x hx
    have hbefore := h.signedEmpty k v t hv hvt
    rcases hsign t ht with hkept | ⟨rfl, -⟩
    · exact h.apart i y k v t hy hv hkept hvt
    · omega
  · intro q p hq
    refine (h.found q p hq).mono (fun i y hy hne => ?_) fun k v hv _ => ⟨v, hv, rfl, rfl⟩
    obtain ⟨x, hx, hxcode, -, hkept⟩ := hnew i y hy
    exact ⟨x, hx, hxcode, hkept hne⟩

/-- **A task that unpublishes goes on.** -/
theorem Posted.unpublish (h : Posted pkarr ticket old began codes active bs us clock relays)
    (hj : us[j]? = some u) (hwid : u'.wid = u.wid) (hcode : u'.code = u.code) (hle : clock ≤ clock')
    (hsigned : u'.signed = u.signed ∨ u.signed = none ∧ u'.signed = some clock ∧ clock < clock') :
    Posted pkarr ticket old began codes active bs (us.set j u') clock' relays := by
  have hold : ∀ (i : Nat) (x : Unpublish), (us.set j u')[i]? = some x →
      ∃ y : Unpublish, us[i]? = some y ∧ x.wid = y.wid ∧ x.code = y.code
      ∧ ∀ t, x.signed = some t → y.signed = some t ∨ t = clock ∧ clock < clock' := by
    intro i x hx
    rcases getElem?_of_set hx with ⟨rfl, rfl⟩ | ⟨-, hsame⟩
    · refine ⟨u, hj, hwid, hcode, fun t ht => ?_⟩
      rcases hsigned with hkept | ⟨-, hnew, hlt⟩
      · exact .inl (hkept ▸ ht)
      · rw [hnew] at ht
        exact .inr ⟨(Option.some.inj ht).symm, hlt⟩
    · exact ⟨x, hsame, rfl, rfl, fun t ht => .inl ht⟩
  have hwids : (us.set j u').map Unpublish.wid = us.map Unpublish.wid := by
    refine map_eq_of_at List.length_set fun i y hy => ?_
    by_cases hij : i = j
    · subst hij
      rw [hj] at hy
      cases hy
      exact ⟨u', set_at hj, hwid⟩
    · exact ⟨y, (List.getElem?_set_ne (Ne.symm hij)).trans hy, rfl⟩
  refine ⟨h.begun.trans hle, h.named, h.alive, ?_, ?_, ?_, ?_, ?_, ?_, ?_⟩
  · rw [hwids]
    exact h.withdrawn
  · intro i x hx
    obtain ⟨y, hy, hxwid, hxcode, -⟩ := hold i x hx
    rw [hxwid, hxcode]
    exact h.code i y hy
  · rw [hwids]
    exact h.once
  · intro i x t hx ht
    have := h.signed i x t hx ht
    omega
  · intro i x t hx ht
    obtain ⟨y, hy, -, -, hsign⟩ := hold i x hx
    have hbegan := h.begun
    rcases hsign t ht with hkept | ⟨rfl, hlt⟩
    · have := h.signedEmpty i y t hy hkept
      omega
    · omega
  · intro k v i x t hv hx ht hxt
    obtain ⟨y, hy, -, -, hsign⟩ := hold i x hx
    have hbefore := h.signed k v t hv ht
    rcases hsign t hxt with hkept | ⟨rfl, -⟩
    · exact h.apart k v i y t hv hy ht hkept
    · omega
  · intro q p hq
    refine (h.found q p hq).mono (fun k v hv _ => ⟨v, hv, rfl, rfl⟩) fun i y hy hne => ?_
    by_cases hij : i = j
    · subst hij
      rw [hj] at hy
      cases hy
      refine ⟨u', set_at hj, hcode, ?_⟩
      rcases hsigned with hkept | ⟨hnone, -⟩
      · exact hkept
      · exact absurd hnone hne
    · exact ⟨y, (List.getElem?_set_ne (Ne.symm hij)).trans hy, rfl, rfl⟩

/-- **The active wormhole is cleared.** -/
theorem Posted.clear (h : Posted pkarr ticket old began codes (some w) bs us clock relays)
    (hcode : codes[w]? = some code) :
    Posted pkarr ticket old began codes none (bs.modify w Broadcast.abort)
      (us ++ [⟨w, code, none, false⟩]) clock
      relays := by
  have hbs : ∃ b, bs[w]? = some b ∧ b.code = code := by
    rw [← h.named, List.getElem?_map] at hcode
    exact Option.map_eq_some_iff.mp hcode
  obtain ⟨b, hw, -⟩ := hbs
  have halive : b.alive = true := (h.alive w b hw).mpr rfl
  -- aborting changes nothing but whether a task is alive
  have hold : ∀ (i : Nat) (x : Broadcast), (bs.modify w Broadcast.abort)[i]? = some x →
      ∃ y : Broadcast, bs[i]? = some y ∧ x.signed = y.signed
      ∧ (x.alive = true → False) ∧ (i ≠ w → x = y) := by
    intro i x hx
    rw [modify_eq_set _ hw] at hx
    rcases getElem?_of_set hx with ⟨rfl, rfl⟩ | ⟨hne, hsame⟩
    · exact ⟨b, hw, rfl, (fun hx => by cases hx), fun hne => absurd rfl hne⟩
    · refine ⟨x, hsame, rfl, fun hx => ?_, fun _ => rfl⟩
      exact hne (Option.some.inj ((h.alive i x hsame).mp hx)).symm
  have hnew : ∀ (i : Nat) (y : Broadcast), bs[i]? = some y →
      ∃ x : Broadcast, (bs.modify w Broadcast.abort)[i]? = some x ∧ x.code = y.code
      ∧ x.signed = y.signed := by
    intro i y hy
    rw [modify_eq_set _ hw]
    by_cases hiw : i = w
    · subst hiw
      rw [hw] at hy
      cases hy
      exact ⟨b.abort, set_at hw, rfl, rfl⟩
    · exact ⟨y, (List.getElem?_set_ne (Ne.symm hiw)).trans hy, rfl, rfl⟩
  have hfresh : w ∉ us.map Unpublish.wid := by
    intro hmem
    obtain ⟨b', hb', hdead⟩ := (h.withdrawn w).mp hmem
    rw [hw] at hb'
    cases hb'
    rw [halive] at hdead
    cases hdead
  refine ⟨h.begun, ?_, ?_, ?_, ?_, ?_, ?_, ?_, ?_, ?_⟩
  · rw [← h.named]
    refine map_eq_of_at (List.length_modify _ _ _) fun i y hy => ?_
    obtain ⟨x, hx, hxcode, -⟩ := hnew i y hy
    exact ⟨x, hx, hxcode⟩
  · intro i x hx
    obtain ⟨y, -, -, hdead, -⟩ := hold i x hx
    exact ⟨fun hx => (hdead hx).elim, fun hx => by cases hx⟩
  · intro i
    rw [List.map_append, List.mem_append, h.withdrawn i]
    constructor
    · rintro (⟨y, hy, -⟩ | hlast)
      · obtain ⟨x, hx, -⟩ := hnew i y hy
        obtain ⟨-, -, -, hdead, -⟩ := hold i x hx
        exact ⟨x, hx, Bool.eq_false_iff.mpr hdead⟩
      · have hiw : i = w := List.mem_singleton.mp hlast
        obtain ⟨x, hx, -⟩ := hnew w b hw
        obtain ⟨-, -, -, hdead, -⟩ := hold w x hx
        exact ⟨x, hiw ▸ hx, Bool.eq_false_iff.mpr hdead⟩
    · rintro ⟨x, hx, hdead⟩
      by_cases hiw : i = w
      · exact .inr (hiw ▸ List.mem_singleton_self _)
      · obtain ⟨y, hy, -, -, hsame⟩ := hold i x hx
        exact .inl ⟨y, hy, hsame hiw ▸ hdead⟩
  · intro i x hx
    rcases getElem?_of_append hx with hsame | rfl
    · exact h.code i x hsame
    · exact hcode
  · rw [List.map_append]
    show (us.map Unpublish.wid ++ [w]).Nodup
    exact List.nodup_append.mpr ⟨h.once, List.nodup_singleton w,
      fun a ha a' ha' heq => hfresh (List.mem_singleton.mp ha' ▸ heq ▸ ha)⟩
  · intro i x t hx ht
    obtain ⟨y, hy, hsame, -⟩ := hold i x hx
    exact h.signed i y t hy (hsame ▸ ht)
  · intro i x t hx ht
    rcases getElem?_of_append hx with hsame | rfl
    · exact h.signedEmpty i x t hsame ht
    · cases ht
  · intro i x k v t hx hv ht hvt
    obtain ⟨y, hy, hsame, -⟩ := hold i x hx
    rcases getElem?_of_append hv with hkept | rfl
    · exact h.apart i y k v t hy hkept (hsame ▸ ht) hvt
    · cases hvt
  · intro q p hq
    refine (h.found q p hq).mono (fun i y hy _ => hnew i y hy) fun k v hv _ => ⟨v, ?_, rfl, rfl⟩
    exact (List.getElem?_append_left (List.getElem?_eq_some_iff.mp hv).1).trans hv

/-- **A wormhole is enabled.** -/
theorem Posted.spawn (h : Posted pkarr ticket old began codes none bs us clock relays) (code : List Char) :
    Posted pkarr ticket old began (codes ++ [code]) (some codes.length)
      (bs ++ [.spawned code]) us clock relays := by
  have hlength : bs.length = codes.length := by rw [← h.named, List.length_map]
  have hnew : (bs ++ [Broadcast.spawned code])[codes.length]? = some (.spawned code) := by
    rw [← hlength]
    exact List.getElem?_concat_length
  have hold : ∀ (i : Nat) (x : Broadcast), (bs ++ [Broadcast.spawned code])[i]? = some x →
      bs[i]? = some x ∨ i = codes.length ∧ x = .spawned code := by
    intro i x hx
    by_cases hi : i < bs.length
    · rw [List.getElem?_append_left hi] at hx
      exact .inl hx
    · have hi' : i < bs.length + 1 := by
        have := (List.getElem?_eq_some_iff.mp hx).1
        rw [List.length_append] at this
        exact this
      have heq : i = codes.length := by omega
      rw [heq, hnew] at hx
      exact .inr ⟨heq, (Option.some.inj hx).symm⟩
  have hkept : ∀ (i : Nat) (y : Broadcast), bs[i]? = some y → (bs ++ [Broadcast.spawned code])[i]? = some y :=
    fun i y hy => (List.getElem?_append_left (List.getElem?_eq_some_iff.mp hy).1).trans hy
  refine ⟨h.begun, ?_, ?_, ?_, ?_, h.once, ?_, h.signedEmpty, ?_, ?_⟩
  · rw [List.map_append, h.named]
    rfl
  · intro i x hx
    rcases hold i x hx with hsame | ⟨rfl, rfl⟩
    · have hlt := (List.getElem?_eq_some_iff.mp hsame).1
      have hdead := h.alive i x hsame
      refine ⟨fun hx => absurd (hdead.mp hx) (by simp), fun heq => ?_⟩
      have := Option.some.inj heq
      omega
    · exact ⟨fun _ => rfl, fun _ => rfl⟩
  · intro i
    rw [h.withdrawn i]
    constructor
    · rintro ⟨y, hy, hdead⟩
      exact ⟨y, hkept i y hy, hdead⟩
    · rintro ⟨x, hx, hdead⟩
      rcases hold i x hx with hsame | ⟨-, rfl⟩
      · exact ⟨x, hsame, hdead⟩
      · cases hdead
  · intro i x hx
    have hcode := h.code i x hx
    exact (List.getElem?_append_left (List.getElem?_eq_some_iff.mp hcode).1).trans hcode
  · intro i x t hx ht
    rcases hold i x hx with hsame | ⟨-, rfl⟩
    · exact h.signed i x t hsame ht
    · cases ht
  · intro i x k v t hx hv ht
    rcases hold i x hx with hsame | ⟨-, rfl⟩
    · exact h.apart i x k v t hsame hv ht
    · cases ht
  · intro q p hq
    exact (h.found q p hq).mono (fun i y hy _ => ⟨y, hkept i y hy, rfl, rfl⟩) fun k v hv _ =>
      ⟨v, hv, rfl, rfl⟩

/-- A packet arrives. -/
theorem Posted.put (h : Posted pkarr ticket old began codes active bs us clock relays)
    (hp : Traced pkarr ticket old bs us q p) :
    Posted pkarr ticket old began codes active bs us clock (pkarr.relays.put relays q p) := by
  refine ⟨h.begun, h.named, h.alive, h.withdrawn, h.code, h.once, h.signed, h.signedEmpty, h.apart,
    fun q' p' hq => ?_⟩
  rcases Register.of_find_put hq with ⟨rfl, rfl⟩ | hold
  · exact hp
  · exact h.found q' p' hold

theorem Posted.drop (h : Posted pkarr ticket old began codes active bs us clock relays) (q : Q) :
    Posted pkarr ticket old began codes active bs us clock (pkarr.relays.drop relays q) :=
  ⟨h.begun, h.named, h.alive, h.withdrawn, h.code, h.once, h.signed, h.signedEmpty, h.apart,
    fun q' p' hq => h.found q' p' (Register.of_find_drop hq)⟩

end Posted

/-! ## Runs -/

/-- **What every run keeps.** -/
structure Announced (pkarr : Pkarr R Q T) (ticket : T) (codec : IpcCodec H) (first : DaemonView)
    (old : R) (began : Nat) (m : Meeting K H P R) : Prop where
  orderly : Orderly codec first m.daemon
  posted :
    Posted pkarr ticket old began m.daemon.codes m.daemon.server.active m.broadcasts m.unpublishes m.clock
    m.relays

section Clearing

variable {pkarr : Pkarr R Q T} {ticket : T} {codec : IpcCodec H} {first : DaemonView} {old : R} {began : Nat}
  {m : Meeting K H P R} {d : IpcDaemon K H P} {a : Option Nat}

theorem clear_none (h : m.daemon.server.active = none) (a : Option Nat) : m.clear a = m := by
  unfold Meeting.clear
  rw [h]

theorem clear_same (m : Meeting K H P R) : m.clear m.daemon.server.active = m := by
  unfold Meeting.clear
  split
  · rename_i w code hw hcode
    rw [if_pos hw]
  · rfl

theorem clear_relays (m : Meeting K H P R) (a : Option Nat) : (m.clear a).relays = m.relays := by
  unfold Meeting.clear
  split
  · split
    · rfl
    · rfl
  · rfl

/-- What was active is withdrawn, if anything was. -/
theorem Announced.clear (h : Announced pkarr ticket codec first old began m)
    (ha : ∀ w, m.daemon.server.active = some w → a ≠ some w) :
    Posted pkarr ticket old began m.daemon.codes none (m.clear a).broadcasts (m.clear a).unpublishes
      (m.clear a).clock (m.clear a).relays := by
  cases hactive : m.daemon.server.active with
  | none =>
      rw [clear_none hactive]
      exact hactive ▸ h.posted
  | some w =>
      have hlt : w < m.daemon.codes.length := by
        rw [h.orderly.codes]
        exact h.orderly.active w hactive
      have hcode : m.daemon.codes[w]? = some m.daemon.codes[w] := List.getElem?_eq_getElem hlt
      have hclear : m.clear a = { m with
          broadcasts := m.broadcasts.modify w Broadcast.abort
          unpublishes := m.unpublishes ++ [⟨w, m.daemon.codes[w], none, false⟩] } := by
        have hactiveCode : m.daemon.activeCode = some m.daemon.codes[w] := by
          unfold IpcDaemon.activeCode
          rw [hactive]
          exact hcode
        unfold Meeting.clear
        rw [hactive, hactiveCode]
        exact if_neg (ha w hactive)
      rw [hclear]
      have hposted := h.posted
      rw [hactive] at hposted
      exact hposted.clear hcode

/-- **The tasks follow the daemon.** -/
theorem Announced.follow (h : Announced pkarr ticket codec first old began m) (ho : Orderly codec first d)
    (ht : Turns m.daemon d) : Announced pkarr ticket codec first old began (m.follow d) := by
  have hlength : m.broadcasts.length = m.daemon.codes.length := by rw [← h.posted.named, List.length_map]
  refine ⟨ho, ?_⟩
  show Posted pkarr ticket old began d.codes d.server.active ((m.clear d.server.active).broadcasts
    ++ (d.codes.drop m.broadcasts.length).map Broadcast.spawned) (m.clear d.server.active).unpublishes
    (m.clear d.server.active).clock (m.clear d.server.active).relays
  cases ht with
  | keeps hcodes hactive =>
      rw [hcodes, hactive, hlength, List.drop_length, List.map_nil, List.append_nil, clear_same]
      exact h.posted
  | clears hcodes hactive =>
      rw [hcodes, hactive, hlength, List.drop_length, List.map_nil, List.append_nil]
      exact h.clear fun w _ hw => by cases hw
  | enables code hcodes hactive =>
      rw [hcodes, hactive, hlength, List.drop_left]
      refine (h.clear fun w hw heq => ?_).spawn code
      -- the new one is behind all others
      have hlt := h.orderly.active w hw
      have hnew := Option.some.inj heq
      have hcount := h.orderly.codes
      omega

end Clearing

theorem announced_start (pkarr : Pkarr R Q T) (ticket : T) (codec : IpcCodec H)
    (ipcEnabled shutdownOnWormholeSuccess : Bool) (policy : HostKeyPolicy) (dir : ClientsDir K)
    (shadow : Shadow H) (clock : Nat) (relays : R) :
    Announced pkarr ticket codec ⟨none, 0, false⟩ relays clock
      (.start (Server.start ipcEnabled shutdownOnWormholeSuccess policy dir shadow) clock relays :
        Meeting K H P R) := by
  refine ⟨orderly_start codec ipcEnabled shutdownOnWormholeSuccess policy dir shadow, ?_⟩
  refine ⟨Nat.le_refl _, rfl, ?_, fun w => ⟨fun hw => ?_, ?_⟩, ?_, List.nodup_nil, ?_, ?_, ?_,
    fun q p hq => .inl hq⟩
  · intro w b hb; cases hb
  · cases hw
  · rintro ⟨b, hb, -⟩; cases hb
  · intro j u hu; cases hu
  · intro w b t hb; cases hb
  · intro j u t hu; cases hu
  · intro w b j u t hb; cases hb

theorem atBroadcast_some {m m' : Meeting K H P R} {w : Nat} {f : Broadcast → Option Broadcast}
    (h : m.atBroadcast w f = some m') :
    ∃ b b', m.broadcasts[w]? = some b ∧ f b = some b'
      ∧ m' = { m with broadcasts := m.broadcasts.set w b' } := by
  unfold Meeting.atBroadcast at h
  split at h
  · rename_i b hb
    obtain ⟨b', hb', rfl⟩ := Option.map_eq_some_iff.mp h
    exact ⟨b, b', hb, hb', rfl⟩
  · cases h

theorem atUnpublish_some {m m' : Meeting K H P R} {j : Nat} {f : Unpublish → Option Unpublish}
    (h : m.atUnpublish j f = some m') :
    ∃ u u', m.unpublishes[j]? = some u ∧ f u = some u'
      ∧ m' = { m with unpublishes := m.unpublishes.set j u' } := by
  unfold Meeting.atUnpublish at h
  split at h
  · rename_i u hu
    obtain ⟨u', hu', rfl⟩ := Option.map_eq_some_iff.mp h
    exact ⟨u, u', hu, hu', rfl⟩
  · cases h

/-- A broadcast goes on, and signs nothing. -/
theorem Announced.atBroadcast {pkarr : Pkarr R Q T} {ticket : T} {codec : IpcCodec H}
    {first : DaemonView} {old : R} {began : Nat} {m m' : Meeting K H P R}
    (h : Announced pkarr ticket codec first old began m) {w : Nat} {f : Broadcast → Option Broadcast}
    (hf : ∀ b b', f b = some b' → b'.code = b.code ∧ b'.alive = b.alive ∧ b'.signed = b.signed)
    (hs : m.atBroadcast w f = some m') : Announced pkarr ticket codec first old began m' := by
  obtain ⟨b, b', hb, hb', rfl⟩ := atBroadcast_some hs
  obtain ⟨hcode, halive, hsigned⟩ := hf b b' hb'
  exact ⟨h.orderly, h.posted.broadcast hb hcode halive le_rfl (.inl hsigned)⟩

section Runs

variable [DecidableEq K] [DecidableEq H] {pkarr : Pkarr R Q T} {ticket : T} {codec : IpcCodec H}
  {c : Crypto K H P}
  {first : DaemonView} {old : R} {began : Nat} {m m' : Meeting K H P R} {q : Q} {p : Stamped (Option T)}

/-- The arrival of a ticket. -/
theorem arrive_some {w : Nat} (hs : m.step pkarr ticket codec c (.arrive w) = some m') :
    ∃ b t, m.broadcasts[w]? = some b ∧ b.signed = some t ∧ m' = { m with
      broadcasts := m.broadcasts.set w { b with sending := false }
      relays := pkarr.relays.put m.relays (pkarr.publicKey b.code) ⟨t, some ticket⟩ } := by
  simp only [Meeting.step] at hs
  split at hs
  · rename_i b hb
    split at hs
    · rename_i t ht
      split at hs <;> cases hs
      exact ⟨b, t, hb, ht, rfl⟩
    · cases hs
  · cases hs

/-- The arrival of a withdrawal. -/
theorem arriveEmpty_some {j : Nat} (hs : m.step pkarr ticket codec c (.arriveEmpty j) = some m') :
    ∃ u t, m.unpublishes[j]? = some u ∧ u.signed = some t ∧ m' = { m with
      unpublishes := m.unpublishes.set j { u with finished := true }
      relays := pkarr.relays.put m.relays (pkarr.publicKey u.code) ⟨t, none⟩ } := by
  simp only [Meeting.step] at hs
  split at hs
  · rename_i u hu
    split at hs
    · rename_i t ht
      split at hs <;> cases hs
      exact ⟨u, t, hu, ht, rfl⟩
    · cases hs
  · cases hs

/-- **Every step keeps it.** -/
theorem Announced.step {act : MeetingAct K H P Q} (h : Announced pkarr ticket codec first old began m)
    (hs : m.step pkarr ticket codec c act = some m') : Announced pkarr ticket codec first old began m' := by
  cases act with
  | daemon act =>
      obtain ⟨d, hd, rfl⟩ := Option.map_eq_some_iff.mp hs
      exact h.follow (h.orderly.step hd) (turns_step h.orderly hd)
  | resume w =>
      refine h.atBroadcast ?_ hs
      intro b b' hb'
      split at hb' <;> cases hb'
      exact ⟨rfl, rfl, rfl⟩
  | pause w =>
      refine h.atBroadcast ?_ hs
      intro b b' hb'
      split at hb' <;> cases hb'
      exact ⟨rfl, rfl, rfl⟩
  | sign w =>
      obtain ⟨m₁, hm₁, rfl⟩ := Option.map_eq_some_iff.mp hs
      obtain ⟨b, b', hb, hb', rfl⟩ := atBroadcast_some hm₁
      split at hb'
      · rename_i hmay
        cases hb'
        exact ⟨h.orderly, h.posted.broadcast hb rfl rfl (Nat.le_succ _)
          (.inr ⟨hmay.2, rfl, Nat.lt_succ_self _⟩)⟩
      · cases hb'
  | publish w =>
      refine h.atBroadcast ?_ hs
      intro b b' hb'
      split at hb' <;> cases hb'
      exact ⟨rfl, rfl, rfl⟩
  | arrive w =>
      obtain ⟨b, t, hb, ht, rfl⟩ := arrive_some hs
      have hposted : Posted pkarr ticket old began m.daemon.codes m.daemon.server.active
          (m.broadcasts.set w { b with sending := false }) m.unpublishes m.clock m.relays :=
        h.posted.broadcast hb rfl rfl le_rfl (.inl rfl)
      refine ⟨h.orderly, hposted.put ?_⟩
      exact .inr (.inl ⟨w, { b with sending := false }, set_at hb, ht, rfl, rfl⟩)
  | lose w =>
      refine h.atBroadcast ?_ hs
      intro b b' hb'
      split at hb' <;> cases hb'
      exact ⟨rfl, rfl, rfl⟩
  | signEmpty j =>
      obtain ⟨m₁, hm₁, rfl⟩ := Option.map_eq_some_iff.mp hs
      obtain ⟨u, u', hu, hu', rfl⟩ := atUnpublish_some hm₁
      split at hu'
      · rename_i hnone
        cases hu'
        exact ⟨h.orderly, h.posted.unpublish hu rfl rfl (Nat.le_succ _)
          (.inr ⟨hnone, rfl, Nat.lt_succ_self _⟩)⟩
      · cases hu'
  | arriveEmpty j =>
      obtain ⟨u, t, hu, ht, rfl⟩ := arriveEmpty_some hs
      have hposted : Posted pkarr ticket old began m.daemon.codes m.daemon.server.active m.broadcasts
          (m.unpublishes.set j { u with finished := true }) m.clock m.relays :=
        h.posted.unpublish hu rfl rfl le_rfl (.inl rfl)
      refine ⟨h.orderly, hposted.put ?_⟩
      exact .inr (.inr ⟨j, { u with finished := true }, set_at hu, ht, rfl, rfl⟩)
  | loseEmpty j =>
      obtain ⟨u, u', hu, hu', rfl⟩ := atUnpublish_some hs
      split at hu' <;> cases hu'
      exact ⟨h.orderly, h.posted.unpublish hu rfl rfl le_rfl (.inl rfl)⟩
  | forget q =>
      cases hs
      exact ⟨h.orderly, h.posted.drop q⟩

/-! ### What is found -/

/-- The packet an event brings to the relays, and the key it is for. -/
def arriving (pkarr : Pkarr R Q T) (ticket : T) (m : Meeting K H P R) :
    MeetingAct K H P Q → Option (Q × Stamped (Option T))
  | .arrive w =>
      m.broadcasts[w]?.bind fun b => b.signed.map fun t => (pkarr.publicKey b.code, ⟨t, some ticket⟩)
  | .arriveEmpty j =>
      m.unpublishes[j]?.bind fun u => u.signed.map fun t => (pkarr.publicKey u.code, ⟨t, none⟩)
  | _ => none

/-- **A packet that arrives is seen.** -/
theorem Announced.arrives {act : MeetingAct K H P Q} (h : Announced pkarr ticket codec first old began m)
    (hold : ∀ q p, pkarr.relays.find old q = some p → p.stamp < began)
    (hp : arriving pkarr ticket m act = some (q, p)) (hs : m.step pkarr ticket codec c act = some m') :
    pkarr.relays.Since m'.relays q p := by
  cases act with
  | arrive w =>
      obtain ⟨b, t, hb, ht, rfl⟩ := arrive_some hs
      simp only [arriving, hb, ht, Option.bind_some, Option.map_some, Option.some.injEq, Prod.mk.injEq] at hp
      obtain ⟨rfl, rfl⟩ := hp
      refine Register.since_put_self fun old' hfound hstamp => ?_
      have hsigned := h.posted.signed w b t hb ht
      rcases h.posted.found _ old' hfound with hbefore | ⟨-, -, -, -, -, hvalue⟩ | ⟨j, u, hu, hu', -, -⟩
      · have hlt := hold _ _ hbefore
        simp only at hstamp
        omega
      · exact congrArg₂ Stamped.mk hstamp hvalue
      · exact absurd (hu'.trans (congrArg some hstamp)) (h.posted.apart w b j u t hb hu ht)
  | arriveEmpty j =>
      obtain ⟨u, t, hu, ht, rfl⟩ := arriveEmpty_some hs
      simp only [arriving, hu, ht, Option.bind_some, Option.map_some, Option.some.injEq, Prod.mk.injEq] at hp
      obtain ⟨rfl, rfl⟩ := hp
      refine Register.since_put_self fun old' hfound hstamp => ?_
      have hsigned := h.posted.signedEmpty j u t hu ht
      rcases h.posted.found _ old' hfound with hbefore | ⟨w, b, hb, hb', -, -⟩ | ⟨-, -, -, -, -, hvalue⟩
      · have hlt := hold _ _ hbefore
        simp only at hstamp
        omega
      · exact absurd ht (h.posted.apart w b j u t hb hu (hb'.trans (congrArg some hstamp)))
      · exact congrArg₂ Stamped.mk hstamp hvalue
  | _ => cases hp

/-- All a step can do to the relays. -/
theorem relays_step {act : MeetingAct K H P Q} (hs : m.step pkarr ticket codec c act = some m') :
    m'.relays = m.relays ∨ (∃ q p, m'.relays = pkarr.relays.put m.relays q p)
      ∨ ∃ q, act = .forget q ∧ m'.relays = pkarr.relays.drop m.relays q := by
  cases act with
  | daemon act =>
      obtain ⟨d, -, rfl⟩ := Option.map_eq_some_iff.mp hs
      exact .inl (clear_relays m _)
  | arrive w =>
      obtain ⟨b, t, -, -, rfl⟩ := arrive_some hs
      exact .inr (.inl ⟨_, _, rfl⟩)
  | arriveEmpty j =>
      obtain ⟨u, t, -, -, rfl⟩ := arriveEmpty_some hs
      exact .inr (.inl ⟨_, _, rfl⟩)
  | forget q =>
      cases hs
      exact .inr (.inr ⟨q, rfl, rfl⟩)
  | sign w =>
      obtain ⟨m₁, hm₁, rfl⟩ := Option.map_eq_some_iff.mp hs
      obtain ⟨b, b', -, -, rfl⟩ := atBroadcast_some hm₁
      exact .inl rfl
  | signEmpty j =>
      obtain ⟨m₁, hm₁, rfl⟩ := Option.map_eq_some_iff.mp hs
      obtain ⟨u, u', -, -, rfl⟩ := atUnpublish_some hm₁
      exact .inl rfl
  | loseEmpty j =>
      obtain ⟨u, u', -, -, rfl⟩ := atUnpublish_some hs
      exact .inl rfl
  | _ =>
      obtain ⟨b, b', -, -, rfl⟩ := atBroadcast_some hs
      exact .inl rfl

/-- **Nothing but forgetting takes a packet back.** -/
theorem since_run {later : List (MeetingAct K H P Q)} (h : pkarr.relays.Since m.relays q p)
    (hkept : ∀ act ∈ later, act ≠ .forget q)
    (hx : exec (Meeting.step pkarr ticket codec c) m later = some m') :
    pkarr.relays.Since m'.relays q p := by
  refine exec_invariant (I := fun m₁ => pkarr.relays.Since m₁.relays q p) (G := fun _ act => act ≠ .forget q)
    ?_ h (meets_of_forall_mem fun act hmem _ => hkept act hmem) hx
  intro m₁ act m₂ h₁ hact hs
  rcases relays_step hs with hsame | ⟨q', p', hput⟩ | ⟨q', rfl, hdrop⟩
  · exact hsame ▸ h₁
  · rw [hput]
    exact h₁.put q' p'
  · rw [hdrop]
    exact h₁.drop fun heq => hact (heq ▸ rfl)

end Runs

/-- **The rendezvous of wormholes.** -/
theorem wormhole_rendezvous [DecidableEq K] [DecidableEq H] (pkarr : Pkarr R Q T) (ticket : T)
    (codec : IpcCodec H) (c : Crypto K H P) (ipcEnabled shutdownOnWormholeSuccess : Bool)
    (policy : HostKeyPolicy) (dir : ClientsDir K) (shadow : Shadow H) (clock : Nat) (relays : R)
    (acts : List (MeetingAct K H P Q)) (m : Meeting K H P R)
    -- what is at the relays has been signed before
    (hold : ∀ q p, pkarr.relays.find relays q = some p → p.stamp < clock)
    (hx : exec (Meeting.step pkarr ticket codec c)
      (.start (Server.start ipcEnabled shutdownOnWormholeSuccess policy dir shadow) clock relays) acts
        = some m) :
    -- each wormhole has a task that announces it, which has been aborted if and only if it is not the
    -- active one
    (m.broadcasts.map Broadcast.code = m.daemon.codes
      ∧ ∀ w b, m.broadcasts[w]? = some b → (b.alive = true ↔ m.daemon.server.active = some w))
    -- and those that are not active have one task each that withdraws their code
    ∧ ((∀ w, w ∈ m.unpublishes.map Unpublish.wid ↔
      w < m.daemon.codes.length ∧ m.daemon.server.active ≠ some w)
      ∧ (m.unpublishes.map Unpublish.wid).Nodup
      ∧ ∀ u ∈ m.unpublishes, m.daemon.codes[u.wid]? = some u.code)
    -- a code leads to what was there before, or to this daemon's ticket, or it has been withdrawn
    ∧ (∀ code p, pkarr.relays.find m.relays (pkarr.publicKey code) = some p →
        pkarr.relays.find relays (pkarr.publicKey code) = some p
        ∨ clock ≤ p.stamp ∧ ∃ w code', m.daemon.codes[w]? = some code'
          ∧ pkarr.publicKey code' = pkarr.publicKey code
          ∧ (p.value = some ticket ∨ p.value = none ∧ m.daemon.server.active ≠ some w))
    -- once a packet has arrived, it or a newer one is found, until the relays forget
    ∧ ∀ act q p m', arriving pkarr ticket m act = some (q, p) → m.step pkarr ticket codec c act = some m' →
        ∀ later m'', (∀ act' ∈ later, act' ≠ .forget q) →
          exec (Meeting.step pkarr ticket codec c) m' later = some m'' →
            pkarr.relays.Since m''.relays q p := by
  have h : Announced pkarr ticket codec ⟨none, 0, false⟩ relays clock m := by
    refine exec_invariant_all (I := Announced pkarr ticket codec ⟨none, 0, false⟩ relays clock)
      (fun _ _ _ h₁ hs => h₁.step hs) ?_ hx
    exact announced_start pkarr ticket codec ipcEnabled shutdownOnWormholeSuccess policy dir
      shadow clock relays
  have hlength : m.broadcasts.length = m.daemon.codes.length := by rw [← h.posted.named, List.length_map]
  -- a wormhole is withdrawn exactly if it is there and not active
  have hgone : ∀ w, w ∈ m.unpublishes.map Unpublish.wid
      ↔ w < m.daemon.codes.length ∧ m.daemon.server.active ≠ some w := by
    intro w
    rw [h.posted.withdrawn w]
    constructor
    · rintro ⟨b, hb, hdead⟩
      refine ⟨hlength ▸ (List.getElem?_eq_some_iff.mp hb).1, fun hactive => ?_⟩
      rw [(h.posted.alive w b hb).mpr hactive] at hdead
      cases hdead
    · rintro ⟨hlt, hother⟩
      have hlt' : w < m.broadcasts.length := hlength ▸ hlt
      have hb : m.broadcasts[w]? = some m.broadcasts[w] := List.getElem?_eq_getElem hlt'
      exact ⟨_, hb, Bool.eq_false_iff.mpr fun halive => hother ((h.posted.alive w _ hb).mp halive)⟩
  refine ⟨⟨h.posted.named, h.posted.alive⟩, ⟨hgone, h.posted.once, ?_⟩, ?_, ?_⟩
  · intro u hu
    obtain ⟨j, hj⟩ := List.mem_iff_getElem?.mp hu
    exact h.posted.code j u hj
  · intro code p hp
    rcases h.posted.found _ p hp with hbefore | ⟨w, b, hb, hs, hkey, hvalue⟩ | ⟨j, u, hu, hs, hkey, hvalue⟩
    · exact .inl hbefore
    · refine .inr ⟨(h.posted.signed w b _ hb hs).1, w, b.code, ?_, hkey, .inl hvalue⟩
      rw [← h.posted.named, List.getElem?_map, hb]
      rfl
    · have hmem : u.wid ∈ m.unpublishes.map Unpublish.wid := List.mem_map_of_mem (List.mem_of_getElem? hu)
      exact .inr ⟨(h.posted.signedEmpty j u _ hu hs).1, u.wid, u.code, h.posted.code j u hu, hkey,
        .inr ⟨hvalue, ((hgone u.wid).mp hmem).2⟩⟩
  · intro act q p m' hp hs later m'' hkept hlater
    exact since_run (h.arrives hold hp hs) hkept hlater

/-- A register for each code, and no ticket but one. -/
def plainPkarr : Pkarr (List Char → Option (Stamped (Option Nat))) (List Char) Nat :=
  ⟨table (List Char) (Option Nat), id⟩

/-- A wormhole is enabled twice with one code. The first one's withdrawal is signed last and arrives last, and
from then on the second one is not found under the code. -/
theorem wormhole_rendezvous_replaced :
    ∃ m m' : Meeting Nat Nat Nat (List Char → Option (Stamped (Option Nat))),
    exec (Meeting.step plainPkarr 7 unaryCodec Crypto.clear)
      (.start (Server.start true false .tofu .empty .missing) 0 fun _ => none)
      [.daemon (.inProcess (.enableWormhole ['a'] none true)), .daemon (.daemon .loopTest),
        .daemon (.daemon .recvControl), .resume 0, .sign 0, .publish 0, .pause 0, .arrive 0,
        .daemon (.inProcess (.enableWormhole ['a'] none true)), .daemon (.daemon .loopTest),
        .daemon (.daemon .loopTest), .daemon (.daemon .recvControl), .resume 1, .sign 1, .publish 1, .pause 1,
        .arrive 1, .signEmpty 0] = some m
    ∧ m.step plainPkarr 7 unaryCodec Crypto.clear (.arriveEmpty 0) = some m'
      ∧ m'.daemon.server.active = some 1
    ∧ ∀ later m'', (∀ act ∈ later, act ≠ .forget ['a']) →
        exec (Meeting.step plainPkarr 7 unaryCodec Crypto.clear) m' later = some m'' →
        plainPkarr.relays.Since m''.relays ['a'] ⟨2, none⟩ := by
  have hrun : (exec (Meeting.step plainPkarr 7 unaryCodec Crypto.clear)
      (.start (Server.start true false .tofu .empty .missing) 0 fun _ => none :
        Meeting Nat Nat Nat (List Char → Option (Stamped (Option Nat))))
      [.daemon (.inProcess (.enableWormhole ['a'] none true)), .daemon (.daemon .loopTest),
        .daemon (.daemon .recvControl), .resume 0, .sign 0, .publish 0, .pause 0, .arrive 0,
        .daemon (.inProcess (.enableWormhole ['a'] none true)), .daemon (.daemon .loopTest),
        .daemon (.daemon .loopTest), .daemon (.daemon .recvControl), .resume 1, .sign 1, .publish 1, .pause 1,
        .arrive 1, .signEmpty 0]).bind (fun m =>
          (m.step plainPkarr 7 unaryCodec Crypto.clear (.arriveEmpty 0)).map fun m' =>
            (arriving plainPkarr 7 m (.arriveEmpty 0 : MeetingAct Nat Nat Nat (List Char)),
              m'.daemon.server.active))
      = some (some (['a'], ⟨2, none⟩), some 1) := by
    decide +kernel
  obtain ⟨m, hx, hrest⟩ := Option.bind_eq_some_iff.mp hrun
  obtain ⟨m', hs, hpair⟩ := Option.map_eq_some_iff.mp hrest
  obtain ⟨hp, hactive⟩ := Prod.mk.inj hpair
  have hempty : ∀ q p, plainPkarr.relays.find (fun _ => none) q = some p → p.stamp < 0 := by
    intro q p hq
    cases hq
  have hall := wormhole_rendezvous plainPkarr 7 unaryCodec Crypto.clear true false .tofu .empty .missing 0
    (fun _ => none) _ m hempty hx
  exact ⟨m, m', hx, hs, hactive, hall.2.2.2 _ _ _ m' hp hs⟩

end Irosh.Proof
