import Irosh.Lib.Exec
import Irosh.Server.Reaper

/-!
# Only idle channels are closed

The reaper lists the stale channels once and goes through the list later. What was stale then
may have had traffic since.
-/

namespace Irosh.Proof

open Irosh Function

/-- A channel the reaper has closed: when its entry was removed, and the last traffic on it. -/
structure Reaped where
  channel : ChannelId
  removed : Nat
  last : Option Nat

/-- No traffic during the timeout before the removal. -/
def Reaped.WasIdle (timeout : Nat) (r : Reaped) : Prop :=
  ∀ t, r.last = some t → t + timeout < r.removed

/-- The timestamps beside what really happened. -/
structure TrafficLog where
  site : IdleSite
  /-- The last traffic recorded on a channel. -/
  last : ChannelId → Option Nat
  /-- The same, since the reaper collected its channels. -/
  since : ChannelId → Option Nat
  reaped : List Reaped

namespace TrafficLog

def new (timeout : Nat) : TrafficLog := ⟨IdleSite.new timeout, fun _ => none, fun _ => none, []⟩

/-- The channel whose entry the reaper removes next. -/
def due (w : TrafficLog) : Option ChannelId :=
  match w.site.reaper with
  | .reaping (channel :: _) => some channel
  | _ => none

def step (w : TrafficLog) (e : IdleEvent) : Option TrafficLog :=
  (w.site.step e).map fun site =>
    match e with
    | .traffic channel =>
        if w.site.timeout = 0 then { w with site := site }
        else ⟨site, update w.last channel (some w.site.now),
          update w.since channel (some w.site.now), w.reaped⟩
    | .snapshot _ => ⟨site, w.last, fun _ => none, w.reaped⟩
    | .removeEntry =>
        ⟨site, w.last, w.since,
          (w.due.map fun channel => ⟨channel, w.site.now, w.last channel⟩).toList ++ w.reaped⟩
    | _ => { w with site := site }

/-- Every channel closed so far was idle. -/
def OnlyIdle (w : TrafficLog) : Prop := ∀ r ∈ w.reaped, r.WasIdle w.site.timeout

/-- An entry is removed only if what traffic the channel had since it was listed is itself
longer ago than the timeout. -/
def QuietSince (w : TrafficLog) : IdleEvent → Prop
  | .removeEntry => ∀ channel, w.due = some channel → ∀ t, w.since channel = some t →
      t + w.site.timeout < w.site.now
  | _ => True

/-- The listed channels that are still to be closed. -/
def pending (w : TrafficLog) : List ChannelId :=
  match w.site.reaper with
  | .reaping stale => stale
  | .closing _ stale => stale
  | _ => []

structure Inv (w : TrafficLog) : Prop where
  /-- An entry is the last traffic. -/
  entries : ∀ entry ∈ w.site.idle, w.last entry.1 = some entry.2
  woken : ∀ now, w.site.reaper = .woken now → now ≤ w.site.now
  since : ∀ channel t, w.since channel = some t → w.last channel = some t
  /-- A listed channel without later traffic has been idle for long enough. -/
  listed : ∀ channel ∈ w.pending, w.since channel = none →
    ∀ t, w.last channel = some t → t + w.site.timeout < w.site.now
  reaped : w.OnlyIdle

theorem mem_remove {idle : IdleMap} {channel : ChannelId} {entry : ChannelId × Nat}
    (h : entry ∈ IdleMap.remove idle channel) : entry ∈ idle ∧ entry.1 ≠ channel := by
  obtain ⟨hmem, hne⟩ := List.mem_filter.mp h
  exact ⟨hmem, by simpa using hne⟩

theorem mem_stale {idle : IdleMap} {now timeout : Nat} {channel : ChannelId}
    (h : channel ∈ IdleMap.stale idle now timeout) :
    ∃ t, (channel, t) ∈ idle ∧ timeout < now - t := by
  obtain ⟨entry, hentry, rfl⟩ := List.mem_map.mp h
  obtain ⟨hmem, hold⟩ := List.mem_filter.mp hentry
  exact ⟨entry.2, hmem, by simpa using hold⟩

/-- A step that only lets time pass, forgets entries or moves the reaper on without a new list. -/
theorem inv_quiet {w : TrafficLog} (hw : w.Inv) {site : IdleSite}
    (htimeout : site.timeout = w.site.timeout) (hnow : w.site.now ≤ site.now)
    (hidle : ∀ entry ∈ site.idle, entry ∈ w.site.idle)
    (hwoken : ∀ now, site.reaper = .woken now → now ≤ site.now)
    (hpending : ∀ channel ∈ TrafficLog.pending { w with site := site }, channel ∈ w.pending) :
    TrafficLog.Inv { w with site := site } where
  entries entry hentry := hw.entries entry (hidle entry hentry)
  woken := hwoken
  since := hw.since
  listed := by
    intro channel hchannel hquiet t ht
    have hold := hw.listed channel (hpending channel hchannel) hquiet t ht
    change t + site.timeout < site.now
    omega
  reaped := by
    intro r hr t ht
    have hold := hw.reaped r hr t ht
    change t + site.timeout < r.removed
    omega

/-- Traffic is recorded: in the map, and for the channels that are listed. -/
theorem inv_traffic {w : TrafficLog} (hw : w.Inv) (channel : ChannelId) :
    TrafficLog.Inv ⟨{ w.site with idle := IdleMap.insert w.site.idle channel w.site.now },
      update w.last channel (some w.site.now), update w.since channel (some w.site.now),
      w.reaped⟩ where
  entries := by
    intro entry hentry
    obtain rfl | hold := List.mem_cons.mp hentry
    · exact update_self _ _ _
    · obtain ⟨hmem, hne⟩ := mem_remove hold
      exact (update_of_ne hne _ _).trans (hw.entries entry hmem)
  woken := hw.woken
  since := by
    intro other t ht
    dsimp only at ht ⊢
    by_cases heq : other = channel
    · subst heq
      rwa [update_self] at ht ⊢
    · rw [update_of_ne heq] at ht ⊢
      exact hw.since other t ht
  listed := by
    intro other hother hquiet t ht
    dsimp only at hquiet ht
    have hne : other ≠ channel := by
      intro heq
      rw [heq, update_self] at hquiet
      cases hquiet
    rw [update_of_ne hne] at hquiet ht
    exact hw.listed other hother hquiet t ht
  reaped := hw.reaped

/-- The stale channels are collected: all of them have been idle for longer than the timeout. -/
theorem inv_snapshot {w : TrafficLog} (hw : w.Inv) {now : Nat} {stale : List ChannelId}
    (hreaper : w.site.reaper = .woken now)
    (hstale : stale.Perm (IdleMap.stale w.site.idle now w.site.timeout)) :
    TrafficLog.Inv ⟨{ w.site with reaper := .reaping stale }, w.last, fun _ => none,
      w.reaped⟩ where
  entries := hw.entries
  woken := fun _ h => nomatch h
  since := fun _ _ h => nomatch h
  listed := by
    intro channel hchannel _ t ht
    obtain ⟨t', hentry, hold⟩ := mem_stale (hstale.mem_iff.mp hchannel)
    have hlast : w.last channel = some t' := hw.entries _ hentry
    have hsame : t' = t := Option.some.inj (hlast.symm.trans ht)
    have hclock : now ≤ w.site.now := hw.woken now hreaper
    change t + w.site.timeout < w.site.now
    omega
  reaped := hw.reaped

/-- An entry is removed. What is said of the channel is what the condition asks. -/
theorem inv_removeEntry {w : TrafficLog} (hw : w.Inv) {channel : ChannelId}
    {stale : List ChannelId} (hreaper : w.site.reaper = .reaping (channel :: stale))
    (hquiet : ∀ t, w.since channel = some t → t + w.site.timeout < w.site.now) :
    TrafficLog.Inv ⟨{ w.site with
        idle := IdleMap.remove w.site.idle channel
        reaper := .closing channel stale },
      w.last, w.since, ⟨channel, w.site.now, w.last channel⟩ :: w.reaped⟩ := by
  have hpending : w.pending = channel :: stale := by
    unfold pending
    rw [hreaper]
  refine ⟨?_, fun _ h => (nomatch h), hw.since, ?_, ?_⟩
  · intro entry hentry
    exact hw.entries entry (mem_remove hentry).1
  · intro other hother
    exact hw.listed other (by rw [hpending]; exact List.mem_cons_of_mem _ hother)
  · intro r hr
    obtain rfl | hold := List.mem_cons.mp hr
    · intro t ht
      cases hsince : w.since channel with
      | none =>
        exact hw.listed channel (by rw [hpending]; exact List.mem_cons_self) hsince t ht
      | some t' =>
        have hlast : w.last channel = some t' := hw.since channel t' hsince
        have hsame : t' = t := Option.some.inj (hlast.symm.trans ht)
        exact hsame ▸ hquiet t' hsince
    · exact hw.reaped r hold

theorem inv_step {w w' : TrafficLog} {e : IdleEvent} (hw : w.Inv) (hg : w.QuietSince e)
    (hs : w.step e = some w') : w'.Inv := by
  obtain ⟨site, hsite, rfl⟩ := Option.map_eq_some_iff.mp hs
  cases e with
  | tick elapsed =>
    cases hsite
    refine inv_quiet hw rfl (Nat.le_add_right _ _) (fun _ h => h) ?_ (fun _ h => h)
    intro now hnow
    have hold := hw.woken now hnow
    change now ≤ w.site.now + elapsed
    omega
  | traffic channel =>
    cases hsite
    by_cases hzero : w.site.timeout = 0
    · simp only [IdleSite.markChannelActive, if_pos hzero]
      exact hw
    · simp only [IdleSite.markChannelActive, if_neg hzero]
      exact inv_traffic hw channel
  | forget channel =>
    cases hsite
    exact inv_quiet hw rfl (Nat.le_refl _) (fun _ h => (mem_remove h).1) hw.woken (fun _ h => h)
  | ensureReaper =>
    cases hsite
    obtain hsame | hstarted : w.site.ensureReaper = w.site ∨
        w.site.ensureReaper = { w.site with reaper := .sleeping } := by
      unfold IdleSite.ensureReaper
      split
      · exact .inl rfl
      · split
        · exact .inr rfl
        · exact .inl rfl
    · rw [hsame]
      exact hw
    · rw [hstarted]
      exact inv_quiet hw rfl (Nat.le_refl _) (fun _ h => h) (fun _ h => nomatch h)
        (fun _ h => nomatch h)
  | wake =>
    simp only [IdleSite.step] at hsite
    split at hsite
    · cases hsite
      refine inv_quiet hw rfl (Nat.le_refl _) (fun _ h => h) ?_ (fun _ h => nomatch h)
      intro now hnow
      cases hnow
      exact Nat.le_refl _
    · cases hsite
  | snapshot stale =>
    simp only [IdleSite.step] at hsite
    split at hsite
    · rename_i now hreaper
      split at hsite
      · rename_i hstale
        cases hsite
        exact inv_snapshot hw hreaper hstale
      · cases hsite
    · cases hsite
  | removeEntry =>
    simp only [IdleSite.step] at hsite
    split at hsite
    · rename_i channel stale hreaper
      cases hsite
      have hdue : w.due = some channel := by
        unfold due
        rw [hreaper]
      simp only [hdue]
      exact inv_removeEntry hw hreaper (hg channel hdue)
    · cases hsite
  | closed ok =>
    simp only [IdleSite.step] at hsite
    split at hsite
    · rename_i channel stale hreaper
      cases hsite
      cases ok with
      | true =>
        refine inv_quiet hw rfl (Nat.le_refl _) (fun _ h => h) (fun _ h => nomatch h) ?_
        intro other hother
        unfold pending
        rw [hreaper]
        exact hother
      | false =>
        exact inv_quiet hw rfl (Nat.le_refl _) (fun _ h => h) (fun _ h => nomatch h)
          (fun _ h => nomatch h)
    · cases hsite
  | rest =>
    simp only [IdleSite.step] at hsite
    split at hsite
    · cases hsite
      exact inv_quiet hw rfl (Nat.le_refl _) (fun _ h => h) (fun _ h => nomatch h)
        (fun _ h => nomatch h)
    · cases hsite
  | stop =>
    simp only [IdleSite.step] at hsite
    split at hsite
    · cases hsite
      exact inv_quiet hw rfl (Nat.le_refl _) (fun _ h => h) (fun _ h => nomatch h)
        (fun _ h => nomatch h)
    · cases hsite
      exact inv_quiet hw rfl (Nat.le_refl _) (fun _ h => h) (fun _ h => nomatch h)
        (fun _ h => nomatch h)
    · cases hsite

/-- Traffic between the list and the removal is not noticed. -/
theorem closes_busy {w : TrafficLog} {e : IdleEvent} (hw : w.Inv) (hg : ¬ w.QuietSince e) :
    ∃ w', w.step e = some w' ∧ ¬ w'.OnlyIdle := by
  cases e with
  | removeEntry =>
    unfold QuietSince at hg
    push Not at hg
    obtain ⟨channel, hdue, t, hsince, hrecent⟩ := hg
    obtain ⟨stale, hreaper⟩ : ∃ stale, w.site.reaper = .reaping (channel :: stale) := by
      unfold due at hdue
      split at hdue
      · rename_i stale hreaper
        cases hdue
        exact ⟨stale, hreaper⟩
      · cases hdue
    have hstep : w.site.step .removeEntry = some { w.site with
        idle := IdleMap.remove w.site.idle channel
        reaper := .closing channel stale } := by
      simp only [IdleSite.step, hreaper]
    refine ⟨_, Option.map_eq_some_iff.mpr ⟨_, hstep, rfl⟩, ?_⟩
    intro honly
    have hidle := honly ⟨channel, w.site.now, w.last channel⟩ (by
      simp only [hdue]
      exact List.mem_cons_self) t (hw.since channel t hsince)
    change t + w.site.timeout < w.site.now at hidle
    omega
  | _ => exact absurd trivial hg

end TrafficLog

open TrafficLog

/--
**The idle timeout.**

In any interleaving of the reaper with traffic, closed channels and the clock, and for any
timeout, every channel that is closed had no traffic during the timeout before its entry was
removed, iff no traffic as recent as that comes between the list and the removal.
-/
theorem idle_reaper_iff (timeout : Nat) (es : List IdleEvent) :
    Exec.Throughout TrafficLog.step OnlyIdle (TrafficLog.new timeout) es ↔
      Exec.Meets TrafficLog.step QuietSince (TrafficLog.new timeout) es := by
  have hstart : (TrafficLog.new timeout).Inv :=
    ⟨fun _ h => (nomatch h), fun _ h => (nomatch h), fun _ _ h => (nomatch h),
      fun _ h => (nomatch h), fun _ h => (nomatch h)⟩
  exact Exec.throughout_iff_meets (H := fun _ _ => True) (fun w hw => hw.reaped)
    (fun w e w' hw _ hg hs => inv_step hw hg hs) (fun w e hw _ hg => closes_busy hw hg) hstart
    (Exec.meets_of_forall_mem fun _ _ _ => trivial)

/-- Two stale channels: while the first is being closed, the second has traffic. -/
theorem busy_channel_closed :
    ¬ ∀ timeout es,
      Exec.Throughout TrafficLog.step OnlyIdle (TrafficLog.new timeout) es := by
  intro hall
  have hrun := hall 100 [.traffic 1, .traffic 2, .ensureReaper, .tick 200, .wake, .snapshot [1, 2],
    .removeEntry, .traffic 2, .tick 1, .closed true, .removeEntry]
  have hlast := hrun.last rfl
  have hidle := hlast _ List.mem_cons_self 200 rfl
  revert hidle
  decide

end Irosh.Proof
