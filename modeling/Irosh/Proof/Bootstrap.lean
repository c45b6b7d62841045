import Irosh.Auth.Unified

/-!
# When an unclaimed vault is really unclaimed

TOFU hands the node to the first stranger, so it must not fire on a vault that
somebody owns. What it tests is that the key list is empty after a refresh whose
error is thrown away. Between that list and the directory lie a loader that
drops every record it cannot parse and, for pairing connections, a list that is
empty because the load failed.

`bootstrap_closed_iff` says exactly when the test gets it right: an owned
directory is taken for owned if it can be listed and one of its records parses,
or if it cannot be listed and the list in memory still knows somebody. Otherwise
a stranger is admitted to a claimed node.
-/

namespace Irosh.Proof

open Irosh UnifiedAuthenticator

variable {K H P : Type}

/-- The listing goes through from start to end. -/
def lists (d : ClientsDir K) : Bool :=
  d.listable && d.entries.all fun
    | .error => false
    | .file _ _ => true

theorem loadEntries_ok_iff (es : List (DirEntry K)) :
    (∃ keys, loadEntries es = .ok keys) ↔
      (es.all fun
        | .error => false
        | .file _ _ => true) = true := by
  induction es with
  | nil => simp [loadEntries]
  | cons e es ih =>
      cases e with
      | error => simp [loadEntries]
      | file name key =>
          rw [List.all_cons, Bool.true_and, ← ih]
          cases hr : loadEntries es with
          | ok rest => simp [loadEntries, hr]
          | error e => simp [loadEntries, hr]

/-- A present directory loads exactly when its listing goes through. -/
theorem load_ok_iff {d : ClientsDir K} (hp : d.present = true) :
    (∃ vault, loadAllAuthorizedClients d = .ok vault) ↔ lists d = true := by
  unfold loadAllAuthorizedClients lists
  rw [if_pos hp, Bool.and_eq_true, ← loadEntries_ok_iff]
  by_cases hl : d.listable = true
  · simp [hl]
  · simp [hl]

/-- **What it takes for the refreshed list to be non-empty**, in terms of what is on disk and what
was in memory. -/
theorem refreshed_ne_nil_iff (a : UnifiedAuthenticator K H) :
    a.refreshKeys.authorizedKeys ≠ [] ↔
      (a.dir.present = true ∧ lists a.dir = true ∧ ∃ k, a.dir.Holds k)
        ∨ (a.dir.present = true ∧ lists a.dir = false ∧ a.authorizedKeys ≠ []) := by
  by_cases hp : a.dir.present = true
  · cases hl : loadAllAuthorizedClients a.dir with
    | ok vault =>
        have hlist : lists a.dir = true := (load_ok_iff hp).mp ⟨vault, hl⟩
        have hr : a.refreshKeys.authorizedKeys = vault.map Prod.snd := by
          simp [refreshKeys, readVault, hl, replaceKeys]
        rw [hr]
        constructor
        · intro hne
          obtain ⟨k, hk⟩ := List.exists_mem_of_ne_nil _ hne
          exact .inl ⟨hp, hlist, k, holds_of_mem_load hl hk⟩
        · intro h
          rcases h with ⟨_, _, k, hk⟩ | ⟨_, hf, _⟩
          · exact List.ne_nil_of_mem (mem_load_of_holds hp hl hk)
          · rw [hlist] at hf; cases hf
    | error e =>
        have hlist : lists a.dir = false := by
          cases hq : lists a.dir with
          | false => rfl
          | true =>
              obtain ⟨vault, hv⟩ := (load_ok_iff hp).mpr hq
              rw [hl] at hv; cases hv
        have hr : a.refreshKeys.authorizedKeys = a.authorizedKeys := by
          simp [refreshKeys, readVault, hl]
        rw [hr]
        constructor
        · intro hne
          exact .inr ⟨hp, hlist, hne⟩
        · intro h
          rcases h with ⟨_, ht, _⟩ | ⟨_, _, hne⟩
          · rw [hlist] at ht; cases ht
          · exact hne
  · -- a directory that does not exist loads as the empty vault
    have hl : loadAllAuthorizedClients a.dir = .ok [] := by
      unfold loadAllAuthorizedClients; rw [if_neg hp]
    constructor
    · intro hne
      exact absurd (by simp [refreshKeys, readVault, hl, replaceKeys]) hne
    · intro h
      rcases h with ⟨hp', _⟩ | ⟨hp', _⟩ <;> exact absurd hp' hp

variable [DecidableEq K]

/-- At the directory contents of `a`, TOFU admits `k` only if there is no `.pub` record: for any
earlier failures, any clock and any outcome of the vault write. -/
def FailsClosed (c : Crypto K H P) (a : UnifiedAuthenticator K H) (k : K) : Prop :=
  ∀ failed last test now wr,
    (checkPublicKey c test now wr k { a with failedAttempts := failed, lastFailure := last }).1
      = .tofu → a.dir.holdsPub = false

/-- The owner of a claimed directory is visible: a record parses in a directory that can be listed,
or the list in memory stands in for one that cannot. -/
def OwnerVisible (keys : List K) (d : ClientsDir K) : Prop :=
  d.holdsPub = false
    ∨ (d.present = true ∧ lists d = true ∧ ∃ k, d.Holds k)
    ∨ (d.present = true ∧ lists d = false ∧ keys ≠ [])

/-- Under TOFU without passwords, an unknown key is admitted whenever the refreshed list is empty. -/
theorem tofu_of_refreshed_nil {c : Crypto K H P} {a : UnifiedAuthenticator K H} {k : K}
    (hp : a.policy = .tofu) (hs : a.shadow = .missing) (ht : a.tempPasswordHash = none)
    (hf : a.failedAttempts = 0) (hk : k ∉ a.authorizedKeys)
    (he : a.refreshKeys.authorizedKeys = []) :
    (checkPublicKey c 0 0 none k a).1 = .tofu := by
  have hl : a.isLockedOut 0 = (false, a) := by simp [isLockedOut, hf]
  unfold checkPublicKey
  rw [hl]
  simp only [hp, hk, Bool.false_eq_true, if_false, reduceCtorEq]
  rw [refreshKeys_eq, he]
  simp [finalSection, replaceKeys, hp, hs, ht, nodePwExists, loadShadowFile]

/-- **The exact condition**, for any authenticator under TOFU with no password configured. -/
theorem failsClosed_iff {c : Crypto K H P} {a : UnifiedAuthenticator K H} {k : K}
    (hp : a.policy = .tofu) (hs : a.shadow = .missing) (ht : a.tempPasswordHash = none)
    (hk : k ∉ a.authorizedKeys) :
    FailsClosed c a k ↔ OwnerVisible a.authorizedKeys a.dir := by
  -- earlier failures play no part in what a refresh finds
  have hr : ∀ failed last, ({ a with failedAttempts := failed, lastFailure := last } :
      UnifiedAuthenticator K H).refreshKeys.authorizedKeys = a.refreshKeys.authorizedKeys :=
    fun _ _ => refreshKeys_congr rfl rfl
  constructor
  · intro h
    by_cases hpub : a.dir.holdsPub = false
    · exact .inl hpub
    · right
      refine (refreshed_ne_nil_iff a).mp ?_
      intro he
      -- no earlier failures, and a write that succeeds
      refine hpub (h 0 none 0 0 none ?_)
      exact tofu_of_refreshed_nil hp hs ht rfl hk ((hr 0 none).trans he)
  · intro h failed last test now wr hv
    rcases h with hpub | hvis
    · exact hpub
    · obtain ⟨_, _, _, he⟩ := (checkPublicKey_effect _ _ _ _ _ _).tofu hv
      rw [hr] at he
      exact absurd he ((refreshed_ne_nil_iff a).mpr hvis)

/--
**Bootstrap fails closed exactly while the owner is visible.**

For the authenticator built at startup and for the one built for a pairing
connection without a password, each made from directory contents `d₀` and asked
about an unknown key when the contents are `d`.
-/
theorem bootstrap_closed_iff (c : Crypto K H P) (d₀ d : ClientsDir K) (k : K) (success : Bool)
    (failed : Nat) :
    (∀ a : UnifiedAuthenticator K H, startup d₀ .missing .tofu = .ok a → k ∉ a.authorizedKeys →
        (FailsClosed c { a with dir := d } k ↔ OwnerVisible a.authorizedKeys d))
      ∧ (∀ a : UnifiedAuthenticator K H, pairing d₀ .missing .tofu none success failed = a →
          k ∉ a.authorizedKeys →
          (FailsClosed c { a with dir := d } k ↔ OwnerVisible a.authorizedKeys d)) := by
  refine ⟨fun a ha hk => ?_, fun a ha hk => ?_⟩
  · unfold startup at ha
    split at ha
    · cases ha
      exact failsClosed_iff rfl rfl rfl hk
    · cases ha
  · subst ha
    exact failsClosed_iff rfl rfl rfl hk

/-- A vault with one sound record is never handed to a stranger, however either authenticator came
by it. -/
theorem bootstrap_closed_one_owner :
    let d : ClientsDir Nat := ⟨true, true, [.file (clientKeyName ['a']) (some 1)]⟩
    let a : UnifiedAuthenticator Nat Nat := .new d .missing .tofu [1] none
    startup d .missing .tofu = .ok a ∧ FailsClosed Crypto.clear { a with dir := d } 5
      ∧ FailsClosed Crypto.clear { pairing d .missing .tofu none false 2 with dir := d } 5 := by
  intro d a
  have hvis : ∀ keys, OwnerVisible keys d := fun _ =>
    .inr (.inl ⟨rfl, rfl, 1, clientKeyName ['a'], by simp [d], by decide⟩)
  have h := bootstrap_closed_iff (H := Nat) Crypto.clear d d 5 false 2
  refine ⟨by decide, (h.1 a (by decide) (by decide)).mpr (hvis _), ?_⟩
  exact (h.2 _ rfl (by decide)).mpr (hvis _)

/-- One record nobody can parse: the vault is claimed, and a stranger still becomes its owner, at
startup as over a pairing connection. -/
theorem bootstrap_admits_over_malformed :
    let d : ClientsDir Nat := ⟨true, true, [.file (clientKeyName ['a']) none]⟩
    let a : UnifiedAuthenticator Nat Nat := pairing d .missing .tofu none false 0
    d.holdsPub = true
      ∧ startup d .missing .tofu = .ok { a with monitored := false }
      ∧ (checkPublicKey Crypto.clear 0 0 none 5 { a with monitored := false }).1 = .tofu
      ∧ (checkPublicKey Crypto.clear 0 0 none 5 a).1 = .tofu := by
  decide

end Irosh.Proof
