import Irosh.Auth.Sessions

/-!
# Where vaulted keys come from

A key enters the vault in two ways only. TOFU writes the key it is looking at;
a password writes whatever the session has in its cache. The second is the
delicate one, because cache and password travel in different calls, and between
the two anything may happen in the other sessions.

The invariant is `CacheOwned`: a key in a session's cache is the key that same
session was last challenged for, with no effective password attempt since. The
ghost history is what lets a state say this about its past.
-/

namespace Irosh.Proof

open Irosh UnifiedAuthenticator

variable {K H P : Type}

/-- The event may change the cache of session `s`: a new challenge, or a password attempt that got
past the rate limiter. -/
def Touches (s : Nat) : Event K P → Prop
  | .key s' _ v => s' = s ∧ v = .challenged
  | .password s' _ v => s' = s ∧ v ≠ .rateLimited

/-- Session `s` was challenged for `k`, and nothing it did since touched its cache. -/
def OfferedLast (hist : List (Event K P)) (s : Nat) (k : K) : Prop :=
  ∃ before after, hist = before ++ .key s k .challenged :: after
    ∧ ∀ e ∈ after, ¬ Touches s e

/-- **Every cache holds what its own session offered last.** -/
def CacheOwned (n : Node K H P) : Prop :=
  ∀ s k, n.cache s = some k → OfferedLast n.hist s k

theorem cacheOwned_fresh (auth : UnifiedAuthenticator K H) :
    CacheOwned (Node.fresh auth : Node K H P) := by
  intro s k h; simp [Node.fresh] at h

/-- An event that does not touch the session leaves its last offer standing. -/
theorem offeredLast_snoc {hist : List (Event K P)} {s : Nat} {k : K} {e : Event K P}
    (h : OfferedLast hist s k) (he : ¬ Touches s e) : OfferedLast (hist ++ [e]) s k := by
  obtain ⟨before, after, heq, hq⟩ := h
  refine ⟨before, after ++ [e], by rw [heq]; simp, ?_⟩
  intro x hx
  rcases List.mem_append.mp hx with hx' | hx'
  · exact hq x hx'
  · rw [List.mem_singleton.mp hx']; exact he

theorem offeredLast_now (hist : List (Event K P)) (s : Nat) (k : K) :
    OfferedLast (hist ++ [.key s k .challenged]) s k :=
  ⟨hist, [], rfl, by simp⟩

theorem shadow_missing_of_nodePwExists {a : UnifiedAuthenticator K H}
    (h : a.nodePwExists = false) : a.shadow = .missing := by
  unfold nodePwExists at h
  cases hs : a.shadow with
  | missing => rfl
  | unreadable => simp [hs, loadShadowFile] at h
  | hash x => simp [hs, loadShadowFile] at h

variable [DecidableEq K]

/-- **Preserved by every call.** -/
theorem cacheOwned_act {c : Crypto K H P} {n : Node K H P} (h : CacheOwned n)
    (call : Call K H P) : CacheOwned (n.act c call) := by
  cases call with
  | disk dir shadow => exact h
  | key s k test now wr =>
      intro s' k' hc
      by_cases hs : s' = s
      · subst hs
        simp only [Node.act, Node.update_cache_self] at hc
        rw [(checkPublicKey_effect c test now wr k (n.view s')).cachedKey] at hc
        split at hc
        · -- the challenge itself: this is the offer
          rename_i hv
          cases hc
          simp only [Node.act, Node.update, hv]
          exact offeredLast_now _ _ _
        · rename_i hv
          exact offeredLast_snoc (h s' k' hc) (fun ht => hv ht.2)
      · simp only [Node.act] at hc
        rw [Node.update_cache_ne _ _ _ hs] at hc
        exact offeredLast_snoc (h s' k' hc) (fun ht => hs ht.1.symm)
  | password s p test now wr =>
      intro s' k' hc
      by_cases hs : s' = s
      · subst hs
        simp only [Node.act, Node.update_cache_self] at hc
        rw [(checkPassword_effect c test now wr p (n.view s')).cachedKey] at hc
        split at hc
        · rename_i hv
          exact offeredLast_snoc (h s' k' hc) (fun ht => ht.2 hv)
        · cases hc
      · simp only [Node.act] at hc
        rw [Node.update_cache_ne _ _ _ hs] at hc
        exact offeredLast_snoc (h s' k' hc) (fun ht => hs ht.1.symm)

/-- Outside TOFU no session ever gets a key into its cache. -/
def CacheIdle (n : Node K H P) : Prop :=
  n.auth.policy ≠ .tofu → ∀ s, n.cache s = none

theorem act_policy (c : Crypto K H P) (n : Node K H P) (call : Call K H P) :
    (n.act c call).auth.policy = n.auth.policy := by
  cases call with
  | disk dir shadow => rfl
  | key s k test now wr => exact (checkPublicKey_effect c test now wr k (n.view s)).policy
  | password s p test now wr => exact (checkPassword_effect c test now wr p (n.view s)).policy

theorem cacheIdle_act {c : Crypto K H P} {n : Node K H P} (h : CacheIdle n)
    (call : Call K H P) : CacheIdle (n.act c call) := by
  intro hp s'
  rw [act_policy] at hp
  cases call with
  | disk dir shadow => exact h hp s'
  | key s k test now wr =>
      by_cases hs : s' = s
      · subst hs
        simp only [Node.act, Node.update_cache_self]
        have heff := checkPublicKey_effect c test now wr k (n.view s')
        rw [heff.cachedKey, if_neg]
        · exact h hp s'
        · intro hv
          exact hp (heff.challenged hv)
      · simp only [Node.act]
        rw [Node.update_cache_ne _ _ _ hs]
        exact h hp s'
  | password s p test now wr =>
      by_cases hs : s' = s
      · subst hs
        simp only [Node.act, Node.update_cache_self]
        rw [(checkPassword_effect c test now wr p (n.view s')).cachedKey]
        split
        · exact h hp s'
        · rfl
      · simp only [Node.act]
        rw [Node.update_cache_ne _ _ _ hs]
        exact h hp s'

/-- Both invariants hold after any run of calls on freshly created sessions. -/
theorem cache_reachable {c : Crypto K H P} {auth : UnifiedAuthenticator K H}
    {calls : List (Call K H P)} {n : Node K H P}
    (h : Exec.exec (Node.step c) (Node.fresh auth) calls = some n) : CacheOwned n ∧ CacheIdle n := by
  refine Exec.exec_invariant_all (I := fun n => CacheOwned n ∧ CacheIdle n) ?_
    ⟨cacheOwned_fresh auth, fun _ _ => rfl⟩ h
  intro n call n' hi hs
  cases hs
  exact ⟨cacheOwned_act hi.1 call, cacheIdle_act hi.2 call⟩

/-! ## Provenance -/

/-- The key a call writes to the vault, if it writes one. -/
def vaults (c : Crypto K H P) (n : Node K H P) : Call K H P → Option K
  | .key s k test now wr =>
      if (checkPublicKey c test now wr k (n.view s)).1 = .tofu then some k else none
  | .password s p test now wr => (checkPassword c test now wr p (n.view s)).1.wrote
  | .disk _ _ => none

/-- The call is one of the node's own, not an edit by another process. -/
def IsCheck : Call K H P → Prop
  | .disk _ _ => False
  | _ => True

/-- `k` was admitted under TOFU with no password configured and an empty list. -/
def AdmittedByTofu (n : Node K H P) (call : Call K H P) (k : K) : Prop :=
  (∃ s test now wr, call = .key s k test now wr)
    ∧ n.auth.policy = .tofu ∧ n.auth.shadow = .missing ∧ n.auth.tempPasswordHash = none
    ∧ n.auth.refreshKeys.authorizedKeys = []

/-- `k` is what the session offered last, and the session gave the temp password, which is not the
node password. -/
def AdmittedByPairing (c : Crypto K H P) (n : Node K H P) (call : Call K H P) (k : K) : Prop :=
  ∃ s p test now wr, call = .password s p test now wr
    ∧ OfferedLast n.hist s k
    ∧ (∃ temp, n.auth.tempPasswordHash = some temp ∧ c.verifyPassword p temp = true)
    ∧ ∀ hash, n.auth.shadow = .hash hash → c.verifyPassword p hash = false

/-- A check changes the vault directory only by the write `vaults` reports. -/
theorem act_dir {c : Crypto K H P} {n : Node K H P} {call : Call K H P} (hc : IsCheck call) :
    (n.act c call).auth.dir
      = match vaults c n call with
        | some k => writeAuthorizedClient n.auth.dir (c.fingerprint k) k
        | none => n.auth.dir := by
  cases call with
  | disk dir shadow => exact absurd hc id
  | key s k test now wr =>
      simp only [Node.act, Node.update, vaults]
      rw [(checkPublicKey_effect c test now wr k (n.view s)).dir]
      split <;> rfl
  | password s p test now wr =>
      simp only [Node.act, Node.update, vaults]
      rw [(checkPassword_effect c test now wr p (n.view s)).dir]
      rfl

theorem vaults_origin {c : Crypto K H P} {n : Node K H P} {call : Call K H P} {k : K}
    (ho : CacheOwned n) (hv : vaults c n call = some k) :
    AdmittedByTofu n call k ∨ AdmittedByPairing c n call k := by
  cases call with
  | disk dir shadow => simp [vaults] at hv
  | key s k' test now wr =>
      simp only [vaults] at hv
      split at hv
      · rename_i ht
        cases hv
        obtain ⟨hp, hn, htemp, he⟩ := (checkPublicKey_effect c test now wr k (n.view s)).tofu ht
        refine .inl ⟨⟨s, test, now, wr, rfl⟩, hp, ?_, htemp, ?_⟩
        · exact shadow_missing_of_nodePwExists (a := n.view s) hn
        · rw [← refreshKeys_congr (a := n.view s) (b := n.auth) rfl rfl]; exact he
      · cases hv
  | password s p test now wr =>
      obtain ⟨hc, hm, _⟩ := (checkPassword_effect c test now wr p (n.view s)).wrote k hv
      obtain ⟨htemp, hnode⟩ := checkPasswordMatch_temp hm
      exact .inr ⟨s, p, test, now, wr, rfl, ho s k hc, htemp, hnode⟩

/--
**Vault provenance.**

Whatever the sessions of one authenticator have done, and whatever other
processes have done to the state directory in between: a check either leaves the
vault directory alone, or writes one key that TOFU admitted to an unclaimed node
or that the very session offered last and paired by the temp password. Outside
the TOFU policy, and for anyone presenting the node password, it writes nothing.
-/
theorem vault_provenance (c : Crypto K H P) (auth : UnifiedAuthenticator K H)
    (calls : List (Call K H P)) (n : Node K H P) (call : Call K H P)
    (hrun : Exec.exec (Node.step c) (Node.fresh auth) calls = some n) (hc : IsCheck call) :
    (n.act c call).auth.dir
        = (match vaults c n call with
          | some k => writeAuthorizedClient n.auth.dir (c.fingerprint k) k
          | none => n.auth.dir)
      ∧ (∀ k, vaults c n call = some k →
          AdmittedByTofu n call k ∨ AdmittedByPairing c n call k)
      ∧ (n.auth.policy ≠ .tofu → vaults c n call = none)
      ∧ (∀ s p test now wr hash, call = .password s p test now wr → n.auth.shadow = .hash hash →
          c.verifyPassword p hash = true → vaults c n call = none) := by
  obtain ⟨ho, hi⟩ := cache_reachable hrun
  refine ⟨act_dir hc, fun k hv => vaults_origin ho hv, ?_, ?_⟩
  · intro hp
    cases hv : vaults c n call with
    | none => rfl
    | some k =>
        exfalso
        cases call with
        | disk dir shadow => exact hc
        | key s k' test now wr =>
            rcases vaults_origin ho hv with ⟨_, ht, _⟩ | ⟨_, _, _, _, _, heq, _⟩
            · exact hp ht
            · cases heq
        | password s p test now wr =>
            have hcache := ((checkPassword_effect c test now wr p (n.view s)).wrote k hv).1
            have hnone := hi hp s
            exact absurd (hcache.symm.trans hnone) (by simp)
  · intro s p test now wr hash hcall hsh hver
    cases hv : vaults c n call with
    | none => rfl
    | some k =>
        exfalso
        rcases vaults_origin ho hv with ⟨⟨_, _, _, _, heq⟩, _⟩ | ⟨_, _, _, _, _, heq, _, _, hno⟩
        · rw [hcall] at heq; cases heq
        · rw [hcall] at heq
          cases heq
          rw [hno hash hsh] at hver
          cases hver

/-- A guest is challenged, gives the temp password, and is vaulted: the provenance is pairing. -/
theorem vault_provenance_guest :
    let auth : UnifiedAuthenticator Nat Nat := .new .empty .missing .tofu [] (some 7)
    let n := (Node.fresh auth).act Crypto.clear (.key 0 5 0 0 none)
    let call : Call Nat Nat Nat := .password 0 7 1 1 none
    vaults Crypto.clear n call = some 5
      ∧ (AdmittedByTofu n call 5 ∨ AdmittedByPairing Crypto.clear n call 5) := by
  intro auth n call
  have hv : vaults Crypto.clear n call = some 5 := by decide
  exact ⟨hv, (vault_provenance Crypto.clear auth [.key 0 5 0 0 none] n call rfl trivial).2.1 5 hv⟩

end Irosh.Proof
