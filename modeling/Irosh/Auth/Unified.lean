import Irosh.Storage.Trust

/-!
# The unified authenticator

`UnifiedAuthenticator` decides every login of a node. Its state is spread over
several places with different owners: the vault directory and the shadow file
are on disk and shared with other processes, the key list, the failure counter
and the success flag sit behind `Arc`s shared by all sessions, and the cached key
belongs to one session. The record below puts everything one handle can reach
side by side; who shares which field is said by the systems built on it.

Each check is cut where the source gives up its locks: the lockout test, the
first lookup, the directory read, the list replacement and the final section.
`checkPublicKey` runs these in sequence, and the interleaved system of
`Irosh.Auth.Interleaved` runs the very same pieces with other calls in between.

A check answers with a *verdict*, one per exit of the source function, and
`result` is what that exit returns.
-/

namespace Irosh

/-- `HostKeyPolicy`. -/
inductive HostKeyPolicy where
  | strict
  | tofu
  | acceptAll
  deriving DecidableEq, Repr

/-- The shadow file: absent, present but not readable as text, or a password hash. -/
inductive Shadow (H : Type) where
  | missing
  | unreadable
  | hash (h : H)
  deriving DecidableEq, Repr

/-- `load_shadow_file`. -/
def loadShadowFile {H : Type} : Shadow H → Except StorageError (Option H)
  | .missing => .ok none
  | .unreadable => .error .fileRead
  | .hash h => .ok (some h)

/-- The cryptography the authenticator calls: SHA-256 key digests in base64, and Argon2. -/
structure Crypto (K H P : Type) where
  digest : K → List Char
  verifyPassword : P → H → Bool

/-- `key.fingerprint(HashAlg::Sha256).to_string()`. -/
def Crypto.fingerprint {K H P : Type} (c : Crypto K H P) (k : K) : List Char :=
  ['S', 'H', 'A', '2', '5', '6', ':'] ++ c.digest k

theorem Crypto.fingerprint_ne_nil {K H P : Type} (c : Crypto K H P) (k : K) :
    c.fingerprint k ≠ [] := by
  simp [fingerprint]

/-- Cryptography for concrete runs: unary digests, and hashes that are the passwords themselves. -/
def Crypto.clear : Crypto Nat Nat Nat where
  digest k := List.replicate k 'x'
  verifyPassword p h := p == h

/-- A message raised on one of the pairing monitor's channels. -/
inductive Notice where
  | success
  | failure
  deriving DecidableEq, Repr

/-- Everything a `UnifiedAuthenticator` handle reaches. -/
structure UnifiedAuthenticator (K H : Type) where
  /-- `trust/clients` in the state directory. -/
  dir : ClientsDir K
  /-- `shadow` in the state directory. -/
  shadow : Shadow H
  policy : HostKeyPolicy
  authorizedKeys : List K
  tempPasswordHash : Option H
  successFlag : Bool
  failedAttempts : Nat
  /-- When the last failure was recorded, in nanoseconds. -/
  lastFailure : Option Nat
  /-- The key waiting for a password in this session. -/
  cachedKey : Option K
  /-- Whether `success_tx` and `failure_tx` are set. -/
  monitored : Bool
  /-- What has been raised on them, oldest first. -/
  notices : List Notice
  deriving DecidableEq, Repr

namespace UnifiedAuthenticator

variable {K H P : Type}

/-- `LOCKOUT_WINDOW`, in nanoseconds. -/
def lockoutWindow : Nat := 60 * 1000000000

/-- `UnifiedAuthenticator::new`. -/
def new (dir : ClientsDir K) (shadow : Shadow H) (policy : HostKeyPolicy) (keys : List K)
    (temp : Option H) : UnifiedAuthenticator K H where
  dir := dir
  shadow := shadow
  policy := policy
  authorizedKeys := keys
  tempPasswordHash := temp
  successFlag := false
  failedAttempts := 0
  lastFailure := none
  cachedKey := none
  monitored := false
  notices := []

/-- `UnifiedAuthenticator::with_tracking`: the flag and the counter are the monitor's. -/
def withTracking (dir : ClientsDir K) (shadow : Shadow H) (policy : HostKeyPolicy)
    (keys : List K) (temp : Option H) (successFlag : Bool) (failedAttempts : Nat) :
    UnifiedAuthenticator K H :=
  { new dir shadow policy keys temp with
    successFlag := successFlag, failedAttempts := failedAttempts, monitored := true }

/-- The authenticator `bind_server` builds for `AuthMode::Unified`. -/
def startup (dir : ClientsDir K) (shadow : Shadow H) (policy : HostKeyPolicy) :
    Except StorageError (UnifiedAuthenticator K H) :=
  match loadAllAuthorizedClients dir with
  | .ok vault => .ok (new dir shadow policy (vault.map Prod.snd) none)
  | .error e => .error e

/-- The authenticator `SshProtocol::accept` builds for a pairing connection: a vault that does not
load counts as empty. -/
def pairing (dir : ClientsDir K) (shadow : Shadow H) (policy : HostKeyPolicy) (password : Option H)
    (success : Bool) (failedAttempts : Nat) : UnifiedAuthenticator K H :=
  let vault := match loadAllAuthorizedClients dir with
    | .ok vault => vault
    | .error _ => []
  withTracking dir shadow policy (vault.map Prod.snd) password success failedAttempts

/-! ## Rate limiting -/

/-- `is_locked_out`, which also zeroes a counter whose window has passed. -/
def isLockedOut (now : Nat) (a : UnifiedAuthenticator K H) : Bool × UnifiedAuthenticator K H :=
  if a.failedAttempts < 3 then (false, a)
  else
    match a.lastFailure with
    | none => (true, a)
    | some last =>
        -- `elapsed()` saturates at zero, as subtraction does here
        if now - last > lockoutWindow then (false, { a with failedAttempts := 0 }) else (true, a)

/-- `reset_failures`. -/
def resetFailures (a : UnifiedAuthenticator K H) : UnifiedAuthenticator K H :=
  { a with failedAttempts := 0 }

/-- `record_failure`. -/
def recordFailure (now : Nat) (a : UnifiedAuthenticator K H) : UnifiedAuthenticator K H :=
  { a with
    lastFailure := some now
    failedAttempts := a.failedAttempts + 1
    notices := if a.monitored ∧ 3 ≤ a.failedAttempts + 1 then a.notices ++ [.failure] else a.notices }

/-- `notify_success`. -/
def notifySuccess (a : UnifiedAuthenticator K H) : UnifiedAuthenticator K H :=
  { a with notices := if a.monitored then a.notices ++ [.success] else a.notices }

/-! ## The vault -/

/-- The directory read of `refresh_keys`. -/
def readVault (a : UnifiedAuthenticator K H) : Except StorageError (List K) :=
  match loadAllAuthorizedClients a.dir with
  | .ok vault => .ok (vault.map Prod.snd)
  | .error e => .error e

/-- The replacement of the shared list in `refresh_keys`. -/
def replaceKeys (keys : List K) (a : UnifiedAuthenticator K H) : UnifiedAuthenticator K H :=
  { a with authorizedKeys := keys }

/-- `let _ = this.refresh_keys()`. -/
def refreshKeys (a : UnifiedAuthenticator K H) : UnifiedAuthenticator K H :=
  match a.readVault with
  | .ok keys => replaceKeys keys a
  | .error _ => a

/-- `node_pw_exists`: an unreadable shadow file counts as a password. -/
def nodePwExists (a : UnifiedAuthenticator K H) : Bool :=
  match loadShadowFile a.shadow with
  | .ok hash => hash.isSome
  | .error _ => true

/-- `write_authorized_client` and the `push` after it, with the success flag. -/
def vaultKey (c : Crypto K H P) (key : K) (a : UnifiedAuthenticator K H) :
    UnifiedAuthenticator K H :=
  { a with
    dir := writeAuthorizedClient a.dir (c.fingerprint key) key
    authorizedKeys := a.authorizedKeys ++ [key]
    successFlag := true }

/-! ## Passwords -/

/-- `check_password_match`: `some true` for the temp password, `some false` for the node's. -/
def checkPasswordMatch (c : Crypto K H P) (password : P) (a : UnifiedAuthenticator K H) :
    Option Bool :=
  match loadShadowFile a.shadow with
  | .error _ => none
  | .ok (some hash) =>
      if c.verifyPassword password hash then some false
      else
        match a.tempPasswordHash with
        | some temp => if c.verifyPassword password temp then some true else none
        | none => none
  | .ok none =>
      match a.tempPasswordHash with
      | some temp => if c.verifyPassword password temp then some true else none
      | none => none

/-- The temp password counts only where the node password does not match. -/
theorem checkPasswordMatch_temp {c : Crypto K H P} {password : P} {a : UnifiedAuthenticator K H}
    (h : a.checkPasswordMatch c password = some true) :
    (∃ temp, a.tempPasswordHash = some temp ∧ c.verifyPassword password temp = true)
      ∧ ∀ hash, a.shadow = .hash hash → c.verifyPassword password hash = false := by
  have htemp : (match a.tempPasswordHash with
      | some temp => if c.verifyPassword password temp then some true else none
      | none => none) = some true →
      ∃ temp, a.tempPasswordHash = some temp ∧ c.verifyPassword password temp = true := by
    intro ht
    cases hq : a.tempPasswordHash with
    | none => simp [hq] at ht
    | some temp =>
        refine ⟨temp, rfl, ?_⟩
        by_cases hv : c.verifyPassword password temp = true
        · exact hv
        · simp [hq, hv] at ht
  unfold checkPasswordMatch at h
  cases hs : a.shadow with
  | unreadable => simp [hs, loadShadowFile] at h
  | missing =>
      simp only [hs, loadShadowFile] at h
      exact ⟨htemp h, fun _ hq => by cases hq⟩
  | hash hash =>
      simp only [hs, loadShadowFile] at h
      split at h
      · simp at h
      · rename_i hv
        exact ⟨htemp h, fun _ hq => by cases hq; simpa using hv⟩

/-! ## What the pieces leave alone -/

/-- The lockout test changes nothing but a counter whose window has passed. -/
theorem isLockedOut_frame {β : Type} (f : UnifiedAuthenticator K H → β)
    (hf : ∀ a, f a.resetFailures = f a) (now : Nat) (a : UnifiedAuthenticator K H) :
    f (a.isLockedOut now).2 = f a := by
  unfold isLockedOut
  split
  · rfl
  · split
    · rfl
    · split
      · exact hf a
      · rfl

@[simp] theorem isLockedOut_dir (now : Nat) (a : UnifiedAuthenticator K H) :
    (a.isLockedOut now).2.dir = a.dir := isLockedOut_frame (·.dir) (fun _ => rfl) now a

@[simp] theorem isLockedOut_shadow (now : Nat) (a : UnifiedAuthenticator K H) :
    (a.isLockedOut now).2.shadow = a.shadow := isLockedOut_frame (·.shadow) (fun _ => rfl) now a

@[simp] theorem isLockedOut_policy (now : Nat) (a : UnifiedAuthenticator K H) :
    (a.isLockedOut now).2.policy = a.policy := isLockedOut_frame (·.policy) (fun _ => rfl) now a

@[simp] theorem isLockedOut_authorizedKeys (now : Nat) (a : UnifiedAuthenticator K H) :
    (a.isLockedOut now).2.authorizedKeys = a.authorizedKeys :=
  isLockedOut_frame (·.authorizedKeys) (fun _ => rfl) now a

@[simp] theorem isLockedOut_tempPasswordHash (now : Nat) (a : UnifiedAuthenticator K H) :
    (a.isLockedOut now).2.tempPasswordHash = a.tempPasswordHash :=
  isLockedOut_frame (·.tempPasswordHash) (fun _ => rfl) now a

@[simp] theorem isLockedOut_cachedKey (now : Nat) (a : UnifiedAuthenticator K H) :
    (a.isLockedOut now).2.cachedKey = a.cachedKey :=
  isLockedOut_frame (·.cachedKey) (fun _ => rfl) now a

@[simp] theorem isLockedOut_successFlag (now : Nat) (a : UnifiedAuthenticator K H) :
    (a.isLockedOut now).2.successFlag = a.successFlag :=
  isLockedOut_frame (·.successFlag) (fun _ => rfl) now a

/-- A refresh changes the list and nothing else. -/
theorem refreshKeys_eq (a : UnifiedAuthenticator K H) :
    a.refreshKeys = replaceKeys a.refreshKeys.authorizedKeys a := by
  unfold refreshKeys
  split <;> rfl

/-- What a refresh leaves in the list depends only on the directory and the list before. -/
theorem refreshKeys_congr {a b : UnifiedAuthenticator K H} (hd : a.dir = b.dir)
    (hk : a.authorizedKeys = b.authorizedKeys) :
    a.refreshKeys.authorizedKeys = b.refreshKeys.authorizedKeys := by
  unfold refreshKeys readVault
  rw [hd]
  cases loadAllAuthorizedClients b.dir with
  | ok vault => rfl
  | error e => exact hk

theorem mem_refreshKeys {a : UnifiedAuthenticator K H} {x : K}
    (hx : x ∈ a.refreshKeys.authorizedKeys) :
    x ∈ a.authorizedKeys ∨ a.dir.Holds x := by
  unfold refreshKeys readVault at hx
  cases hl : loadAllAuthorizedClients a.dir with
  | error e =>
      rw [hl] at hx
      exact .inl hx
  | ok vault =>
      rw [hl] at hx
      exact .inr (holds_of_mem_load hl hx)

/-- Neither the lockout test nor the refresh touches anything but the counter and the list. -/
theorem refreshed_frame (test : Nat) (a : UnifiedAuthenticator K H)
    {b : UnifiedAuthenticator K H} (hb : b = (a.isLockedOut test).2.refreshKeys) :
    b.policy = a.policy ∧ b.cachedKey = a.cachedKey ∧ b.dir = a.dir
      ∧ b.successFlag = a.successFlag ∧ b.shadow = a.shadow
      ∧ b.tempPasswordHash = a.tempPasswordHash
      ∧ b.authorizedKeys = a.refreshKeys.authorizedKeys := by
  have hr : (a.isLockedOut test).2.refreshKeys.authorizedKeys = a.refreshKeys.authorizedKeys :=
    refreshKeys_congr (by simp) (by simp)
  rw [refreshKeys_eq, hr] at hb
  subst hb
  exact ⟨by simp [replaceKeys], by simp [replaceKeys], by simp [replaceKeys],
    by simp [replaceKeys], by simp [replaceKeys], by simp [replaceKeys], rfl⟩

/-! ## `check_public_key` -/

/-- The exits of `check_public_key`. -/
inductive KeyVerdict where
  | rateLimited
  | acceptAll
  | known
  | refreshed
  | strict
  | challenged
  | tofu
  | writeFailed (e : StorageError)
  | claimed
  deriving DecidableEq, Repr

/-- What each exit returns. -/
def KeyVerdict.result : KeyVerdict → Except StorageError Bool
  | .rateLimited => .ok false
  | .acceptAll => .ok true
  | .known => .ok true
  | .refreshed => .ok true
  | .strict => .ok false
  | .challenged => .ok false
  | .tofu => .ok true
  | .writeFailed e => .error e
  | .claimed => .ok false

/-- What `check_public_key` leaves behind. -/
structure KeyEffect (c : Crypto K H P) (key : K) (a : UnifiedAuthenticator K H) (v : KeyVerdict)
    (a' : UnifiedAuthenticator K H) : Prop where
  policy : a'.policy = a.policy
  /-- Only a challenge touches the cache. -/
  cachedKey : a'.cachedKey = if v = .challenged then some key else a.cachedKey
  /-- Only TOFU touches the vault. -/
  dir : a'.dir = if v = .tofu then writeAuthorizedClient a.dir (c.fingerprint key) key else a.dir
  /-- The flag is never lowered. -/
  successFlag : a.successFlag = true → a'.successFlag = true
  /-- A challenge is only ever issued under TOFU. -/
  challenged : v = .challenged → a.policy = .tofu
  /-- TOFU admits when the policy allows it, no password is configured, and the list is empty after
  the refresh attempt. -/
  tofu : v = .tofu → a.policy = .tofu ∧ a.nodePwExists = false ∧ a.tempPasswordHash = none
    ∧ a.refreshKeys.authorizedKeys = []
  /-- Where the keys in the list come from. -/
  keys : ∀ x ∈ a'.authorizedKeys,
    x ∈ a.authorizedKeys ∨ a.dir.Holds x ∨ (x = key ∧ v = .tofu)

/-- An exit that neither challenges nor admits. -/
theorem keyEffect_quiet {c : Crypto K H P} {key : K} {v : KeyVerdict}
    {a a' : UnifiedAuthenticator K H} (hv : v ≠ .challenged) (hv' : v ≠ .tofu)
    (hp : a'.policy = a.policy) (hc : a'.cachedKey = a.cachedKey)
    (hd : a'.dir = a.dir) (hs : a'.successFlag = a.successFlag)
    (hk : ∀ x ∈ a'.authorizedKeys, x ∈ a.authorizedKeys ∨ a.dir.Holds x) :
    KeyEffect c key a v a' := by
  refine ⟨hp, by rw [if_neg hv, hc], by rw [if_neg hv', hd], fun h => by rw [hs]; exact h,
    fun h => absurd h hv, fun h => absurd h hv', ?_⟩
  intro x hx
  rcases hk x hx with h | h
  · exact .inl h
  · exact .inr (.inl h)

variable [DecidableEq K]

/-- The section of `check_public_key` that holds the list's lock to the end. `wr` is how a vault
write fails, if it does. -/
def finalSection (c : Crypto K H P) (now : Nat) (wr : Option StorageError) (key : K)
    (a : UnifiedAuthenticator K H) : KeyVerdict × UnifiedAuthenticator K H :=
  if key ∈ a.authorizedKeys then (.refreshed, a.resetFailures)
  else if a.policy = .strict then (.strict, a.recordFailure now)
  else if a.nodePwExists || a.tempPasswordHash.isSome then
    -- no failure is recorded: the client is expected to come back with a password
    (.challenged, { a with cachedKey := some key })
  else if a.authorizedKeys.isEmpty then
    -- nobody owns the node yet: the first key does from now on
    match wr with
    | some e => (.writeFailed e, a)
    | none => (.tofu, ((a.vaultKey c key).resetFailures).notifySuccess)
  else (.claimed, a.recordFailure now)

/-- `check_public_key`. `test` and `now` are the two moments the clock is read. -/
def checkPublicKey (c : Crypto K H P) (test now : Nat) (wr : Option StorageError) (key : K)
    (a : UnifiedAuthenticator K H) : KeyVerdict × UnifiedAuthenticator K H :=
  let (locked, a) := a.isLockedOut test
  if locked then (.rateLimited, a)
  else if a.policy = .acceptAll then (.acceptAll, a)
  -- a key the list knows is accepted without a look at the disk
  else if key ∈ a.authorizedKeys then (.known, a.resetFailures)
  else finalSection c now wr key a.refreshKeys

/-- **Everything the final section can do.** -/
theorem finalSection_cases {c : Crypto K H P} {now : Nat} {wr : Option StorageError} {key : K}
    {a a' : UnifiedAuthenticator K H} {v : KeyVerdict} (h : finalSection c now wr key a = (v, a')) :
    (v = .refreshed ∧ key ∈ a.authorizedKeys ∧ a' = a.resetFailures)
      ∨ (v = .strict ∧ key ∉ a.authorizedKeys ∧ a.policy = .strict ∧ a' = a.recordFailure now)
      ∨ (v = .challenged ∧ key ∉ a.authorizedKeys ∧ a.policy ≠ .strict
          ∧ (a.nodePwExists || a.tempPasswordHash.isSome) = true
          ∧ a' = { a with cachedKey := some key })
      ∨ (∃ e, v = .writeFailed e ∧ a.authorizedKeys = [] ∧ a' = a)
      ∨ (v = .tofu ∧ wr = none ∧ a.policy ≠ .strict ∧ a.nodePwExists = false
          ∧ a.tempPasswordHash = none ∧ a.authorizedKeys = []
          ∧ a' = ((a.vaultKey c key).resetFailures).notifySuccess)
      ∨ (v = .claimed ∧ key ∉ a.authorizedKeys ∧ a' = a.recordFailure now) := by
  unfold finalSection at h
  split at h
  · rename_i hk
    cases h
    exact .inl ⟨rfl, hk, rfl⟩
  · rename_i hk
    split at h
    · rename_i hp
      cases h
      exact .inr (.inl ⟨rfl, hk, hp, rfl⟩)
    · rename_i hp
      split at h
      · rename_i hw
        cases h
        exact .inr (.inr (.inl ⟨rfl, hk, hp, hw, rfl⟩))
      · rename_i hw
        split at h
        · rename_i he
          split at h
          · rename_i e
            cases h
            exact .inr (.inr (.inr (.inl ⟨e, rfl, List.isEmpty_iff.mp he, rfl⟩)))
          · cases h
            simp only [Bool.or_eq_true, not_or, Bool.not_eq_true, Option.isSome_eq_false_iff,
              Option.isNone_iff_eq_none] at hw
            exact .inr (.inr (.inr (.inr (.inl
              ⟨rfl, rfl, hp, hw.1, hw.2, List.isEmpty_iff.mp he, rfl⟩))))
        · cases h
          exact .inr (.inr (.inr (.inr (.inr ⟨rfl, hk, rfl⟩))))

/-- **Everything `check_public_key` can do.** -/
theorem checkPublicKey_cases {c : Crypto K H P} {test now : Nat} {wr : Option StorageError}
    {key : K} {a a' : UnifiedAuthenticator K H} {v : KeyVerdict}
    (h : checkPublicKey c test now wr key a = (v, a')) :
    (v = .rateLimited ∧ (a.isLockedOut test).1 = true ∧ a' = (a.isLockedOut test).2)
      ∨ (v = .acceptAll ∧ a.policy = .acceptAll ∧ a' = (a.isLockedOut test).2)
      ∨ (v = .known ∧ key ∈ a.authorizedKeys ∧ a' = (a.isLockedOut test).2.resetFailures)
      ∨ ((a.isLockedOut test).1 = false ∧ a.policy ≠ .acceptAll ∧ key ∉ a.authorizedKeys
          ∧ finalSection c now wr key (a.isLockedOut test).2.refreshKeys = (v, a')) := by
  unfold checkPublicKey at h
  dsimp only at h
  split at h
  · rename_i hl
    cases h
    exact .inl ⟨rfl, hl, rfl⟩
  · rename_i hl
    rw [isLockedOut_policy, isLockedOut_authorizedKeys] at h
    split at h
    · rename_i hp
      cases h
      exact .inr (.inl ⟨rfl, hp, rfl⟩)
    · rename_i hp
      split at h
      · rename_i hk
        cases h
        exact .inr (.inr (.inl ⟨rfl, hk, rfl⟩))
      · rename_i hk
        exact .inr (.inr (.inr ⟨by simpa using hl, hp, hk, h⟩))

/-- **What a key check leaves behind.** -/
theorem checkPublicKey_effect (c : Crypto K H P) (test now : Nat) (wr : Option StorageError)
    (key : K) (a : UnifiedAuthenticator K H) :
    KeyEffect c key a (checkPublicKey c test now wr key a).1
      (checkPublicKey c test now wr key a).2 := by
  have hflag := isLockedOut_successFlag test a
  rcases checkPublicKey_cases (Prod.eta (checkPublicKey c test now wr key a)).symm with
    ⟨hv, _, h⟩ | ⟨hv, _, h⟩ | ⟨hv, _, h⟩ | ⟨_, hp, _, hf⟩
  · rw [hv, h]
    exact keyEffect_quiet (by simp) (by simp) (by simp) (by simp) (by simp) hflag
      (fun x hx => .inl (by simpa using hx))
  · rw [hv, h]
    exact keyEffect_quiet (by simp) (by simp) (by simp) (by simp) (by simp) hflag
      (fun x hx => .inl (by simpa using hx))
  · rw [hv, h]
    exact keyEffect_quiet (by simp) (by simp) (by simp [resetFailures]) (by simp [resetFailures])
      (by simp [resetFailures]) hflag (fun x hx => .inl (by simpa [resetFailures] using hx))
  · -- past the first lookup: `b` is the state the final section starts from
    generalize hb : (a.isLockedOut test).2.refreshKeys = b at hf
    obtain ⟨bpol, bcache, bdir, bflag, bshadow, btemp, bkeys⟩ := refreshed_frame test a hb.symm
    have hold : ∀ x ∈ b.authorizedKeys, x ∈ a.authorizedKeys ∨ a.dir.Holds x := by
      intro x hx
      rw [bkeys] at hx
      exact mem_refreshKeys hx
    have htofu : b.policy ≠ .strict → a.policy = .tofu := by
      intro hs
      rw [bpol] at hs
      cases hq : a.policy with
      | strict => exact absurd hq hs
      | tofu => rfl
      | acceptAll => exact absurd hq hp
    rcases finalSection_cases hf with ⟨hv, _, h⟩ | ⟨hv, _, _, h⟩ | ⟨hv, _, hs, _, h⟩ |
      ⟨_, hv, _, h⟩ | ⟨hv, _, hs, hn, ht, he, h⟩ | ⟨hv, _, h⟩
    · rw [hv, h]
      exact keyEffect_quiet (by simp) (by simp) bpol bcache bdir bflag hold
    · rw [hv, h]
      exact keyEffect_quiet (by simp) (by simp) bpol bcache bdir bflag hold
    · rw [hv, h]
      refine ⟨bpol, rfl, bdir, fun hf => bflag.trans hf, fun _ => htofu hs, nofun, ?_⟩
      intro x hx
      rcases hold x hx with hx | hx
      · exact .inl hx
      · exact .inr (.inl hx)
    · rw [hv, h]
      exact keyEffect_quiet (by simp) (by simp) bpol bcache bdir bflag hold
    · rw [hv, h]
      have hnode : a.nodePwExists = false := by
        unfold nodePwExists at hn ⊢
        rw [← bshadow]
        exact hn
      refine ⟨bpol, bcache, ?_, fun _ => rfl, nofun,
        fun _ => ⟨htofu hs, hnode, btemp ▸ ht, bkeys ▸ he⟩, ?_⟩
      · rw [if_pos rfl, ← bdir]
        rfl
      · intro x hx
        have hx' : x = key := by
          simpa [resetFailures, notifySuccess, vaultKey, he] using hx
        exact .inr (.inr ⟨hx', rfl⟩)
    · rw [hv, h]
      exact keyEffect_quiet (by simp) (by simp) bpol bcache bdir bflag hold

/-! ## `check_password` -/

/-- The exits of `check_password`. -/
inductive PasswordVerdict (K : Type) where
  | rateLimited
  | nodePassword
  | paired (key : K)
  | alreadyTrusted (key : K)
  | nothingCached
  | writeFailed (key : K) (e : StorageError)
  | rejected
  deriving DecidableEq, Repr

/-- What each exit returns. -/
def PasswordVerdict.result : PasswordVerdict K → Except StorageError Bool
  | .rateLimited => .ok false
  | .nodePassword => .ok true
  | .paired _ => .ok true
  | .alreadyTrusted _ => .ok true
  | .nothingCached => .ok true
  | .writeFailed _ e => .error e
  | .rejected => .ok false

/-- The key a password check writes to the vault, if it writes one. -/
def PasswordVerdict.wrote : PasswordVerdict K → Option K
  | .paired key => some key
  | _ => none

/-- `check_password` from the answer of `check_password_match` on. -/
def settlePassword (c : Crypto K H P) (now : Nat) (wr : Option StorageError)
    (answer : Option Bool) (a : UnifiedAuthenticator K H) :
    PasswordVerdict K × UnifiedAuthenticator K H :=
  match answer with
  | some true =>
      match a.cachedKey with
      | none => (.nothingCached, a.resetFailures)
      | some key =>
          -- `take()`: the key is gone from the cache even if the write below fails
          let a := { a with cachedKey := none }
          if key ∈ a.authorizedKeys then (.alreadyTrusted key, a.resetFailures)
          else
            match wr with
            | some e => (.writeFailed key e, a)
            | none => (.paired key, ((a.vaultKey c key).notifySuccess).resetFailures)
  | some false => (.nodePassword, { a with cachedKey := none }.resetFailures)
  | none => (.rejected, { a with cachedKey := none }.recordFailure now)

/-- `check_password`. -/
def checkPassword (c : Crypto K H P) (test now : Nat) (wr : Option StorageError) (password : P)
    (a : UnifiedAuthenticator K H) : PasswordVerdict K × UnifiedAuthenticator K H :=
  let (locked, a) := a.isLockedOut test
  if locked then (.rateLimited, a)
  else settlePassword c now wr (a.checkPasswordMatch c password) a

/-- **Everything `check_password` can do** once it is past the lockout test. -/
theorem settlePassword_cases {c : Crypto K H P} {now : Nat} {wr : Option StorageError}
    {answer : Option Bool} {a a' : UnifiedAuthenticator K H} {v : PasswordVerdict K}
    (h : settlePassword c now wr answer a = (v, a')) :
    (v = .nothingCached ∧ answer = some true ∧ a.cachedKey = none ∧ a' = a.resetFailures)
      ∨ (∃ key, v = .alreadyTrusted key ∧ answer = some true ∧ a.cachedKey = some key
          ∧ a' = { a with cachedKey := none }.resetFailures)
      ∨ (∃ key e, v = .writeFailed key e ∧ answer = some true ∧ a.cachedKey = some key
          ∧ a' = { a with cachedKey := none })
      ∨ (∃ key, v = .paired key ∧ wr = none ∧ answer = some true ∧ a.cachedKey = some key
          ∧ key ∉ a.authorizedKeys
          ∧ a' = ((vaultKey c key { a with cachedKey := none }).notifySuccess).resetFailures)
      ∨ (v = .nodePassword ∧ answer = some false ∧ a' = { a with cachedKey := none }.resetFailures)
      ∨ (v = .rejected ∧ answer = none ∧ a' = { a with cachedKey := none }.recordFailure now) := by
  unfold settlePassword at h
  split at h
  · split at h
    · rename_i hc
      cases h
      exact .inl ⟨rfl, rfl, hc, rfl⟩
    · rename_i key hc
      dsimp only at h
      split at h
      · cases h
        exact .inr (.inl ⟨key, rfl, rfl, hc, rfl⟩)
      · rename_i hk
        split at h
        · rename_i e
          cases h
          exact .inr (.inr (.inl ⟨key, e, rfl, rfl, hc, rfl⟩))
        · cases h
          exact .inr (.inr (.inr (.inl ⟨key, rfl, rfl, rfl, hc, hk, rfl⟩)))
  · cases h
    exact .inr (.inr (.inr (.inr (.inl ⟨rfl, rfl, rfl⟩))))
  · cases h
    exact .inr (.inr (.inr (.inr (.inr ⟨rfl, rfl, rfl⟩))))

/-- What `check_password` leaves behind. -/
structure PasswordEffect (c : Crypto K H P) (password : P) (a : UnifiedAuthenticator K H)
    (v : PasswordVerdict K) (a' : UnifiedAuthenticator K H) : Prop where
  policy : a'.policy = a.policy
  /-- A check that is not rate limited always empties the cache. -/
  cachedKey : a'.cachedKey = if v = .rateLimited then a.cachedKey else none
  /-- Only pairing touches the vault. -/
  dir : a'.dir = match v.wrote with
    | some key => writeAuthorizedClient a.dir (c.fingerprint key) key
    | none => a.dir
  successFlag : a.successFlag = true → a'.successFlag = true
  /-- The list grows by the key just vaulted and in no other way. -/
  keys : ∀ x ∈ a'.authorizedKeys, x ∈ a.authorizedKeys ∨ v.wrote = some x
  /-- A password vaults the cached key, if the list does not know it and the temp password was given,
  and raises the flag. -/
  wrote : ∀ k, v.wrote = some k → a.cachedKey = some k
    ∧ a.checkPasswordMatch c password = some true ∧ k ∉ a.authorizedKeys ∧ a'.successFlag = true

/-- An exit past the lockout test that vaults nothing. -/
theorem passwordEffect_quiet {c : Crypto K H P} {password : P} {v : PasswordVerdict K}
    {a a' : UnifiedAuthenticator K H} (hv : v ≠ .rateLimited) (hw : v.wrote = none)
    (hp : a'.policy = a.policy) (hc : a'.cachedKey = none) (hd : a'.dir = a.dir)
    (hs : a'.successFlag = a.successFlag)
    (hk : a'.authorizedKeys = a.authorizedKeys) : PasswordEffect c password a v a' := by
  refine ⟨hp, by rw [if_neg hv, hc], by rw [hw, hd], fun h => by rw [hs]; exact h,
    fun x hx => .inl (hk ▸ hx), ?_⟩
  intro k hk'
  rw [hw] at hk'
  cases hk'

/-- What a password check does. -/
theorem checkPassword_cases {c : Crypto K H P} {test now : Nat} {wr : Option StorageError}
    {password : P} {a a' : UnifiedAuthenticator K H} {v : PasswordVerdict K}
    (h : checkPassword c test now wr password a = (v, a')) :
    (v = .rateLimited ∧ (a.isLockedOut test).1 = true ∧ a' = (a.isLockedOut test).2)
      ∨ ((a.isLockedOut test).1 = false
          ∧ settlePassword c now wr (a.checkPasswordMatch c password) (a.isLockedOut test).2
            = (v, a')) := by
  have hm : (a.isLockedOut test).2.checkPasswordMatch c password = a.checkPasswordMatch c password := by
    simp [checkPasswordMatch]
  unfold checkPassword at h
  dsimp only at h
  rw [hm] at h
  split at h
  · rename_i hl
    cases h
    exact .inl ⟨rfl, hl, rfl⟩
  · rename_i hl
    exact .inr ⟨by simpa using hl, h⟩

/-- **What a password check leaves behind.** -/
theorem checkPassword_effect (c : Crypto K H P) (test now : Nat) (wr : Option StorageError)
    (password : P) (a : UnifiedAuthenticator K H) :
    PasswordEffect c password a (checkPassword c test now wr password a).1
      (checkPassword c test now wr password a).2 := by
  rcases checkPassword_cases
    (Prod.eta (checkPassword c test now wr password a)).symm with ⟨hv, _, h⟩ | ⟨_, hf⟩
  · rw [hv, h]
    exact ⟨by simp, by simp, by simp [PasswordVerdict.wrote], by simp,
      fun x hx => .inl (by simpa using hx), nofun⟩
  · -- `b` is the state behind the lockout test
    have bpol := isLockedOut_policy test a
    have bcache := isLockedOut_cachedKey test a
    have bdir := isLockedOut_dir test a
    have bkeys := isLockedOut_authorizedKeys test a
    have bflag := isLockedOut_successFlag test a
    generalize (a.isLockedOut test).2 = b at hf bpol bcache bdir bkeys bflag
    rcases settlePassword_cases hf with ⟨hv, _, hc, h⟩ | ⟨_, hv, _, _, h⟩ | ⟨_, _, hv, _, _, h⟩ |
      ⟨key, hv, _, hm, hc, hk, h⟩ | ⟨hv, _, h⟩ | ⟨hv, _, h⟩
    · rw [hv, h]
      exact passwordEffect_quiet (by simp) rfl bpol hc bdir bflag bkeys
    · rw [hv, h]
      exact passwordEffect_quiet (by simp) rfl bpol rfl bdir bflag bkeys
    · rw [hv, h]
      exact passwordEffect_quiet (by simp) rfl bpol rfl bdir bflag bkeys
    · rw [hv, h]
      refine ⟨bpol, rfl, by rw [← bdir]; rfl, fun _ => rfl, ?_, ?_⟩
      · intro x hx
        have hx' : x ∈ b.authorizedKeys ∨ x = key := by
          simpa [resetFailures, notifySuccess, vaultKey] using hx
        rcases hx' with hx' | hx'
        · exact .inl (bkeys ▸ hx')
        · rw [hx']
          exact .inr rfl
      · intro k hk'
        cases hk'
        exact ⟨bcache ▸ hc, hm, bkeys ▸ hk, rfl⟩
    · rw [hv, h]
      exact passwordEffect_quiet (by simp) rfl bpol rfl bdir bflag bkeys
    · rw [hv, h]
      exact passwordEffect_quiet (by simp) rfl bpol rfl bdir bflag bkeys

end UnifiedAuthenticator

end Irosh
