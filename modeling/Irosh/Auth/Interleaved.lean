import Irosh.Auth.Sessions

/-!
# Checks taken apart

Each check runs on a blocking thread of its own, so the checks of different
sessions overlap. Here a check is a program counter, and one event moves one
check past one of the points at which the source holds no lock: the lockout test,
the first lookup, the directory read, the replacement of the list, and the final
section.

The directory read and the replacement are two steps. The list that is installed
travels in the program counter between them, and nothing keeps it fresh.

`solo_key` and `solo_password` tie the pieces to the whole calls: a check that
runs with nobody in between does exactly what `checkPublicKey` and
`checkPassword` say.
-/

namespace Irosh

open UnifiedAuthenticator

/-- Where a `check_public_key` stands. -/
inductive KeyPc (K : Type) where
  | lockout
  | lookup
  | readVault
  /-- The directory has been read; the list has not been replaced yet. -/
  | replace (snapshot : List K)
  | final
  | done (v : KeyVerdict)
  deriving DecidableEq, Repr

/-- Where a `check_password` stands. -/
inductive PasswordPc (K : Type) where
  | lockout
  | verify
  | settle (answer : Option Bool)
  | done (v : PasswordVerdict K)
  deriving DecidableEq, Repr

/-- A check in progress. -/
inductive Running (K P : Type) where
  | key (session : Nat) (key : K) (pc : KeyPc K)
  | password (session : Nat) (password : P) (pc : PasswordPc K)
  deriving DecidableEq, Repr

/-- One authenticator, its sessions' caches, and the checks in progress. -/
structure Pool (K H P : Type) where
  auth : UnifiedAuthenticator K H
  cache : Nat → Option K
  calls : List (Running K P)
  /-- The keys TOFU has admitted, oldest first (ghost). -/
  admitted : List K

/-- What can happen to a pool. -/
inductive PoolEvent (K H P : Type) where
  | startKey (session : Nat) (key : K)
  | startPassword (session : Nat) (password : P)
  /-- Check number `i` takes its next step. -/
  | advance (i : Nat) (now : Nat) (wr : Option StorageError)
  | disk (dir : ClientsDir K) (shadow : Shadow H)

section Steps

variable {K H P : Type}

namespace Pool

/-- `for_new_session`. -/
def view (p : Pool K H P) (s : Nat) : UnifiedAuthenticator K H :=
  { p.auth with cachedKey := p.cache s }

/-- The pool after check `i` of session `s` has worked on its view. -/
def put (p : Pool K H P) (i s : Nat) (a : UnifiedAuthenticator K H) (r : Running K P) :
    Pool K H P where
  auth := { a with cachedKey := none }
  cache := fun s' => if s' = s then a.cachedKey else p.cache s'
  calls := p.calls.set i r
  admitted :=
    match r with
    | .key _ k (.done .tofu) => p.admitted ++ [k]
    | _ => p.admitted

theorem put_view (p : Pool K H P) (i s : Nat) (a : UnifiedAuthenticator K H) (r : Running K P) :
    (p.put i s a r).view s = a := by
  simp [put, view]

theorem put_calls_self {p : Pool K H P} {i s : Nat} {a : UnifiedAuthenticator K H}
    {r r' : Running K P} (hi : p.calls[i]? = some r) : (p.put i s a r').calls[i]? = some r' :=
  List.getElem?_set_self (List.getElem?_eq_some_iff.mp hi).1

theorem put_calls_ne {p : Pool K H P} {i j s : Nat} {a : UnifiedAuthenticator K H}
    {r : Running K P} (h : j ≠ i) : (p.put j s a r).calls[i]? = p.calls[i]? :=
  List.getElem?_set_ne h

/-- A check in the pool after `put` is the one that moved or one that was there. -/
theorem mem_put_calls {p : Pool K H P} {i s : Nat} {a : UnifiedAuthenticator K H}
    {r x : Running K P} (hx : x ∈ (p.put i s a r).calls) : x = r ∨ x ∈ p.calls := by
  rcases List.mem_or_eq_of_mem_set hx with h | h
  · exact .inr h
  · exact .inl h

/-- A check in its first step. -/
def Started : Running K P → Prop
  | .key _ _ pc => pc = .lockout
  | .password _ _ pc => pc = .lockout

end Pool

variable [DecidableEq K]

/-- One step of `check_public_key`. -/
def stepKey (c : Crypto K H P) (now : Nat) (wr : Option StorageError) (key : K)
    (a : UnifiedAuthenticator K H) : KeyPc K → Option (KeyPc K × UnifiedAuthenticator K H)
  | .lockout =>
      let r := a.isLockedOut now
      some (if r.1 then .done .rateLimited else .lookup, r.2)
  | .lookup =>
      if a.policy = .acceptAll then some (.done .acceptAll, a)
      else if key ∈ a.authorizedKeys then some (.done .known, a.resetFailures)
      else some (.readVault, a)
  | .readVault =>
      match a.readVault with
      | .ok keys => some (.replace keys, a)
      -- `let _ = refresh_keys()`: the old list stays
      | .error _ => some (.final, a)
  | .replace snapshot => some (.final, replaceKeys snapshot a)
  | .final =>
      let r := finalSection c now wr key a
      some (.done r.1, r.2)
  | .done _ => none

/-- One step of `check_password`. -/
def stepPassword (c : Crypto K H P) (now : Nat) (wr : Option StorageError) (password : P)
    (a : UnifiedAuthenticator K H) :
    PasswordPc K → Option (PasswordPc K × UnifiedAuthenticator K H)
  | .lockout =>
      let r := a.isLockedOut now
      some (if r.1 then .done .rateLimited else .verify, r.2)
  | .verify => some (.settle (a.checkPasswordMatch c password), a)
  | .settle answer =>
      let r := settlePassword c now wr answer a
      some (.done r.1, r.2)
  | .done _ => none

namespace Pool

/-- Check `i` takes its next step. -/
def advance (c : Crypto K H P) (p : Pool K H P) (i now : Nat) (wr : Option StorageError) :
    Option (Pool K H P) :=
  match p.calls[i]? with
  | some (.key s k pc) =>
      (stepKey c now wr k (p.view s) pc).map fun r => p.put i s r.2 (.key s k r.1)
  | some (.password s w pc) =>
      (stepPassword c now wr w (p.view s) pc).map fun r => p.put i s r.2 (.password s w r.1)
  | none => none

/-- What each event does. -/
def step (c : Crypto K H P) (p : Pool K H P) : PoolEvent K H P → Option (Pool K H P)
  | .startKey s k => some { p with calls := p.calls ++ [.key s k .lockout] }
  | .startPassword s w => some { p with calls := p.calls ++ [.password s w .lockout] }
  | .advance i now wr => p.advance c i now wr
  | .disk dir shadow => some { p with auth := { p.auth with dir := dir, shadow := shadow } }

end Pool

/-! ## What one step does -/

/-- What one step of `check_public_key` does to the vault and to the list. -/
theorem stepKey_effect {c : Crypto K H P} {now : Nat} {wr : Option StorageError} {key : K}
    {a a' : UnifiedAuthenticator K H} {pc pc' : KeyPc K}
    (h : stepKey c now wr key a pc = some (pc', a')) :
    a'.policy = a.policy ∧ a'.shadow = a.shadow ∧ a'.tempPasswordHash = a.tempPasswordHash
      ∧ ((pc = .final ∧ pc' = .done .tofu ∧ a.authorizedKeys = []
            ∧ a'.dir = writeAuthorizedClient a.dir (c.fingerprint key) key
            ∧ a'.authorizedKeys = [key])
          ∨ (pc' ≠ .done .tofu ∧ a'.dir = a.dir
            ∧ ((∃ snapshot, pc = .replace snapshot ∧ a'.authorizedKeys = snapshot)
              ∨ ((∀ snapshot, pc ≠ .replace snapshot) ∧ a'.authorizedKeys = a.authorizedKeys)))) := by
  cases pc with
  | lockout =>
      cases h
      refine ⟨by simp, by simp, by simp, .inr ⟨?_, by simp, .inr ⟨by simp, by simp⟩⟩⟩
      split <;> simp
  | lookup =>
      simp only [stepKey] at h
      split at h
      · cases h
        exact ⟨rfl, rfl, rfl, .inr ⟨by simp, rfl, .inr ⟨by simp, rfl⟩⟩⟩
      · split at h
        · cases h
          exact ⟨rfl, rfl, rfl, .inr ⟨by simp, rfl, .inr ⟨by simp, rfl⟩⟩⟩
        · cases h
          exact ⟨rfl, rfl, rfl, .inr ⟨by simp, rfl, .inr ⟨by simp, rfl⟩⟩⟩
  | readVault =>
      simp only [stepKey] at h
      split at h
      · cases h
        exact ⟨rfl, rfl, rfl, .inr ⟨by simp, rfl, .inr ⟨by simp, rfl⟩⟩⟩
      · cases h
        exact ⟨rfl, rfl, rfl, .inr ⟨by simp, rfl, .inr ⟨by simp, rfl⟩⟩⟩
  | replace snapshot =>
      cases h
      exact ⟨rfl, rfl, rfl, .inr ⟨by simp, rfl, .inl ⟨snapshot, rfl, rfl⟩⟩⟩
  | final =>
      cases h
      rcases finalSection_cases (Prod.eta (finalSection c now wr key a)).symm with
        ⟨hv, _, ha⟩ | ⟨hv, _, _, ha⟩ | ⟨hv, _, _, _, ha⟩ | ⟨e, hv, _, ha⟩ |
        ⟨hv, _, _, _, _, he, ha⟩ | ⟨hv, _, ha⟩
      · rw [hv, ha]
        exact ⟨rfl, rfl, rfl, .inr ⟨by simp, rfl, .inr ⟨by simp, rfl⟩⟩⟩
      · rw [hv, ha]
        exact ⟨rfl, rfl, rfl, .inr ⟨by simp, rfl, .inr ⟨by simp, rfl⟩⟩⟩
      · rw [hv, ha]
        exact ⟨rfl, rfl, rfl, .inr ⟨by simp, rfl, .inr ⟨by simp, rfl⟩⟩⟩
      · rw [hv, ha]
        exact ⟨rfl, rfl, rfl, .inr ⟨by simp, rfl, .inr ⟨by simp, rfl⟩⟩⟩
      · rw [hv, ha]
        refine ⟨rfl, rfl, rfl, .inl ⟨rfl, rfl, he, rfl, ?_⟩⟩
        simp [vaultKey, resetFailures, notifySuccess, he]
      · rw [hv, ha]
        exact ⟨rfl, rfl, rfl, .inr ⟨by simp, rfl, .inr ⟨by simp, rfl⟩⟩⟩
  | done v => cases h

/-- What one step of `check_password` does to the vault and to the list. -/
theorem stepPassword_effect {c : Crypto K H P} {now : Nat} {wr : Option StorageError} {password : P}
    {a a' : UnifiedAuthenticator K H} {pc pc' : PasswordPc K}
    (h : stepPassword c now wr password a pc = some (pc', a')) :
    a'.policy = a.policy ∧ a'.shadow = a.shadow ∧ a'.tempPasswordHash = a.tempPasswordHash
      ∧ ((∃ key, pc = .settle (some true) ∧ a'.authorizedKeys = a.authorizedKeys ++ [key]
            ∧ a'.dir = writeAuthorizedClient a.dir (c.fingerprint key) key)
          ∨ (a'.authorizedKeys = a.authorizedKeys ∧ a'.dir = a.dir)) := by
  cases pc with
  | lockout =>
      cases h
      exact ⟨by simp, by simp, by simp, .inr ⟨by simp, by simp⟩⟩
  | verify =>
      cases h
      exact ⟨rfl, rfl, rfl, .inr ⟨rfl, rfl⟩⟩
  | settle answer =>
      cases h
      rcases settlePassword_cases (Prod.eta (settlePassword c now wr answer a)).symm with
        ⟨_, _, _, ha⟩ | ⟨_, _, _, _, ha⟩ | ⟨_, _, _, _, _, ha⟩ | ⟨key, _, _, hm, _, _, ha⟩ |
        ⟨_, _, ha⟩ | ⟨_, _, ha⟩
      · rw [ha]; exact ⟨rfl, rfl, rfl, .inr ⟨rfl, rfl⟩⟩
      · rw [ha]; exact ⟨rfl, rfl, rfl, .inr ⟨rfl, rfl⟩⟩
      · rw [ha]; exact ⟨rfl, rfl, rfl, .inr ⟨rfl, rfl⟩⟩
      · rw [ha, hm]; exact ⟨rfl, rfl, rfl, .inl ⟨key, rfl, rfl, rfl⟩⟩
      · rw [ha]; exact ⟨rfl, rfl, rfl, .inr ⟨rfl, rfl⟩⟩
      · rw [ha]; exact ⟨rfl, rfl, rfl, .inr ⟨rfl, rfl⟩⟩
  | done v => cases h

/-! ## What one event does -/

namespace Pool

/-- **Everything an event can do.** -/
theorem step_cases {c : Crypto K H P} {p p' : Pool K H P} {e : PoolEvent K H P}
    (h : p.step c e = some p') :
    (∃ r, Started r ∧ p' = { p with calls := p.calls ++ [r] })
      ∨ (∃ i now wr s k pc pc' a', e = .advance i now wr ∧ p.calls[i]? = some (.key s k pc)
          ∧ stepKey c now wr k (p.view s) pc = some (pc', a') ∧ p' = p.put i s a' (.key s k pc'))
      ∨ (∃ i now wr s w pc pc' a', e = .advance i now wr ∧ p.calls[i]? = some (.password s w pc)
          ∧ stepPassword c now wr w (p.view s) pc = some (pc', a')
          ∧ p' = p.put i s a' (.password s w pc'))
      ∨ (∃ dir shadow, e = .disk dir shadow
          ∧ p' = { p with auth := { p.auth with dir := dir, shadow := shadow } }) := by
  cases e with
  | startKey s k =>
      cases h
      exact .inl ⟨.key s k .lockout, rfl, rfl⟩
  | startPassword s w =>
      cases h
      exact .inl ⟨.password s w .lockout, rfl, rfl⟩
  | disk dir shadow =>
      cases h
      exact .inr (.inr (.inr ⟨dir, shadow, rfl, rfl⟩))
  | advance i now wr =>
      simp only [step, advance] at h
      split at h
      · rename_i s k pc hi
        obtain ⟨r, hr, hp⟩ := Option.map_eq_some_iff.mp h
        exact .inr (.inl ⟨i, now, wr, s, k, pc, r.1, r.2, rfl, hi, hr, hp.symm⟩)
      · rename_i s w pc hi
        obtain ⟨r, hr, hp⟩ := Option.map_eq_some_iff.mp h
        exact .inr (.inr (.inl ⟨i, now, wr, s, w, pc, r.1, r.2, rfl, hi, hr, hp.symm⟩))
      · cases h

/-! ## A check with nobody in between -/

/-- A check's own view of its progress. -/
def soloKey (c : Crypto K H P) (key : K) (st : KeyPc K × UnifiedAuthenticator K H)
    (m : Nat × Option StorageError) : Option (KeyPc K × UnifiedAuthenticator K H) :=
  stepKey c m.1 m.2 key st.2 st.1

def soloPassword (c : Crypto K H P) (password : P) (st : PasswordPc K × UnifiedAuthenticator K H)
    (m : Nat × Option StorageError) : Option (PasswordPc K × UnifiedAuthenticator K H) :=
  stepPassword c m.1 m.2 password st.2 st.1

/-- The events that move check `i` alone. -/
def advances (i : Nat) (ms : List (Nat × Option StorageError)) : List (PoolEvent K H P) :=
  ms.map fun m => .advance i m.1 m.2

/-- A check that is alone in moving sees its own steps. `wrap` says which check it is. -/
theorem exec_advances {c : Crypto K H P} {i s : Nat} {Pc : Type} {wrap : Pc → Running K P}
    {solo : Pc × UnifiedAuthenticator K H → Nat × Option StorageError →
      Option (Pc × UnifiedAuthenticator K H)}
    (hsolo : ∀ (p : Pool K H P) (pc pc' : Pc) (a' : UnifiedAuthenticator K H)
      (m : Nat × Option StorageError), p.calls[i]? = some (wrap pc) →
      solo (pc, p.view s) m = some (pc', a') →
      p.step c (.advance i m.1 m.2) = some (p.put i s a' (wrap pc')))
    {ms : List (Nat × Option StorageError)} {p : Pool K H P} {pc pc' : Pc}
    {a' : UnifiedAuthenticator K H} (hi : p.calls[i]? = some (wrap pc))
    (h : Exec.exec solo (pc, p.view s) ms = some (pc', a')) :
    ∃ p', Exec.exec (step c) p (advances i ms) = some p'
      ∧ p'.calls[i]? = some (wrap pc') ∧ p'.view s = a' := by
  induction ms generalizing p pc with
  | nil =>
      cases h
      exact ⟨p, rfl, hi, rfl⟩
  | cons m ms ih =>
      obtain ⟨⟨pc₁, a₁⟩, h1, h2⟩ := Exec.exec_cons_some h
      have hstep := hsolo p pc pc₁ a₁ m hi h1
      have hi' : (p.put i s a₁ (wrap pc₁)).calls[i]? = some (wrap pc₁) := put_calls_self hi
      obtain ⟨p', hx, hc, hv⟩ := ih hi' (by rw [put_view]; exact h2)
      refine ⟨p', ?_, hc, hv⟩
      simp only [advances, List.map_cons, Exec.exec_cons, hstep, Option.bind_some]
      exact hx

theorem advance_soloKey {c : Crypto K H P} {i s : Nat} {k : K} (p : Pool K H P) (pc pc' : KeyPc K)
    (a' : UnifiedAuthenticator K H) (m : Nat × Option StorageError)
    (hi : p.calls[i]? = some (.key s k pc)) (h : soloKey c k (pc, p.view s) m = some (pc', a')) :
    p.step c (.advance i m.1 m.2) = some (p.put i s a' (.key s k pc')) := by
  have h' : stepKey c m.1 m.2 k (p.view s) pc = some (pc', a') := h
  simp [step, advance, hi, h']

theorem advance_soloPassword {c : Crypto K H P} {i s : Nat} {w : P} (p : Pool K H P)
    (pc pc' : PasswordPc K) (a' : UnifiedAuthenticator K H) (m : Nat × Option StorageError)
    (hi : p.calls[i]? = some (.password s w pc))
    (h : soloPassword c w (pc, p.view s) m = some (pc', a')) :
    p.step c (.advance i m.1 m.2) = some (p.put i s a' (.password s w pc')) := by
  have h' : stepPassword c m.1 m.2 w (p.view s) pc = some (pc', a') := h
  simp [step, advance, hi, h']

/-- From the directory read on, a check alone is a refresh and the final section. -/
theorem exec_soloKey_readVault (c : Crypto K H P) (now : Nat) (wr : Option StorageError) (k : K)
    (a : UnifiedAuthenticator K H) :
    ∃ ms, Exec.exec (soloKey c k) (.readVault, a) ms
      = some (.done (finalSection c now wr k a.refreshKeys).1,
          (finalSection c now wr k a.refreshKeys).2) := by
  cases hr : a.readVault with
  | ok keys =>
      refine ⟨[(now, wr), (now, wr), (now, wr)], ?_⟩
      simp [soloKey, stepKey, refreshKeys, hr]
  | error e =>
      refine ⟨[(now, wr), (now, wr)], ?_⟩
      simp [soloKey, stepKey, refreshKeys, hr]

/-- **Uninterrupted, the steps of a key check are `checkPublicKey`.** -/
theorem solo_key {c : Crypto K H P} {p : Pool K H P} {i s : Nat} {k : K}
    (hi : p.calls[i]? = some (.key s k .lockout)) (test now : Nat) (wr : Option StorageError) :
    ∃ ms p', Exec.exec (step c) p (advances i ms) = some p'
      ∧ p'.calls[i]? = some (.key s k (.done (checkPublicKey c test now wr k (p.view s)).1))
      ∧ p'.view s = (checkPublicKey c test now wr k (p.view s)).2 := by
  suffices h : ∃ ms, Exec.exec (soloKey c k) (.lockout, p.view s) ms
      = some (.done (checkPublicKey c test now wr k (p.view s)).1,
          (checkPublicKey c test now wr k (p.view s)).2) by
    obtain ⟨ms, hms⟩ := h
    obtain ⟨p', hp'⟩ := exec_advances advance_soloKey hi hms
    exact ⟨ms, p', hp'⟩
  by_cases hl : ((p.view s).isLockedOut test).1 = true
  · exact ⟨[(test, none)], by simp [soloKey, stepKey, checkPublicKey, hl]⟩
  by_cases hp : (p.view s).policy = .acceptAll
  · exact ⟨[(test, none), (test, none)], by simp [soloKey, stepKey, checkPublicKey, hl, hp]⟩
  by_cases hk : k ∈ (p.view s).authorizedKeys
  · exact ⟨[(test, none), (test, none)], by simp [soloKey, stepKey, checkPublicKey, hl, hp, hk]⟩
  -- past the first lookup: the refresh and the final section
  obtain ⟨ms, hms⟩ := exec_soloKey_readVault c now wr k ((p.view s).isLockedOut test).2
  refine ⟨(test, none) :: (test, none) :: ms, ?_⟩
  have h1 : soloKey c k (.lockout, p.view s) (test, none)
      = some (.lookup, ((p.view s).isLockedOut test).2) := by
    simp [soloKey, stepKey, hl]
  have h2 : soloKey c k (.lookup, ((p.view s).isLockedOut test).2) (test, none)
      = some (.readVault, ((p.view s).isLockedOut test).2) := by
    simp [soloKey, stepKey, hp, hk]
  rw [Exec.exec_cons, h1, Option.bind_some, Exec.exec_cons, h2, Option.bind_some, hms]
  simp [checkPublicKey, hl, hp, hk]

/-- **Uninterrupted, the steps of a password check are `checkPassword`.** -/
theorem solo_password {c : Crypto K H P} {p : Pool K H P} {i s : Nat} {w : P}
    (hi : p.calls[i]? = some (.password s w .lockout)) (test now : Nat)
    (wr : Option StorageError) :
    ∃ ms p', Exec.exec (step c) p (advances i ms) = some p'
      ∧ p'.calls[i]? = some (.password s w (.done (checkPassword c test now wr w (p.view s)).1))
      ∧ p'.view s = (checkPassword c test now wr w (p.view s)).2 := by
  suffices h : ∃ ms, Exec.exec (soloPassword c w) (.lockout, p.view s) ms
      = some (.done (checkPassword c test now wr w (p.view s)).1,
          (checkPassword c test now wr w (p.view s)).2) by
    obtain ⟨ms, hms⟩ := h
    obtain ⟨p', hp'⟩ := exec_advances advance_soloPassword hi hms
    exact ⟨ms, p', hp'⟩
  by_cases hl : ((p.view s).isLockedOut test).1 = true
  · exact ⟨[(test, none)], by simp [soloPassword, stepPassword, checkPassword, hl]⟩
  · refine ⟨[(test, none), (now, wr), (now, wr)], ?_⟩
    simp [soloPassword, stepPassword, checkPassword, hl]

end Pool

end Steps

end Irosh
