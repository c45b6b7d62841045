import Irosh.Client.Pairing
import Irosh.Proof.VaultSet

/-!
# Pairing with a code

A client that meets a node with a wormhole offers its key, is refused, and asks the user
for the code. The node remembers the key from the refusal to the first password only:
what comes after a mistyped one still opens the session, but there is no key left to be
put into the vault. So three attempts are given and only the first of them pairs.
-/

namespace Irosh

open Client

namespace NodeWorld

variable {K H P T : Type} [DecidableEq K] {side : ClientSide K H P T} {options : ClientOptions P}
  {w : NodeWorld K H P}

/-- What a session is made of an authentication. -/
def sessionOf : Except ConnectError Unit → Except ConnectError Established
  | .ok _ => .ok ⟨.authenticated, true⟩
  | .error e => .error e

theorem eval_openSession (options : ClientOptions P) (w : NodeWorld K H P) :
    (openSession options).eval (answer side) w
      = (sessionOf ((authenticate options).eval (answer side) w).1,
        ((authenticate options).eval (answer side) w).2) := by
  show (sshSession options >>= _).eval (answer side) w = _
  rw [Prog.eval_bind]
  have hsame : (sshSession options).eval (answer side) w = (authenticate options).eval (answer side) w := rfl
  rw [hsame]
  cases ((authenticate options).eval (answer side) w).1 with
  | error e => rfl
  | ok u => rfl

theorem eval_establishSession (options : ClientOptions P) (w : NodeWorld K H P) :
    (establishSession options).eval (answer side) w = (openSession options).eval (answer side) w := by
  show (if options.policy = .acceptAll then openSession options else _).eval (answer side) w = _
  split
  · rfl
  · rfl

/-- **Connecting comes down to authenticating.** -/
theorem connect_eq (options : ClientOptions P) (target : ResolvedTarget T) (w : NodeWorld K H P) :
    connect side options target w
      = (sessionOf ((authenticate options).eval (answer side) w).1,
        ((authenticate options).eval (answer side) w).2) := by
  have hestablish : (establishSession options).eval (answer side) w
      = (sessionOf ((authenticate options).eval (answer side) w).1,
        ((authenticate options).eval (answer side) w).2) :=
    (eval_establishSession options w).trans (eval_openSession options w)
  rw [← hestablish]
  cases target with
  | ticket ticket => rfl
  | wormholeCode code => rfl

/-! ## Passwords -/

/-- A password that is accepted, if the attempt is not turned away. -/
def Accepts (side : ClientSide K H P T) (w : NodeWorld K H P) (password : P) : Prop :=
  w.server.checkPasswordMatch side.crypto password ≠ none

/-- What the user types first is the temporary password of the node, and not its own. -/
def FirstIsCode (side : ClientSide K H P T) (w : NodeWorld K H P) : Prop :=
  ∃ password, w.typed.head? = some password ∧ w.server.checkPasswordMatch side.crypto password = some true

/-- A node that waits for a first pairing. -/
def pairingNode (dir : ClientsDir K) (shadow : Shadow H) (code : H) (typed : List P) (ticks : Nat) :
    NodeWorld K H P :=
  ⟨UnifiedAuthenticator.pairing dir shadow .tofu (some code) false 0, ticks, typed, 0⟩

/-- The node after a password was refused. -/
def refusedOnce (side : ClientSide K H P T) (w : NodeWorld K H P) : NodeWorld K H P :=
  { w with
    server := { w.server with cachedKey := none }.recordFailure (side.time (w.ticks + 1))
    ticks := w.ticks + 2 }

theorem checkPassword_open {password : P} (hopen : w.server.failedAttempts < 3) :
    w.server.checkPassword side.crypto (side.time w.ticks) (side.time (w.ticks + 1)) none password
      = UnifiedAuthenticator.settlePassword side.crypto (side.time (w.ticks + 1)) none
        (w.server.checkPasswordMatch side.crypto password) w.server := by
  have hfree : w.server.isLockedOut (side.time w.ticks) = (false, w.server) := by
    rw [UnifiedAuthenticator.isLockedOut, if_pos hopen]
  rw [UnifiedAuthenticator.checkPassword, hfree]
  exact if_neg Bool.false_ne_true

theorem answer_password {user : List Char} {password : P} (hopen : w.server.failedAttempts < 3) :
    answer side (.authenticatePassword user password : ConnectOp P T) w
      = (let settled := UnifiedAuthenticator.settlePassword side.crypto (side.time (w.ticks + 1)) none
          (w.server.checkPasswordMatch side.crypto password) w.server
        (authAnswer settled.1.result, { w with server := settled.2, ticks := w.ticks + 2 })) := by
  rw [answer, checkPassword_open hopen]
  rfl

theorem answer_password_refused {user : List Char} {password : P} (hopen : w.server.failedAttempts < 3)
    (hwrong : w.server.checkPasswordMatch side.crypto password = none) :
    answer side (.authenticatePassword user password : ConnectOp P T) w
      = (.came .refused, refusedOnce side w) := by
  rw [answer_password hopen, hwrong]
  rfl

/-- A password that is accepted lets the client in. -/
theorem answer_password_accepted {user : List Char} {password : P} (hopen : w.server.failedAttempts < 3)
    (hright : Accepts side w password) :
    (answer side (.authenticatePassword user password : ConnectOp P T) w).1 = .came .success := by
  rw [answer_password hopen]
  dsimp only
  cases hmatch : w.server.checkPasswordMatch side.crypto password with
  | none => exact absurd hmatch hright
  | some temp =>
      cases temp with
      | false => rfl
      | true =>
          unfold UnifiedAuthenticator.settlePassword
          dsimp only
          cases w.server.cachedKey with
          | none => rfl
          | some key =>
              dsimp only
              split <;> rfl

theorem eval_promptPassword {α : Type} (user : List Char) (k : Awaited (Option P) → ConnectProg P T α) :
    (do let prompted : Awaited (Option P) ← (ConnectOp.promptPassword user).perform; k prompted).eval
        (answer side) w
      = (k (answer side (.promptPassword user : ConnectOp P T) w).1).eval (answer side)
        (answer side (.promptPassword user : ConnectOp P T) w).2 := rfl

theorem eval_authenticatePassword {α : Type} (user : List Char) (password : P)
    (k : Awaited AuthResult → ConnectProg P T α) :
    (do let result : Awaited AuthResult ← (ConnectOp.authenticatePassword user password).perform
        k result).eval (answer side) w
      = (k (answer side (.authenticatePassword user password : ConnectOp P T) w).1).eval (answer side)
        (answer side (.authenticatePassword user password : ConnectOp P T) w).2 := rfl

/-- The user has typed a password. -/
def afterPrompt (w : NodeWorld K H P) (rest : List P) : NodeWorld K H P :=
  { w with typed := rest, prompts := w.prompts + 1 }

theorem eval_prompt_nil {n : Nat} (h : w.typed = []) :
    (promptAttempts (n + 1) : ConnectProg P T _).eval (answer side) w
      = (.error .authenticationFailed, { w with prompts := w.prompts + 1 }) := by
  have hans : answer side (.promptPassword defaultUser : ConnectOp P T) w
      = (.came none, { w with prompts := w.prompts + 1 }) := by
    simp only [answer, h]
  unfold promptAttempts
  rw [eval_promptPassword, hans]
  rfl

/-- What an attempt leads to, if so many prompts are left. -/
def afterAttempt (n : Nat) : Awaited AuthResult → ConnectProg P T (Except ConnectError Unit)
  | .came .success => pure (.ok ())
  | .came .refused => promptAttempts n
  | .failed | .elapsed => pure (.error .sshNegotiationFailed)

theorem eval_prompt_cons {n : Nat} {password : P} {rest : List P} (h : w.typed = password :: rest) :
    (promptAttempts (n + 1) : ConnectProg P T _).eval (answer side) w
      = (afterAttempt n (answer side (.authenticatePassword defaultUser password : ConnectOp P T)
            (w.afterPrompt rest)).1).eval (answer side)
        (answer side (.authenticatePassword defaultUser password : ConnectOp P T)
          (w.afterPrompt rest)).2 := by
  have hans : answer side (.promptPassword defaultUser : ConnectOp P T) w
      = (.came (some password), w.afterPrompt rest) := by
    simp only [answer, h]
    rfl
  conv_lhs => unfold promptAttempts
  rw [eval_promptPassword, hans]
  dsimp only
  rw [eval_authenticatePassword]
  rcases (answer side (.authenticatePassword defaultUser password : ConnectOp P T)
    (w.afterPrompt rest)).1 with (_ | _) | _ | _ <;> rfl

/-- A password that is refused leaves one prompt less. -/
theorem eval_prompt_refused {n : Nat} {password : P} {rest : List P} (htyped : w.typed = password :: rest)
    (hopen : w.server.failedAttempts < 3) (hwrong : ¬ Accepts side w password) :
    (promptAttempts (n + 1) : ConnectProg P T _).eval (answer side) w
      = (promptAttempts n : ConnectProg P T _).eval (answer side)
        (refusedOnce side (w.afterPrompt rest)) := by
  have hmatch : w.server.checkPasswordMatch side.crypto password = none := by
    unfold Accepts at hwrong
    simpa using hwrong
  rw [eval_prompt_cons htyped, answer_password_refused (w := w.afterPrompt rest) hopen hmatch]
  rfl

/-- One that is accepted ends them. -/
theorem eval_prompt_accepted {n : Nat} {password : P} {rest : List P} (htyped : w.typed = password :: rest)
    (hopen : w.server.failedAttempts < 3) (hright : Accepts side w password) :
    (promptAttempts (n + 1) : ConnectProg P T _).eval (answer side) w
      = (.ok (), { w.afterPrompt rest with
          server := (UnifiedAuthenticator.settlePassword side.crypto (side.time (w.ticks + 1)) none
            (w.server.checkPasswordMatch side.crypto password) w.server).2
          ticks := w.ticks + 2 }) := by
  rw [eval_prompt_cons htyped, answer_password_accepted (w := w.afterPrompt rest) hopen hright,
    answer_password (w := w.afterPrompt rest) hopen]
  rfl

/-- **Who types a password that is accepted, in time, is let in.** -/
theorem prompts_ok_iff {n : Nat} (hroom : w.server.failedAttempts + n ≤ 3) :
    ((promptAttempts n : ConnectProg P T _).eval (answer side) w).1 = .ok ()
      ↔ ∃ password ∈ w.typed.take n, Accepts side w password := by
  induction n generalizing w with
  | zero =>
      rw [List.take_zero]
      constructor
      · intro h
        cases h
      · rintro ⟨password, hmem, -⟩
        cases hmem
  | succ n ih =>
      cases htyped : w.typed with
      | nil =>
          rw [eval_prompt_nil htyped]
          constructor
          · intro h
            cases h
          · rintro ⟨password, hmem, -⟩
            cases hmem
      | cons password rest =>
          have hopen : w.server.failedAttempts < 3 := by omega
          have hnext : (refusedOnce side (w.afterPrompt rest)).server.failedAttempts + n ≤ 3 := by
            show w.server.failedAttempts + 1 + n ≤ 3
            omega
          rw [List.take_succ_cons]
          by_cases hright : Accepts side w password
          · rw [eval_prompt_accepted htyped hopen hright]
            exact ⟨fun _ => ⟨password, List.mem_cons_self, hright⟩, fun _ => rfl⟩
          · rw [eval_prompt_refused htyped hopen hright, ih hnext]
            constructor
            · rintro ⟨other, hmem, hother⟩
              exact ⟨other, List.mem_cons_of_mem _ hmem, hother⟩
            · rintro ⟨other, hmem, hother⟩
              rcases List.mem_cons.mp hmem with rfl | hmem
              · exact absurd hother hright
              · exact ⟨other, hmem, hother⟩

/-- With no key in the cache, nothing is vaulted. -/
theorem prompts_uncached {n : Nat} (hroom : w.server.failedAttempts + n ≤ 3)
    (hcache : w.server.cachedKey = none) :
    ((promptAttempts n : ConnectProg P T _).eval (answer side) w).2.server.dir = w.server.dir := by
  induction n generalizing w with
  | zero => rfl
  | succ n ih =>
      cases htyped : w.typed with
      | nil => rw [eval_prompt_nil htyped]
      | cons password rest =>
          have hopen : w.server.failedAttempts < 3 := by omega
          have hnext : (refusedOnce side (w.afterPrompt rest)).server.failedAttempts + n ≤ 3 := by
            show w.server.failedAttempts + 1 + n ≤ 3
            omega
          by_cases hright : Accepts side w password
          · rw [eval_prompt_accepted htyped hopen hright]
            dsimp only
            unfold UnifiedAuthenticator.settlePassword
            rw [hcache]
            split <;> rfl
          · rw [eval_prompt_refused htyped hopen hright, ih hnext rfl]
            rfl

/-- **With a key in the cache it is vaulted if the first password is the code.** -/
theorem prompts_cached {n : Nat} {key : K} (hroom : w.server.failedAttempts + (n + 1) ≤ 3)
    (hcache : w.server.cachedKey = some key) (hnew : key ∉ w.server.authorizedKeys) :
    (FirstIsCode side w → ((promptAttempts (n + 1) : ConnectProg P T _).eval (answer side) w).2.server.dir
        = writeAuthorizedClient w.server.dir (side.crypto.fingerprint key) key)
      ∧ (¬ FirstIsCode side w →
        ((promptAttempts (n + 1) : ConnectProg P T _).eval (answer side) w).2.server.dir = w.server.dir) := by
  have hopen : w.server.failedAttempts < 3 := by omega
  constructor
  · rintro ⟨password, hhead, hmatch⟩
    obtain ⟨rest, htyped⟩ : ∃ rest, w.typed = password :: rest := by
      cases htyped : w.typed with
      | nil =>
          rw [htyped] at hhead
          cases hhead
      | cons first rest =>
          rw [htyped] at hhead
          cases hhead
          exact ⟨rest, rfl⟩
    have hright : Accepts side w password := by
      unfold Accepts
      rw [hmatch]
      exact Option.some_ne_none _
    rw [eval_prompt_accepted htyped hopen hright]
    dsimp only
    rw [hmatch]
    unfold UnifiedAuthenticator.settlePassword
    rw [hcache]
    dsimp only
    rw [if_neg hnew]
    rfl
  · intro hfirst
    cases htyped : w.typed with
    | nil => rw [eval_prompt_nil htyped]
    | cons password rest =>
        have hnext : (refusedOnce side (w.afterPrompt rest)).server.failedAttempts + n ≤ 3 := by
          show w.server.failedAttempts + 1 + n ≤ 3
          omega
        have hnot : w.server.checkPasswordMatch side.crypto password ≠ some true :=
          fun hmatch => hfirst ⟨password, by rw [htyped]; rfl, hmatch⟩
        by_cases hright : Accepts side w password
        · rw [eval_prompt_accepted htyped hopen hright]
          dsimp only
          -- it is the node's own password
          rcases hmatch : w.server.checkPasswordMatch side.crypto password with _ | _ | _
          · exact absurd hmatch hright
          · rfl
          · exact absurd hmatch hnot
        · rw [eval_prompt_refused htyped hopen hright, prompts_uncached hnext rfl]
          rfl

/-! ## Keys -/

variable {ks : List K}

omit [DecidableEq K] in
/-- The list of a node whose vault holds these keys, once it has been read again. -/
theorem refreshKeys_vault {a : UnifiedAuthenticator K H} (hv : Vault side.crypto a.dir ks) :
    a.refreshKeys = a.replaceKeys ks := by
  have hread : a.readVault = .ok ks := by
    rw [UnifiedAuthenticator.readVault, hv.load]
    dsimp only
    rw [List.map_map]
    exact congrArg _ (List.map_id ks)
  rw [UnifiedAuthenticator.refreshKeys, hread]

/-- A key that the node does not know yet is remembered until a password comes. -/
theorem checkPublicKey_challenged {test now : Nat} (hopen : w.server.failedAttempts < 3)
    (hpolicy : w.server.policy = .tofu) (hv : Vault side.crypto w.server.dir ks) (hnew : side.key ∉ ks)
    (hlist : side.key ∉ w.server.authorizedKeys) (htemp : w.server.tempPasswordHash.isSome = true) :
    w.server.checkPublicKey side.crypto test now none side.key
      = (.challenged, { w.server with authorizedKeys := ks, cachedKey := some side.key }) := by
  have hfree : w.server.isLockedOut test = (false, w.server) := by
    rw [UnifiedAuthenticator.isLockedOut, if_pos hopen]
  have hstrict : w.server.policy ≠ .strict := by
    rw [hpolicy]
    intro h
    cases h
  have hall : w.server.policy ≠ .acceptAll := by
    rw [hpolicy]
    intro h
    cases h
  rw [UnifiedAuthenticator.checkPublicKey, hfree]
  dsimp only
  rw [if_neg Bool.false_ne_true, if_neg hall, if_neg hlist, refreshKeys_vault hv]
  unfold UnifiedAuthenticator.finalSection
  rw [if_neg (show side.key ∉ (w.server.replaceKeys ks).authorizedKeys from hnew),
    if_neg (show (w.server.replaceKeys ks).policy ≠ .strict from hstrict),
    if_pos (show ((w.server.replaceKeys ks).nodePwExists || (w.server.replaceKeys ks).tempPasswordHash.isSome)
      = true from by
        show (_ || w.server.tempPasswordHash.isSome) = true
        rw [htemp, Bool.or_true])]
  rfl

/-- A node that has an owner takes a key for what the vault says of it. -/
theorem checkPublicKey_owned {test now : Nat} {a : UnifiedAuthenticator K H}
    (hfree : (a.isLockedOut test).1 = false) (hpolicy : a.policy ≠ .acceptAll)
    (hv : Vault side.crypto a.dir ks) (hlist : side.key ∉ a.authorizedKeys)
    (howned : a.policy = .strict ∨ a.nodePwExists = true ∨ ks ≠ []) :
    (a.checkPublicKey side.crypto test now none side.key).1.result = .ok (decide (side.key ∈ ks)) := by
  have hv' : Vault side.crypto (a.isLockedOut test).2.dir ks := by
    rw [UnifiedAuthenticator.isLockedOut_dir]
    exact hv
  have hnode : (a.isLockedOut test).2.nodePwExists = a.nodePwExists := by
    rw [UnifiedAuthenticator.nodePwExists, UnifiedAuthenticator.isLockedOut_shadow]
    rfl
  rw [UnifiedAuthenticator.checkPublicKey]
  dsimp only
  rw [hfree, if_neg Bool.false_ne_true, UnifiedAuthenticator.isLockedOut_policy, if_neg hpolicy,
    UnifiedAuthenticator.isLockedOut_authorizedKeys, if_neg hlist, refreshKeys_vault hv']
  unfold UnifiedAuthenticator.finalSection
  by_cases hmem : side.key ∈ ks
  · rw [if_pos (show side.key ∈ ((a.isLockedOut test).2.replaceKeys ks).authorizedKeys from hmem),
      decide_eq_true hmem]
    rfl
  · rw [if_neg (show side.key ∉ ((a.isLockedOut test).2.replaceKeys ks).authorizedKeys from hmem),
      decide_eq_false hmem]
    split
    · rfl
    · rename_i hstrict
      split
      · rfl
      · rename_i hpassword
        -- neither strict nor with a password: then the vault is not empty
        have hks : ks ≠ [] := by
          rcases howned with h | h | h
          · exact absurd ((UnifiedAuthenticator.isLockedOut_policy test a).trans h) hstrict
          · refine absurd ?_ hpassword
            show ((a.isLockedOut test).2.nodePwExists || _) = true
            rw [hnode, h, Bool.true_or]
          · exact h
        have hempty : ((a.isLockedOut test).2.replaceKeys ks).authorizedKeys.isEmpty = false := by
          show ks.isEmpty = false
          cases ks with
          | nil => exact absurd rfl hks
          | cons k ks => rfl
        rw [hempty]
        rfl

theorem eval_authenticatePublickey {α : Type} (user : List Char)
    (k : Awaited AuthResult → ConnectProg P T α) :
    (do let result : Awaited AuthResult ← (ConnectOp.authenticatePublickey user).perform; k result).eval
        (answer side) w
      = (k (answer side (.authenticatePublickey user : ConnectOp P T) w).1).eval (answer side)
        (answer side (.authenticatePublickey user : ConnectOp P T) w).2 := rfl

/-- Where the client has nothing but its key, that decides. -/
theorem eval_authenticate_key {known : Bool} (hcreds : options.credentials = none)
    (hprompter : options.prompter = false)
    (hresult : (w.server.checkPublicKey side.crypto (side.time w.ticks) (side.time (w.ticks + 1)) none
      side.key).1.result = .ok known) :
    ((authenticate options : ConnectProg P T _).eval (answer side) w).1
      = if known = true then .ok () else .error .authenticationFailed := by
  have hans : (answer side (.authenticatePublickey defaultUser : ConnectOp P T) w).1
      = authAnswer (.ok known) := congrArg authAnswer hresult
  rw [authenticate, eval_authenticatePublickey, hans]
  cases known with
  | true => rfl
  | false =>
      show ((passwordAuth options).eval (answer side) _).1 = _
      unfold passwordAuth
      rw [hcreds]
      dsimp only
      rw [hprompter]
      rfl

/-- The node when it has seen the key. -/
def challenged (side : ClientSide K H P T) (ks : List K) (w : NodeWorld K H P) : NodeWorld K H P :=
  { w with
    server := { w.server with authorizedKeys := ks, cachedKey := some side.key }
    ticks := w.ticks + 2 }

/-- A client that pairs: its key is remembered, and then the passwords come. -/
theorem eval_authenticate_pairing {dir : ClientsDir K} {shadow : Shadow H} {code : H} {typed : List P}
    {ticks : Nat} (hv : Vault side.crypto dir ks) (hnew : side.key ∉ ks) (hcreds : options.credentials = none)
    (hprompter : options.prompter = true) :
    (authenticate options : ConnectProg P T _).eval (answer side) (pairingNode dir shadow code typed ticks)
      = (promptAttempts 3 : ConnectProg P T _).eval (answer side)
        ((pairingNode dir shadow code typed ticks).challenged side ks) := by
  have hlist : (pairingNode dir shadow code typed ticks).server.authorizedKeys = ks := by
    unfold pairingNode UnifiedAuthenticator.pairing UnifiedAuthenticator.withTracking
    rw [hv.load]
    dsimp only
    rw [List.map_map]
    exact List.map_id ks
  have hcheck : (pairingNode dir shadow code typed ticks).server.checkPublicKey side.crypto (side.time ticks)
      (side.time (ticks + 1)) none side.key
        = (.challenged, { (pairingNode dir shadow code typed ticks).server with
            authorizedKeys := ks, cachedKey := some side.key }) :=
    checkPublicKey_challenged (by decide : (0 : Nat) < 3) rfl hv hnew (by rw [hlist]; exact hnew) rfl
  have hans : answer side (.authenticatePublickey defaultUser : ConnectOp P T)
      (pairingNode dir shadow code typed ticks)
      = (.came .refused, (pairingNode dir shadow code typed ticks).challenged side ks) := by
    simp only [answer]
    rw [show (pairingNode dir shadow code typed ticks).ticks = ticks from rfl, hcheck]
    rfl
  rw [authenticate, eval_authenticatePublickey, hans]
  dsimp only
  rw [passwordAuth, hcreds]
  dsimp only
  rw [if_pos hprompter]

theorem sessionOf_ok_iff {result : Except ConnectError Unit} :
    sessionOf result = .ok ⟨.authenticated, true⟩ ↔ result = .ok () := by
  cases result with
  | error e =>
      constructor
      · intro h
        cases h
      · intro h
        cases h
  | ok u => exact ⟨fun _ => rfl, fun _ => rfl⟩

end NodeWorld

namespace Proof

open NodeWorld

/-- **Pairing takes the first password.** -/
theorem pairing_takes_first_password {K H P T : Type} [DecidableEq K] {side : ClientSide K H P T}
    {hash : K → List UInt8} (hdigests : side.crypto.Digests hash) {dir : ClientsDir K} {ks : List K}
    (hv : Vault side.crypto dir ks) (hnew : side.key ∉ ks) (shadow : Shadow H) (code : H)
    {options : ClientOptions P} (hcreds : options.credentials = none) (hprompter : options.prompter = true)
    (typed : List P) (ticks : Nat) (wormhole : List Char) :
    -- a session takes one of three passwords that the node accepts
    ((NodeWorld.connect side options (.wormholeCode wormhole) (pairingNode dir shadow code typed ticks)).1
        = .ok ⟨.authenticated, true⟩
      ↔ ∃ password ∈ typed.take 3, Accepts side (pairingNode dir shadow code typed ticks) password)
    -- the vault takes the key if the first of them is the code
    ∧ (∃ ks', Vault side.crypto
        (NodeWorld.connect side options (.wormholeCode wormhole)
          (pairingNode dir shadow code typed ticks)).2.server.dir
        ks' ∧ ∀ k, k ∈ ks' ↔ k ∈ ks ∨ k = side.key
          ∧ FirstIsCode side (pairingNode dir shadow code typed ticks))
    -- and then, and only then, the key alone is enough next time
    ∧ ∀ (next : NodeWorld K H P) (keyOnly : ClientOptions P) (target : ResolvedTarget T),
        next.server.dir = (NodeWorld.connect side options (.wormholeCode wormhole)
          (pairingNode dir shadow code typed ticks)).2.server.dir →
        (next.server.isLockedOut (side.time next.ticks)).1 = false → next.server.policy ≠ .acceptAll →
        side.key ∉ next.server.authorizedKeys →
        next.server.policy = .strict ∨ next.server.nodePwExists = true ∨ ks ≠ [] →
        keyOnly.credentials = none → keyOnly.prompter = false →
        ((NodeWorld.connect side keyOnly target next).1 = .ok ⟨.authenticated, true⟩
          ↔ FirstIsCode side (pairingNode dir shadow code typed ticks)) := by
  have hauth : (authenticate options : ConnectProg P T _).eval (NodeWorld.answer side)
      (pairingNode dir shadow code typed ticks)
        = (promptAttempts 3 : ConnectProg P T _).eval (NodeWorld.answer side)
          ((pairingNode dir shadow code typed ticks).challenged side ks) :=
    eval_authenticate_pairing hv hnew hcreds hprompter
  obtain ⟨written, hwritten, hmem⟩ := hv.write hdigests side.key
  obtain ⟨hpaired, hunpaired⟩ := @prompts_cached _ _ _ T _ side
    ((pairingNode dir shadow code typed ticks).challenged side ks) 2 side.key
      (by decide : 0 + (2 + 1) ≤ 3) rfl hnew
  have hvault : ∃ ks', Vault side.crypto (NodeWorld.connect side options (.wormholeCode wormhole)
      (pairingNode dir shadow code typed ticks)).2.server.dir ks'
      ∧ ∀ k, k ∈ ks' ↔ k ∈ ks ∨ k = side.key
        ∧ FirstIsCode side (pairingNode dir shadow code typed ticks) := by
    rw [connect_eq, hauth]
    by_cases hfirst : FirstIsCode side (pairingNode dir shadow code typed ticks)
    · refine ⟨written, (hpaired hfirst).symm ▸ hwritten, fun k => ?_⟩
      rw [hmem, or_comm]
      simp [hfirst]
    · refine ⟨ks, (hunpaired hfirst).symm ▸ hv,
        fun k => ⟨.inl, fun h => h.elim id fun h => absurd h.2 hfirst⟩⟩
  refine ⟨?_, hvault, ?_⟩
  · rw [connect_eq, hauth]
    exact sessionOf_ok_iff.trans (@prompts_ok_iff _ _ _ _ _ side
      ((pairingNode dir shadow code typed ticks).challenged side ks) 3 (by decide : 0 + 3 ≤ 3))
  · intro next keyOnly target hsame hfree hpolicy hlist howned hcreds' hprompter'
    obtain ⟨ks', hv', hmem'⟩ := hvault
    rw [← hsame] at hv'
    have howned' : next.server.policy = .strict ∨ next.server.nodePwExists = true ∨ ks' ≠ [] := by
      rcases howned with h | h | h
      · exact .inl h
      · exact .inr (.inl h)
      · obtain ⟨k, rest, hks⟩ := List.exists_cons_of_ne_nil h
        refine .inr (.inr (List.ne_nil_of_mem ((hmem' k).mpr (.inl ?_))))
        rw [hks]
        exact List.mem_cons_self
    have hresult :
        (next.server.checkPublicKey side.crypto (side.time next.ticks) (side.time (next.ticks + 1)) none
        side.key).1.result = .ok (decide (side.key ∈ ks')) :=
      checkPublicKey_owned hfree hpolicy hv' hlist howned'
    rw [connect_eq, sessionOf_ok_iff, eval_authenticate_key hcreds' hprompter' hresult]
    have hkey : side.key ∈ ks' ↔ FirstIsCode side (pairingNode dir shadow code typed ticks) := by
      rw [hmem']
      exact ⟨fun h => h.elim (fun h => absurd h hnew) And.right, fun h => .inr ⟨rfl, h⟩⟩
    rw [← hkey]
    by_cases hin : side.key ∈ ks'
    · simp [hin]
    · simp [hin]

/-- A client whose digests are its keys, and passwords that are compared as they are. -/
def plainSide : ClientSide (List UInt8) Nat Nat Unit where
  crypto := ⟨Base64.encode, fun password hash => password == hash⟩
  key := [1]
  time := fun n => n
  ticket := ()

/-- The code is 7. Typed at the second prompt it opens the session, but the key alone is refused next
time. -/
theorem pairing_takes_first_password_mistyped :
    (NodeWorld.connect plainSide ⟨.tofu, none, none, true⟩ (.wormholeCode ['x'])
        (pairingNode .empty .missing 7 [3, 7] 0)).1 = .ok ⟨.authenticated, true⟩
      ∧ (NodeWorld.connect plainSide ⟨.tofu, none, none, false⟩ (.ticket ())
          ⟨.new (NodeWorld.connect plainSide ⟨.tofu, none, none, true⟩ (.wormholeCode ['x'])
            (pairingNode .empty .missing 7 [3, 7] 0)).2.server.dir .missing .strict [] none, 0, [], 0⟩).1
        ≠ .ok ⟨.authenticated, true⟩ := by
  have hdigests : plainSide.crypto.Digests id := ⟨fun _ => rfl, Function.injective_id⟩
  have hempty : Vault plainSide.crypto .empty [] := ⟨rfl, fun _ => rfl, rfl, List.nodup_nil⟩
  have hfirst : ¬ FirstIsCode plainSide (pairingNode .empty .missing 7 [3, 7] 0) := by
    rintro ⟨password, hhead, hmatch⟩
    cases hhead
    cases hmatch
  obtain ⟨hsession, -, hnext⟩ := @pairing_takes_first_password _ _ _ _ _ plainSide _ hdigests _ _ hempty
    List.not_mem_nil .missing 7 ⟨.tofu, none, none, true⟩ rfl rfl [3, 7] 0 ['x']
  constructor
  · exact hsession.mpr ⟨7, by simp, Option.some_ne_none true⟩
  · intro hlater
    refine hfirst
      ((hnext ⟨.new _ .missing .strict [] none, 0, [], 0⟩ ⟨.tofu, none, none, false⟩ (.ticket ()) rfl
      rfl ?_ List.not_mem_nil (.inl rfl) rfl rfl).mp hlater)
    intro h
    cases h

end Proof

end Irosh
