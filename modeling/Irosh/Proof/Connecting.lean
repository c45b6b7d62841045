import Irosh.Client.Connect

/-!
# What connecting leaves open, and what it offers

Two views of a call to `connect`, both whatever the surroundings answer. The first
follows the endpoints and the connections: a session comes with all it needs, and a
failure closes what was opened, unless the client's own state directory cannot be read
when both connections are up already. The second follows the attempts to authenticate.
-/

namespace Irosh

open Client

/-! ## Endpoints and connections -/

/-- What is open. -/
structure Opened where
  discovery : Bool
  endpoint : Bool
  connection : Bool
  blobs : Bool
  /-- Both connections have been made, whether they are still open or not. -/
  dialled : Bool
  deriving DecidableEq

namespace Opened

variable {P T : Type}

def closed (dialled : Bool) : Opened := ⟨false, false, false, false, dialled⟩

def discovering : Opened := ⟨true, false, false, false, false⟩

/-- The endpoint that talks to the peer, alone. -/
def bound : Opened := ⟨false, true, false, false, false⟩

def reached : Opened := ⟨false, true, true, false, false⟩

def all : Opened := ⟨false, true, true, true, true⟩

/-- An operation and its answer. With an endpoint its connections are closed. -/
def next (g : Opened) : (o : ConnectOp P T) → o.Answer → Opened
  | .bind .discovery, bound => { g with discovery := (bound : Bool) }
  | .bind .session, bound => { g with endpoint := (bound : Bool) }
  | .closeEndpoint .discovery, _ => { g with discovery := false }
  | .closeEndpoint .session, _ => { g with endpoint := false, connection := false, blobs := false }
  | .connect _ .blobs, reached =>
      match (reached : Awaited Unit) with
      | .came _ => { g with blobs := true, dialled := true }
      | .failed | .elapsed => g
  | .connect _ _, reached =>
      match (reached : Awaited Unit) with
      | .came _ => { g with connection := true }
      | .failed | .elapsed => g
  | .closeConnection, _ => { g with connection := false }
  | _, _ => g

/-- What needs what: nothing is bound or connected twice, nothing is closed that is not open, and the
session is made over both connections. -/
def Ok (g : Opened) : ConnectOp P T → Prop
  | .loadBlobs | .bind _ => g = closed false
  | .loadIdentity => g = closed false ∨ g = all
  | .listenForTicket _ | .closeEndpoint .discovery => g = discovering
  | .closeEndpoint .session => g.endpoint = true
  | .connect _ .blobs => g = reached
  | .connect _ _ => g = bound
  | .closeConnection => g.connection = true
  | .loadKnownServer | .openBi | .connectStream | .authenticatePublickey _ | .authenticatePassword _ _
  | .promptPassword _ | .metadata => g = all

end Opened

section

variable {P T α : Type} {options : ClientOptions P} {g : Opened} {R : α → Opened → Prop}

abbrev LeavesOpen (R : α → Opened → Prop) (g : Opened) (p : ConnectProg P T α) : Prop :=
  p.Tracks Opened.next Opened.Ok R g

/-- Going on with nothing changed. -/
theorem LeavesOpen.then {β : Type} {S : β → Opened → Prop} {p : ConnectProg P T α} {k : α → ConnectProg P T β}
    (h : LeavesOpen (fun _ g' => g' = g) g p) (hk : ∀ a, LeavesOpen S g (k a)) :
      LeavesOpen S g (p >>= k) := by
  refine Prog.Tracks.bind h fun a g' hg => ?_
  rw [hg]
  exact hk a

/-- A file of the client could not be read. -/
def ConnectError.OwnFiles (e : ConnectError) : Prop := e = .identity ∨ e = .knownServer

/-- Everything stays open, and the client's own files have nothing to do with a failure. -/
def StaysOpen (result : Except ConnectError Unit) (g : Opened) : Prop :=
  g = .all ∧ ∀ e, result = .error e → ¬ e.OwnFiles

theorem staysOpen_ok : StaysOpen (.ok ()) .all := ⟨rfl, fun _ h => by cases h⟩

theorem staysOpen_error {e : ConnectError} (he : ¬ e.OwnFiles) : StaysOpen (.error e) .all :=
  ⟨rfl, fun _ h => Except.error.inj h ▸ he⟩

theorem not_ownFiles_negotiation : ¬ ConnectError.sshNegotiationFailed.OwnFiles := by
  rintro (h | h) <;> cases h

theorem not_ownFiles_authentication : ¬ ConnectError.authenticationFailed.OwnFiles := by
  rintro (h | h) <;> cases h

theorem leavesOpen_promptAttempts (n : Nat) :
    LeavesOpen StaysOpen .all (promptAttempts n : ConnectProg P T _) := by
  induction n with
  | zero => exact staysOpen_error not_ownFiles_authentication
  | succ n ih =>
      unfold promptAttempts
      refine ⟨rfl, ?_⟩
      intro (prompted : Awaited (Option P))
      rcases prompted with (_ | password) | _ | _
      · exact staysOpen_error not_ownFiles_authentication
      · refine ⟨rfl, ?_⟩
        intro (result : Awaited AuthResult)
        rcases result with (_ | _) | _ | _
        · exact staysOpen_ok
        · exact ih
        · exact staysOpen_error not_ownFiles_negotiation
        · exact staysOpen_error not_ownFiles_negotiation
      · exact staysOpen_error not_ownFiles_authentication
      · exact staysOpen_error not_ownFiles_negotiation

theorem leavesOpen_passwordAuth (options : ClientOptions P) :
    LeavesOpen StaysOpen .all (passwordAuth options : ConnectProg P T _) := by
  unfold passwordAuth
  cases options.credentials with
  | some credentials =>
      obtain ⟨user, password⟩ := credentials
      refine ⟨rfl, ?_⟩
      intro (result : Awaited AuthResult)
      rcases result with (_ | _) | _ | _
      · exact staysOpen_ok
      · exact staysOpen_error not_ownFiles_authentication
      · exact staysOpen_error not_ownFiles_negotiation
      · exact staysOpen_error not_ownFiles_negotiation
  | none =>
      dsimp only
      split
      · exact leavesOpen_promptAttempts 3
      · exact staysOpen_error not_ownFiles_authentication

theorem leavesOpen_sshSession (options : ClientOptions P) :
    LeavesOpen StaysOpen .all (sshSession options : ConnectProg P T _) := by
  refine ⟨rfl, ?_⟩
  intro (shaken : Option (Except HandshakeError Unit))
  rcases shaken with _ | (_ | _ | _) | _
  · exact staysOpen_error not_ownFiles_negotiation
  · exact staysOpen_error (by rintro (h | h) <;> cases h)
  · exact staysOpen_error not_ownFiles_negotiation
  · exact staysOpen_error (by rintro (h | h) <;> cases h)
  · refine ⟨rfl, ?_⟩
    intro (result : Awaited AuthResult)
    rcases result with (_ | _) | _ | _
    · exact staysOpen_ok
    · exact leavesOpen_passwordAuth options
    · exact staysOpen_error not_ownFiles_negotiation
    · exact staysOpen_error not_ownFiles_negotiation

/-- How a call leaves things: a session has everything, and a failure has closed everything, unless a
file of the client could not be read when both connections were there. -/
def Settled (result : Except ConnectError Established) (g : Opened) : Prop :=
  match result with
  | .ok session => g = .all ∧ session.state = .authenticated
  | .error e =>
      (g.dialled = true ∧ e.OwnFiles → g = .all)
        ∧ (¬ (g.dialled = true ∧ e.OwnFiles) → g = .closed g.dialled)

theorem settled_closed {e : ConnectError} (he : ¬ e.OwnFiles) (dialled : Bool) :
    Settled (.error e) (.closed dialled) :=
  ⟨fun h => absurd h.2 he, fun _ => rfl⟩

theorem settled_undialled (e : ConnectError) : Settled (.error e) (.closed false) :=
  ⟨fun h => Bool.noConfusion h.1, fun _ => rfl⟩

theorem settled_ownFiles {e : ConnectError} (he : e.OwnFiles) : Settled (.error e) .all :=
  ⟨fun _ => rfl, fun h => absurd ⟨rfl, he⟩ h⟩

theorem leavesOpen_openSession (options : ClientOptions P) :
    LeavesOpen Settled .all (openSession options : ConnectProg P T _) := by
  unfold openSession
  refine ⟨rfl, ?_⟩
  intro (opened : Bool)
  cases opened with
  | false => exact ⟨rfl, fun _ => settled_closed (by rintro (h | h) <;> cases h) true⟩
  | true =>
      show LeavesOpen Settled Opened.all (sshSession options >>= _)
      refine Prog.Tracks.bind (leavesOpen_sshSession options) fun result g' hg => ?_
      obtain ⟨rfl, hforeign⟩ := hg
      cases result with
      | error e => exact ⟨rfl, fun _ => ⟨rfl, fun _ => settled_closed (hforeign e rfl) true⟩⟩
      | ok u => exact ⟨rfl, fun _ => ⟨rfl, rfl⟩⟩

theorem leavesOpen_establishSession (options : ClientOptions P) :
    LeavesOpen Settled .all (establishSession options : ConnectProg P T _) := by
  refine ⟨.inr rfl, ?_⟩
  intro (identity : Bool)
  cases identity with
  | false => exact settled_ownFiles (.inl rfl)
  | true =>
      show LeavesOpen Settled Opened.all (if options.policy = .acceptAll then _ else _)
      split
      · exact leavesOpen_openSession options
      · refine ⟨rfl, ?_⟩
        intro (known : Bool)
        cases known with
        | false => exact settled_ownFiles (.inr rfl)
        | true => exact leavesOpen_openSession options

/-- How dialling leaves things. -/
def Dialled (result : Except ConnectError Unit) (g : Opened) : Prop :=
  match result with
  | .ok _ => g = .all
  | .error _ => g = .closed false

theorem leavesOpen_dialAttempts (ticket : T) {alpn : Alpn} (halpn : alpn ≠ .blobs) (n : Nat) :
    LeavesOpen Dialled .bound (dialAttempts ticket alpn n : ConnectProg P T _) := by
  have hok : (Opened.bound).Ok (.connect ticket alpn : ConnectOp P T) := by
    cases alpn with
    | blobs => exact absurd rfl halpn
    | pairing => exact rfl
    | derived secret => exact rfl
  induction n with
  | zero => exact ⟨rfl, fun _ => rfl⟩
  | succ n ih =>
      unfold dialAttempts
      refine ⟨hok, ?_⟩
      intro (reached : Awaited Unit)
      have hreached : ∀ u, Opened.bound.next (.connect ticket alpn : ConnectOp P T) (.came u)
          = .reached := by
        intro u
        cases alpn with
        | blobs => exact absurd rfl halpn
        | pairing => exact rfl
        | derived secret => exact rfl
      have hmissed : ∀ missed : Awaited Unit, (∀ u, missed ≠ .came u) →
          Opened.bound.next (.connect ticket alpn : ConnectOp P T) missed = .bound := by
        intro missed hmissed
        rcases missed with u | _ | _
        · exact absurd rfl (hmissed u)
        · cases alpn <;> rfl
        · cases alpn <;> rfl
      rcases reached with u | _ | _
      · rw [hreached]
        refine ⟨rfl, ?_⟩
        intro (blobs : Awaited Unit)
        rcases blobs with u | _ | _
        · exact rfl
        · exact ⟨rfl, fun _ => ⟨rfl, fun _ => rfl⟩⟩
        · exact ⟨rfl, fun _ => ⟨rfl, fun _ => rfl⟩⟩
      · rw [hmissed .failed (by intro u h; cases h)]
        exact ih
      · rw [hmissed .elapsed (by intro u h; cases h)]
        exact ih

theorem leavesOpen_dialP2p (options : ClientOptions P) (ticket : T) (isPairing : Bool) :
    LeavesOpen Dialled (.closed false) (dialP2p options ticket isPairing) := by
  refine ⟨rfl, ?_⟩
  intro (blobs : Bool)
  cases blobs with
  | false => exact rfl
  | true =>
      refine ⟨.inl rfl, ?_⟩
      intro (identity : Bool)
      cases identity with
      | false => exact rfl
      | true =>
          refine ⟨rfl, ?_⟩
          intro (bound : Bool)
          cases bound with
          | false => exact rfl
          | true => exact leavesOpen_dialAttempts ticket (by cases isPairing <;> simp) 3

theorem leavesOpen_dialAndEstablish (options : ClientOptions P) (ticket : T) (isPairing : Bool) :
    LeavesOpen Settled (.closed false) (dialAndEstablish options ticket isPairing) := by
  refine Prog.Tracks.bind (leavesOpen_dialP2p options ticket isPairing) fun result g' hg => ?_
  cases result with
  | error e =>
      rw [show g' = .closed false from hg]
      exact settled_undialled e
  | ok u =>
      rw [show g' = .all from hg]
      exact leavesOpen_establishSession options

theorem leavesOpen_connectWormhole (code : List Char) :
    LeavesOpen (fun _ g' => g' = .closed false) (.closed false)
      (connectWormhole code : ConnectProg P T _) := by
  refine ⟨.inl rfl, ?_⟩
  intro (identity : Bool)
  cases identity with
  | false => exact rfl
  | true =>
      refine ⟨rfl, ?_⟩
      intro (bound : Bool)
      cases bound with
      | false => exact rfl
      | true => exact ⟨rfl, fun _ => ⟨rfl, fun _ => rfl⟩⟩

end

/-! ## Attempts to authenticate -/

/-- What is offered to the server. -/
inductive AuthAttempt (P : Type) where
  | key
  | password (user : List Char) (password : P)
  deriving DecidableEq

/-- What has been offered with what answer, and the passwords that the user has given. -/
structure Attempts (P : Type) where
  tried : List (AuthAttempt P × Awaited AuthResult)
  prompted : List P
  /-- A prompt has come back with nothing. -/
  declined : Bool

namespace Attempts

variable {P T : Type}

def none : Attempts P := ⟨[], [], false⟩

def next (g : Attempts P) : (o : ConnectOp P T) → o.Answer → Attempts P
  | .authenticatePublickey _, result => { g with tried := g.tried ++ [(.key, result)] }
  | .authenticatePassword user password, result =>
      { g with tried := g.tried ++ [(.password user password, result)] }
  | .promptPassword _, prompted =>
      match (prompted : Awaited (Option P)) with
      | .came (some password) => { g with prompted := g.prompted ++ [password] }
      | .came Option.none | .failed => { g with declined := true }
      | .elapsed => g
  | _, _ => g

/-- Every attempt was refused. -/
def Refused (g : Attempts P) : Prop := ∀ attempt ∈ g.tried, attempt.2 = .came .refused

/-- The passwords among the attempts. -/
def passwords (g : Attempts P) : List P :=
  g.tried.filterMap fun attempt =>
    match attempt.1 with
    | .key => Option.none
    | .password _ password => some password

/-- Another attempt only after all before have been refused: the key first, then the credentials once,
or what the user is prompted for, each password when it is given and three at most. -/
def Ok (options : ClientOptions P) (g : Attempts P) : ConnectOp P T → Prop
  | .authenticatePublickey user => user = defaultUser ∧ g = none
  | .authenticatePassword user password =>
      g.Refused ∧ (options.credentials = some (user, password) ∧ g.tried.length = 1
        ∨ options.credentials = Option.none ∧ options.prompter = true ∧ user = defaultUser
          ∧ g.prompted = g.passwords ++ [password] ∧ g.passwords.length < 3)
  | .promptPassword user =>
      g.Refused ∧ options.credentials = Option.none ∧ options.prompter = true ∧ user = defaultUser
        ∧ g.prompted = g.passwords ∧ g.passwords.length < 3 ∧ g.tried ≠ [] ∧ g.declined = false
  | _ => True

/-- Who is let in has been let in by the last attempt, and whose authentication has failed has used
up what there is. -/
def Ends {α : Type} (options : ClientOptions P) (result : Except ConnectError α) (g : Attempts P) : Prop :=
  match result with
  | .ok _ => ∃ before last, g.tried = before ++ [(last, .came .success)]
      ∧ ∀ attempt ∈ before, attempt.2 = .came .refused
  | .error e => (∀ attempt ∈ g.tried, attempt.2 ≠ .came .success)
      ∧ (e = .authenticationFailed → g.Refused
        ∧ (options.credentials.isSome → g.tried.length = 2)
        ∧ (options.credentials = Option.none → options.prompter = false → g.tried.length = 1)
        ∧ (options.credentials = Option.none → options.prompter = true →
            g.passwords.length = 3 ∨ g.declined = true))

end Attempts

section

variable {P T α : Type} {options : ClientOptions P} {g : Attempts P} {R : α → Attempts P → Prop}

abbrev Offers (options : ClientOptions P) (R : α → Attempts P → Prop) (g : Attempts P)
    (p : ConnectProg P T α) : Prop :=
  p.Tracks Attempts.next (Attempts.Ok options) R g

theorem passwords_snoc (tried : List (AuthAttempt P × Awaited AuthResult)) (prompted : List P)
    (declined : Bool) (user : List Char) (password : P) (result : Awaited AuthResult) :
    Attempts.passwords ⟨tried ++ [(.password user password, result)], prompted, declined⟩
      = Attempts.passwords ⟨tried, prompted, declined⟩ ++ [password] := by
  simp [Attempts.passwords]

/-- One more attempt. -/
theorem ends_ok (hrefused : g.Refused) (last : AuthAttempt P) :
    Attempts.Ends options (.ok () : Except ConnectError Unit)
      { g with tried := g.tried ++ [(last, .came .success)] } :=
  ⟨g.tried, last, rfl, hrefused⟩

theorem ends_broken (hrefused : g.Refused) (last : AuthAttempt P) {result : Awaited AuthResult}
    (hresult : result ≠ .came .success) {e : ConnectError} (he : e ≠ .authenticationFailed) :
    Attempts.Ends options (.error e : Except ConnectError Unit)
      { g with tried := g.tried ++ [(last, result)] } := by
  refine ⟨?_, fun h => absurd h he⟩
  intro attempt hmem
  rcases List.mem_append.mp hmem with hold | hnew
  · rw [hrefused attempt hold]
    intro h
    cases h
  · rw [List.mem_singleton.mp hnew]
    exact hresult

theorem Attempts.Refused.snoc (hrefused : g.Refused) (last : AuthAttempt P) :
    Attempts.Refused { g with tried := g.tried ++ [(last, .came .refused)] } := by
  intro attempt hmem
  rcases List.mem_append.mp hmem with hold | hnew
  · exact hrefused attempt hold
  · rw [List.mem_singleton.mp hnew]

theorem Attempts.Refused.no_success (hrefused : g.Refused) :
    ∀ attempt ∈ g.tried, attempt.2 ≠ .came .success := by
  intro attempt hmem
  rw [hrefused attempt hmem]
  intro h
  cases h

/-- The prompts that are left, after so many passwords have been refused. -/
theorem offers_promptAttempts (hcreds : options.credentials = none) (hprompter : options.prompter = true)
    {n : Nat} (hn : g.passwords.length + n = 3) (hrefused : g.Refused) (hprompted : g.prompted = g.passwords)
    (htried : g.tried ≠ []) (hdeclined : g.declined = false) :
    Offers options (Attempts.Ends options) g (promptAttempts n : ConnectProg P T _) := by
  induction n generalizing g with
  | zero =>
      refine ⟨hrefused.no_success, fun _ => ⟨hrefused, ?_, ?_, fun _ _ => .inl hn⟩⟩
      · rw [hcreds]
        intro h
        cases h
      · rw [hprompter]
        intro _ h
        cases h
  | succ n ih =>
      have hless : g.passwords.length < 3 := by omega
      -- nothing comes of a prompt
      have hnothing : Attempts.Ends options (.error .authenticationFailed : Except ConnectError Unit)
          { g with declined := true } := by
        refine ⟨hrefused.no_success, fun _ => ⟨hrefused, ?_, ?_, fun _ _ => .inr rfl⟩⟩
        · rw [hcreds]
          intro h
          cases h
        · rw [hprompter]
          intro _ h
          cases h
      unfold promptAttempts
      refine ⟨⟨hrefused, hcreds, hprompter, rfl, hprompted, hless, htried, hdeclined⟩, ?_⟩
      intro (prompted : Awaited (Option P))
      rcases prompted with (_ | password) | _ | _
      · exact hnothing
      · refine ⟨⟨hrefused, .inr ⟨hcreds, hprompter, rfl, ?_, hless⟩⟩, ?_⟩
        · show g.prompted ++ [password] = g.passwords ++ [password]
          rw [hprompted]
        · intro (result : Awaited AuthResult)
          have hstep : Attempts.passwords ⟨g.tried ++ [(.password defaultUser password, result)],
              g.prompted ++ [password], g.declined⟩ = g.passwords ++ [password] :=
            passwords_snoc _ _ _ _ _ _
          have hbroken : ∀ broken : Awaited AuthResult, broken ≠ .came .success →
              Attempts.Ends options (.error .sshNegotiationFailed : Except ConnectError Unit)
                ⟨g.tried ++ [(.password defaultUser password, broken)], g.prompted ++ [password],
                  g.declined⟩ := by
            intro broken hne
            refine ⟨?_, fun h => by cases h⟩
            have hnegotiation : (.sshNegotiationFailed : ConnectError) ≠ .authenticationFailed := by simp
            exact (@ends_broken _ options _ hrefused (.password defaultUser password) _ hne _ hnegotiation).1
          rcases result with (_ | _) | _ | _
          · exact ⟨g.tried, _, rfl, hrefused⟩
          · refine @ih ⟨g.tried ++ [(.password defaultUser password, .came .refused)],
              g.prompted ++ [password], g.declined⟩ ?_ ?_ ?_ (by simp) hdeclined
            · rw [hstep, List.length_append, List.length_singleton]
              omega
            · exact Attempts.Refused.snoc (g := g) hrefused _
            · rw [hstep, ← hprompted]
          · exact hbroken .failed (by simp)
          · exact hbroken .elapsed (by simp)
      · exact hnothing
      · exact ⟨hrefused.no_success, fun h => by cases h⟩

theorem offers_authenticate (options : ClientOptions P) :
    Offers options (Attempts.Ends options) .none (authenticate options : ConnectProg P T _) := by
  have hnone : (Attempts.none : Attempts P).Refused := fun attempt hmem => by cases hmem
  unfold authenticate
  refine ⟨⟨rfl, rfl⟩, ?_⟩
  intro (result : Awaited AuthResult)
  rcases result with (_ | _) | _ | _
  · exact ends_ok hnone .key
  · -- the key was refused
    have hrefused : (⟨[(.key, .came .refused)], [], false⟩ : Attempts P).Refused := hnone.snoc .key
    show Offers options (Attempts.Ends options) ⟨[(.key, .came .refused)], [], false⟩ (passwordAuth options)
    unfold passwordAuth
    cases hcreds : options.credentials with
    | some credentials =>
        obtain ⟨user, password⟩ := credentials
        refine ⟨⟨hrefused, .inl ⟨hcreds, rfl⟩⟩, ?_⟩
        intro (result : Awaited AuthResult)
        rcases result with (_ | _) | _ | _
        · exact ends_ok hrefused (.password user password)
        · have hboth := hrefused.snoc (.password user password)
          refine ⟨hboth.no_success, fun _ => ⟨hboth, fun _ => rfl, ?_, ?_⟩⟩
          · rw [hcreds]
            intro h
            cases h
          · rw [hcreds]
            intro h
            cases h
        · exact ends_broken hrefused (.password user password) (by simp) (by simp)
        · exact ends_broken hrefused (.password user password) (by simp) (by simp)
    | none =>
        dsimp only
        split
        · rename_i hprompter
          exact offers_promptAttempts hcreds hprompter rfl hrefused rfl (by simp) rfl
        · rename_i hprompter
          refine ⟨hrefused.no_success, fun _ => ⟨hrefused, ?_, fun _ _ => rfl, ?_⟩⟩
          · rw [hcreds]
            intro h
            cases h
          · intro _ h
            exact absurd h hprompter
  · exact ends_broken hnone .key (by simp) (by simp)
  · exact ends_broken hnone .key (by simp) (by simp)

/-- What has nothing to do with authentication. -/
def ConnectOp.Quiet : ConnectOp P T → Prop
  | .authenticatePublickey _ | .authenticatePassword _ _ | .promptPassword _ => False
  | _ => True

/-- A failure that is not one to authenticate. -/
def Unasked {β : Type} (result : Except ConnectError β) : Prop := result ≠ .error .authenticationFailed

theorem offers_quiet {Q : α → Prop} {p : ConnectProg P T α} (hp : p.Ensures ConnectOp.Quiet Q) :
    Offers options (fun a g' => Q a ∧ g' = g) g p := by
  refine hp.tracks (fun o r ho => ?_) fun o ho => ?_
  · cases o with
    | authenticatePublickey user => exact absurd ho id
    | authenticatePassword user password => exact absurd ho id
    | promptPassword user => exact absurd ho id
    | _ => rfl
  · cases o with
    | authenticatePublickey user => exact absurd ho id
    | authenticatePassword user password => exact absurd ho id
    | promptPassword user => exact absurd ho id
    | _ => trivial

theorem quiet_dialAttempts (ticket : T) (alpn : Alpn) (n : Nat) :
    (dialAttempts ticket alpn n : ConnectProg P T _).Ensures ConnectOp.Quiet Unasked := by
  have hfailed : Unasked (.error .connectFailed : Except ConnectError Unit) := by simp [Unasked]
  induction n with
  | zero => exact ⟨trivial, fun _ => hfailed⟩
  | succ n ih =>
      refine ⟨trivial, ?_⟩
      intro (reached : Awaited Unit)
      rcases reached with u | _ | _
      · refine ⟨trivial, ?_⟩
        intro (blobs : Awaited Unit)
        rcases blobs with u | _ | _
        · exact fun h => by cases h
        · exact ⟨trivial, fun _ => ⟨trivial, fun _ => hfailed⟩⟩
        · exact ⟨trivial, fun _ => ⟨trivial, fun _ => hfailed⟩⟩
      · exact ih
      · exact ih

theorem quiet_dialP2p (ticket : T) (isPairing : Bool) :
    (dialP2p options ticket isPairing).Ensures ConnectOp.Quiet Unasked := by
  refine ⟨trivial, ?_⟩
  intro (blobs : Bool)
  cases blobs with
  | false => exact fun h => by cases h
  | true =>
      refine ⟨trivial, ?_⟩
      intro (identity : Bool)
      cases identity with
      | false => exact fun h => by cases h
      | true =>
          refine ⟨trivial, ?_⟩
          intro (bound : Bool)
          cases bound with
          | false => exact fun h => by cases h
          | true => exact quiet_dialAttempts ticket _ 3

theorem quiet_connectWormhole (code : List Char) :
    (connectWormhole code : ConnectProg P T _).Ensures ConnectOp.Quiet Unasked := by
  refine ⟨trivial, ?_⟩
  intro (identity : Bool)
  cases identity with
  | false => exact fun h => by cases h
  | true =>
      refine ⟨trivial, ?_⟩
      intro (bound : Bool)
      cases bound with
      | false => exact fun h => by cases h
      | true =>
          refine ⟨trivial, ?_⟩
          intro (listened : Awaited T)
          refine ⟨trivial, fun _ => ?_⟩
          rcases listened with ticket | _ | _ <;> exact fun h => by cases h

/-- No attempt has been made yet. -/
theorem ends_untried {β : Type} {e : ConnectError} (he : e ≠ .authenticationFailed) :
    Attempts.Ends options (.error e : Except ConnectError β) .none :=
  ⟨fun _ hmem => absurd hmem List.not_mem_nil, fun h => absurd h he⟩

theorem offers_sshSession (options : ClientOptions P) :
    Offers options (Attempts.Ends options) .none (sshSession options : ConnectProg P T _) := by
  refine ⟨trivial, ?_⟩
  intro (shaken : Option (Except HandshakeError Unit))
  rcases shaken with _ | (_ | _ | _) | _
  · exact ends_untried (by simp)
  · exact ends_untried (by simp)
  · exact ends_untried (by simp)
  · exact ends_untried (by simp)
  · exact offers_authenticate options

theorem offers_openSession (options : ClientOptions P) :
    Offers options (Attempts.Ends options) .none (openSession options : ConnectProg P T _) := by
  refine ⟨trivial, ?_⟩
  intro (opened : Bool)
  cases opened with
  | false => exact ⟨trivial, fun _ => ends_untried (by simp)⟩
  | true =>
      show Offers options _ Attempts.none (sshSession options >>= _)
      refine Prog.Tracks.bind (offers_sshSession options) fun result g' hg => ?_
      cases result with
      | error e => exact ⟨trivial, fun _ => ⟨trivial, fun _ => hg⟩⟩
      | ok u => exact ⟨trivial, fun _ => hg⟩

theorem offers_establishSession (options : ClientOptions P) :
    Offers options (Attempts.Ends options) .none (establishSession options : ConnectProg P T _) := by
  refine ⟨trivial, ?_⟩
  intro (identity : Bool)
  cases identity with
  | false => exact ends_untried (by simp)
  | true =>
      show Offers options _ Attempts.none (if options.policy = .acceptAll then _ else _)
      split
      · exact offers_openSession options
      · refine ⟨trivial, ?_⟩
        intro (known : Bool)
        cases known with
        | false => exact ends_untried (by simp)
        | true => exact offers_openSession options

theorem offers_dialAndEstablish (options : ClientOptions P) (ticket : T) (isPairing : Bool) :
    Offers options (Attempts.Ends options) .none (dialAndEstablish options ticket isPairing) := by
  refine Prog.Tracks.bind (offers_quiet (quiet_dialP2p ticket isPairing)) fun result g' hg => ?_
  obtain ⟨hasked, rfl⟩ := hg
  cases result with
  | error e => exact ends_untried fun he => hasked (congrArg _ he)
  | ok u => exact offers_establishSession options

end

namespace Proof

/-- **What connecting leaves open.** -/
theorem connect_leaves_nothing_open {P T : Type} (options : ClientOptions P) (target : ResolvedTarget T) :
    LeavesOpen Settled (.closed false) (connect options target) := by
  cases target with
  | ticket ticket => exact leavesOpen_dialAndEstablish options ticket false
  | wormholeCode code =>
      refine LeavesOpen.then (leavesOpen_connectWormhole code) fun found => ?_
      cases found with
      | error e => exact settled_undialled e
      | ok ticket => exact leavesOpen_dialAndEstablish options ticket true

/-- **How a client authenticates.** -/
theorem connect_offers {P T : Type} (options : ClientOptions P) (target : ResolvedTarget T) :
    Offers options (Attempts.Ends options) .none (connect options target) := by
  cases target with
  | ticket ticket => exact offers_dialAndEstablish options ticket false
  | wormholeCode code =>
      refine Prog.Tracks.bind (offers_quiet (quiet_connectWormhole code)) fun found g' hg => ?_
      obtain ⟨hasked, rfl⟩ := hg
      cases found with
      | error e => exact ends_untried fun he => hasked (congrArg _ he)
      | ok ticket => exact offers_dialAndEstablish options ticket true

end Proof

end Irosh
