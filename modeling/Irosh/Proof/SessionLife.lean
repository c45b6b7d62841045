import Irosh.Client.Session

/-!
# The life of a client session

Whatever calls are made, in whatever order, given up or not: the transport is closed as a
whole and once, a session that has been closed makes no request any more, and one that has
been disconnected stays as it is. A `disconnect` that fails, or is given up, leaves a
session that can be disconnected again.

Requests of different calls go to one channel, until a `disconnect` takes it. If that one
then fails, the next call opens another.
-/

namespace Irosh

namespace LiveSession

variable {C : Type} {s s' : LiveSession C} {act : SessionAct C} {acts : List (SessionAct C)}

/-- What holds of a session at any time. -/
structure Consistent (s : LiveSession C) : Prop where
  state : s.state = .authenticated ∨ s.state = .shellReady ∨ s.state = .closed
  /-- The transport is closed as a whole, and once. -/
  together : s.connection = s.endpoint ∧ s.blobsConnection = s.endpoint
  closings : s.closings = if s.endpoint then [] else [.connection, .blobsConnection, .endpoint]
  /-- Whoever has the lock has a channel. -/
  holding : ∀ request, (request, CallPc.holding) ∈ s.calls → s.channel.isSome = true
  /-- No call is under way when the session is closed, or about to be. -/
  quiet : s.state = .closed → s.calls = []
  alone : s.disconnecting.isSome = true → s.calls = [] ∧ s.channel = none
  closingEndpoint : s.disconnecting = some .closingEndpoint → s.endpoint = false
  finished : s.finished = true → s.state = .closed ∧ s.channel = none ∧ s.endpoint = false
    ∧ s.disconnecting = none

theorem alone_iff : s.alone = true ↔ s.calls = [] ∧ s.disconnecting = none := by
  rw [LiveSession.alone, Bool.and_eq_true, List.isEmpty_iff, Option.isNone_iff_eq_none]

/-- Closing what is open, or nothing. -/
theorem closing_all (h : s.Consistent) :
    s.closings ++ (closing s.connection .connection ++ closing s.blobsConnection .blobsConnection
        ++ closing s.endpoint .endpoint) = [.connection, .blobsConnection, .endpoint] := by
  rw [h.closings, h.together.1, h.together.2]
  cases s.endpoint with
  | true => rfl
  | false => rfl

theorem Consistent.closeTransport (h : s.Consistent) (hcalls : s.calls = []) (hchannel : s.channel = none) :
    s.closeTransport.Consistent := by
  have hclosings := closing_all h
  unfold LiveSession.closeTransport
  dsimp only
  split
  · rename_i hopen
    exact
      { state := h.state
        together := ⟨rfl, rfl⟩
        closings := hclosings
        holding := fun request hmem => absurd (hcalls ▸ hmem) List.not_mem_nil
        quiet := fun _ => hcalls
        alone := fun _ => ⟨hcalls, hchannel⟩
        closingEndpoint := fun _ => rfl
        finished := fun hf => by
          rw [(h.finished hf).2.2.1] at hopen
          cases hopen }
  · exact
      { state := .inr (.inr rfl)
        together := ⟨rfl, rfl⟩
        closings := hclosings
        holding := fun request hmem => absurd (hcalls ▸ hmem) List.not_mem_nil
        quiet := fun _ => hcalls
        alone := fun hd => by cases hd
        closingEndpoint := fun hd => by cases hd
        finished := fun _ => ⟨rfl, hchannel, rfl, rfl⟩ }

theorem isTerminal_iff (h : s.Consistent) : s.state.isTerminal = true ↔ s.state = .closed := by
  rcases h.state with hs | hs | hs <;> rw [hs] <;> simp [SessionState.isTerminal]

/-- With nothing under way and no channel, where `disconnect` stands does not matter. -/
theorem Consistent.waiting (h : s.Consistent) (hcalls : s.calls = []) (hchannel : s.channel = none)
    (hfin : s.finished = false) {pc : Option DisconnectPc} (hpc : pc ≠ some .closingEndpoint) :
    Consistent { s with disconnecting := pc } :=
  { h with
    alone := fun _ => ⟨hcalls, hchannel⟩
    closingEndpoint := fun hd => absurd hd hpc
    finished := fun hf => by
      rw [show s.finished = true from hf] at hfin
      cases hfin }

theorem Consistent.afterChannel (h : s.Consistent) (hcalls : s.calls = []) (hchannel : s.channel = none) :
    s.afterChannel.Consistent := by
  unfold LiveSession.afterChannel
  split
  · exact h.closeTransport hcalls hchannel
  · rename_i hopen
    refine h.waiting hcalls hchannel ?_ (by intro hpc; cases hpc)
    cases hf : s.finished with
    | false => rfl
    | true => exact absurd ((isTerminal_iff h).mpr (h.finished hf).1) hopen

/-- The calls that are under way change, and the state stays open. -/
theorem Consistent.calls (h : s.Consistent) (hopen : s.calls ≠ []) {calls : List (ChannelRequest × CallPc C)}
    {state : SessionState} {channel : Option C} {reached : List (Nat × C × ChannelRequest)}
    (hstate : state = s.state ∨ state = .shellReady)
    (hchannel : s.channel.isSome = true → channel.isSome = true)
    (hheld : ∀ request, (request, CallPc.holding) ∈ calls →
      (request, CallPc.holding) ∈ s.calls ∨ channel.isSome = true) :
    Consistent { s with calls := calls, state := state, channel := channel, reached := reached } where
  state := by
    rcases hstate with rfl | rfl
    · exact h.state
    · exact .inr (.inl rfl)
  together := h.together
  closings := h.closings
  holding := by
    intro request hmem
    rcases hheld request hmem with hold | hnew
    · exact hchannel (h.holding request hold)
    · exact hnew
  quiet := by
    intro hclosed
    rcases hstate with rfl | rfl
    · exact absurd (h.quiet hclosed) hopen
    · cases hclosed
  alone := fun hd => absurd (h.alone hd).1 hopen
  closingEndpoint := h.closingEndpoint
  finished := fun hf => absurd (h.quiet (h.finished hf).1) hopen

theorem calls_ne_nil {i : Nat} {call : ChannelRequest × CallPc C} (h : s.calls[i]? = some call) :
    s.calls ≠ [] := by
  intro hnil
  rw [hnil] at h
  cases h

theorem free_of_mayStart {request : ChannelRequest} (h : s.mayStart request = true) :
    s.disconnecting.isSome = false := by
  rw [mayStart] at h
  split at h
  · rw [(alone_iff.mp h).2]
    rfl
  · rw [LiveSession.shareable, Bool.and_eq_true, Option.isNone_iff_eq_none] at h
    rw [h.2]
    rfl

theorem Consistent.not_finished (h : s.Consistent) {pc : DisconnectPc} (hpc : s.disconnecting = some pc) :
    s.finished = false := by
  cases hf : s.finished with
  | false => rfl
  | true =>
      have hnone := (h.finished hf).2.2.2
      rw [hpc] at hnone
      cases hnone

/-- Another call may have the lock only where it had it before. -/
theorem mem_set_holding {i : Nat} {request request' : ChannelRequest} {pc : CallPc C}
    (h : (request', CallPc.holding) ∈ s.calls.set i (request, pc)) :
    (request', CallPc.holding) ∈ s.calls ∨ pc = .holding := by
  rcases List.mem_or_eq_of_mem_set h with hold | hnew
  · exact .inl hold
  · exact .inr (Prod.mk.inj hnew).2.symm

/-- **Every step keeps a session consistent.** -/
theorem Consistent.step (h : s.Consistent) (hs : s.step act = some s') : s'.Consistent := by
  cases act with
  | call request =>
      rw [LiveSession.step] at hs
      by_cases hmay : s.mayStart request = true
      · rw [if_pos hmay] at hs
        by_cases hterm : s.state.isTerminal = true
        · rw [if_pos hterm] at hs
          cases hs
          exact h
        · rw [if_neg hterm] at hs
          cases hs
          have hopen : s.state ≠ .closed := fun hc => hterm ((isTerminal_iff h).mpr hc)
          refine { h with holding := ?_, quiet := fun hc => absurd hc hopen, alone := ?_ }
          · intro request' hmem
            rcases List.mem_append.mp hmem with hold | hnew
            · exact h.holding request' hold
            · cases List.mem_singleton.mp hnew
          · intro hd
            have hd' : s.disconnecting.isSome = true := hd
            rw [free_of_mayStart hmay] at hd'
            cases hd'
      · rw [if_neg hmay] at hs
        cases hs
  | look i =>
      rw [LiveSession.step] at hs
      split at hs
      · rename_i request hcall
        split_ifs at hs with hlock hchannel
        · cases hs
          exact h.calls (calls_ne_nil hcall) (.inl rfl) id fun request' hmem => .inr hchannel
        · cases hs
          refine h.calls (calls_ne_nil hcall) (.inl rfl) id fun request' hmem => .inl ?_
          exact (mem_set_holding hmem).elim id fun hpc => by cases hpc
      · cases hs
  | opens i channel =>
      rw [LiveSession.step] at hs
      split at hs
      · rename_i request hcall
        cases channel with
        | some c =>
            cases hs
            refine h.calls (calls_ne_nil hcall) (.inl rfl) id fun request' hmem => .inl ?_
            exact (mem_set_holding hmem).elim id fun hpc => by cases hpc
        | none =>
            cases hs
            exact h.calls (calls_ne_nil hcall) (.inl rfl) id fun request' hmem =>
              .inl (List.mem_of_mem_eraseIdx hmem)
      · cases hs
  | install i =>
      rw [LiveSession.step] at hs
      split at hs
      · rename_i request c hcall
        split_ifs at hs with hlock hchannel
        · cases hs
          exact h.calls (calls_ne_nil hcall) (.inl rfl) id fun request' hmem => .inr hchannel
        · cases hs
          exact h.calls (calls_ne_nil hcall) (.inl rfl) (fun _ => rfl) fun request' hmem => .inr rfl
      · cases hs
  | request i how =>
      rw [LiveSession.step] at hs
      split at hs
      · rename_i request c hcall hchannel
        cases hs
        refine h.calls (calls_ne_nil hcall) ?_ id fun request' hmem => .inl (List.mem_of_mem_eraseIdx hmem)
        split
        · exact .inr rfl
        · exact .inl rfl
      · cases hs
  | giveUp i =>
      rw [LiveSession.step] at hs
      split_ifs at hs with hi
      cases hs
      refine h.calls (fun hnil => ?_) (.inl rfl) id fun request' hmem => .inl (List.mem_of_mem_eraseIdx hmem)
      rw [hnil] at hi
      exact absurd hi (Nat.not_lt_zero i)
  | nextEvent ended =>
      rw [LiveSession.step] at hs
      split_ifs at hs with halone hended
      · cases hs
        refine { h with
          state := .inr (.inr rfl)
          quiet := fun _ => (alone_iff.mp halone).1
          finished := fun hf => ?_ }
        have hsome := hended.1
        rw [(h.finished hf).2.1] at hsome
        cases hsome
      · cases hs
        exact h
  | disconnect =>
      rw [LiveSession.step] at hs
      by_cases halone : s.alone = true
      · rw [if_pos halone] at hs
        obtain ⟨hcalls, hfree⟩ := alone_iff.mp halone
        cases hchannel : s.channel with
        | none =>
            rw [hchannel] at hs
            cases hs
            exact h.afterChannel hcalls hchannel
        | some c =>
            rw [hchannel] at hs
            cases hs
            refine { h with
              holding := ?_
              alone := fun _ => ⟨hcalls, rfl⟩
              closingEndpoint := fun hd => ?_
              finished := fun hf => ?_ }
            · intro request hmem
              have hmem' : (request, CallPc.holding) ∈ s.calls := hmem
              rw [hcalls] at hmem'
              cases hmem'
            · cases hd
            · have hnone := (h.finished hf).2.1
              rw [hchannel] at hnone
              cases hnone
      · rw [if_neg halone] at hs
        cases hs
  | channelClosed =>
      rw [LiveSession.step] at hs
      split_ifs at hs with hpc
      cases hs
      obtain ⟨hcalls, hchannel⟩ := h.alone (by rw [hpc]; rfl)
      exact (h.waiting hcalls hchannel (h.not_finished hpc) (by intro hd; cases hd)).afterChannel
        hcalls hchannel
  | goodbye ok =>
      rw [LiveSession.step] at hs
      split_ifs at hs with hpc hok
      · cases hs
        obtain ⟨hcalls, hchannel⟩ := h.alone (by rw [hpc]; rfl)
        exact (h.waiting hcalls hchannel (h.not_finished hpc) (by intro hd; cases hd)).closeTransport
          hcalls hchannel
      · cases hs
        obtain ⟨hcalls, hchannel⟩ := h.alone (by rw [hpc]; rfl)
        exact h.waiting hcalls hchannel (h.not_finished hpc) (by intro hd; cases hd)
  | endpointClosed =>
      rw [LiveSession.step] at hs
      split_ifs at hs with hpc
      cases hs
      obtain ⟨hcalls, hchannel⟩ := h.alone (by rw [hpc]; rfl)
      exact { h with
        state := .inr (.inr rfl)
        quiet := fun _ => hcalls
        alone := fun hd => by cases hd
        closingEndpoint := fun hd => by cases hd
        finished := fun _ => ⟨rfl, hchannel, h.closingEndpoint hpc, rfl⟩ }
  | giveUpDisconnect =>
      rw [LiveSession.step] at hs
      split_ifs at hs with hpc
      cases hs
      obtain ⟨hcalls, hchannel⟩ := h.alone hpc
      obtain ⟨pc, hpc⟩ := Option.isSome_iff_exists.mp hpc
      exact h.waiting hcalls hchannel (h.not_finished hpc) (by intro hd; cases hd)

/-! ## The channel -/

theorem closeTransport_channel (s : LiveSession C) :
    s.closeTransport.channel = s.channel ∧ s.closeTransport.taken = s.taken
      ∧ s.closeTransport.reached = s.reached := by
  unfold LiveSession.closeTransport
  dsimp only
  split <;> exact ⟨rfl, rfl, rfl⟩

theorem afterChannel_channel (s : LiveSession C) :
    s.afterChannel.channel = s.channel ∧ s.afterChannel.taken = s.taken
      ∧ s.afterChannel.reached = s.reached := by
  unfold LiveSession.afterChannel
  split
  · exact closeTransport_channel s
  · exact ⟨rfl, rfl, rfl⟩

/-- **All that a step can do to the channel.** It leaves it, installs one where there is none, makes a
request of the one that is there, or takes it. -/
theorem step_channel (hs : s.step act = some s') :
    s'.channel = s.channel ∧ s'.taken = s.taken ∧ s'.reached = s.reached
      ∨ s.channel = none ∧ s'.taken = s.taken ∧ s'.reached = s.reached
      ∨ (∃ c request, s.channel = some c ∧ s'.channel = some c ∧ s'.taken = s.taken
        ∧ s'.reached = s.reached ++ [(s.taken, c, request)])
      ∨ s'.channel = none ∧ s'.taken = s.taken + 1 ∧ s'.reached = s.reached := by
  have hsame : ∀ {s₁ : LiveSession C}, some s₁ = some s' →
      s₁.channel = s.channel ∧ s₁.taken = s.taken ∧ s₁.reached = s.reached →
      s'.channel = s.channel ∧ s'.taken = s.taken ∧ s'.reached = s.reached := by
    rintro s₁ h h₁
    cases h
    exact h₁
  cases act with
  | call request =>
      rw [LiveSession.step] at hs
      split_ifs at hs
      · exact .inl (hsame hs ⟨rfl, rfl, rfl⟩)
      · exact .inl (hsame hs ⟨rfl, rfl, rfl⟩)
  | look i =>
      rw [LiveSession.step] at hs
      split at hs
      · split_ifs at hs
        · exact .inl (hsame hs ⟨rfl, rfl, rfl⟩)
        · exact .inl (hsame hs ⟨rfl, rfl, rfl⟩)
      · cases hs
  | opens i channel =>
      rw [LiveSession.step] at hs
      split at hs
      · cases channel with
        | some c => exact .inl (hsame hs ⟨rfl, rfl, rfl⟩)
        | none => exact .inl (hsame hs ⟨rfl, rfl, rfl⟩)
      · cases hs
  | install i =>
      rw [LiveSession.step] at hs
      split at hs
      · split_ifs at hs with hlock hchannel
        · exact .inl (hsame hs ⟨rfl, rfl, rfl⟩)
        · cases hs
          exact .inr (.inl ⟨by simpa using hchannel, rfl, rfl⟩)
      · cases hs
  | request i how =>
      rw [LiveSession.step] at hs
      split at hs
      · rename_i request c hcall hchannel
        cases hs
        by_cases hsent : how.sent = true
        · exact .inr (.inr (.inl ⟨c, request, hchannel, hchannel, rfl, if_pos hsent⟩))
        · exact .inl ⟨rfl, rfl, if_neg hsent⟩
      · cases hs
  | giveUp i =>
      rw [LiveSession.step] at hs
      split_ifs at hs
      exact .inl (hsame hs ⟨rfl, rfl, rfl⟩)
  | nextEvent ended =>
      rw [LiveSession.step] at hs
      split_ifs at hs
      · exact .inl (hsame hs ⟨rfl, rfl, rfl⟩)
      · exact .inl (hsame hs ⟨rfl, rfl, rfl⟩)
  | disconnect =>
      rw [LiveSession.step] at hs
      split at hs
      · cases hchannel : s.channel with
        | none =>
            rw [hchannel] at hs
            have hkept := afterChannel_channel s
            rw [hchannel] at hkept
            cases hs
            exact .inl hkept
        | some c =>
            rw [hchannel] at hs
            cases hs
            exact .inr (.inr (.inr ⟨rfl, rfl, rfl⟩))
      · cases hs
  | channelClosed =>
      rw [LiveSession.step] at hs
      split_ifs at hs
      exact .inl (hsame hs (afterChannel_channel { s with disconnecting := none }))
  | goodbye ok =>
      rw [LiveSession.step] at hs
      split_ifs at hs
      · exact .inl (hsame hs (closeTransport_channel { s with disconnecting := none }))
      · exact .inl (hsame hs ⟨rfl, rfl, rfl⟩)
  | endpointClosed =>
      rw [LiveSession.step] at hs
      split_ifs at hs
      exact .inl (hsame hs ⟨rfl, rfl, rfl⟩)
  | giveUpDisconnect =>
      rw [LiveSession.step] at hs
      split_ifs at hs
      exact .inl (hsame hs ⟨rfl, rfl, rfl⟩)

/-- What has reached a channel: until it was taken, always the same, and the present one since. -/
structure OneChannel (s : LiveSession C) : Prop where
  past : ∀ n c request, (n, c, request) ∈ s.reached → n ≤ s.taken
  present : ∀ c request, (s.taken, c, request) ∈ s.reached → s.channel = some c
  same : ∀ n c request c' request', (n, c, request) ∈ s.reached → (n, c', request') ∈ s.reached → c = c'

theorem OneChannel.step (h : s.OneChannel) (hs : s.step act = some s') : s'.OneChannel := by
  rcases step_channel hs with ⟨hchannel, htaken, hreached⟩ | ⟨hnone, htaken, hreached⟩ |
    ⟨c₀, request₀, hsome, hchannel, htaken, hreached⟩ | ⟨hnone, htaken, hreached⟩
  · refine ⟨?_, ?_, ?_⟩
    · rw [htaken, hreached]
      exact h.past
    · rw [htaken, hreached, hchannel]
      exact h.present
    · rw [hreached]
      exact h.same
  · refine ⟨?_, ?_, ?_⟩
    · rw [htaken, hreached]
      exact h.past
    · -- nothing has been requested since the last one was taken
      rw [htaken, hreached]
      intro c request hmem
      have hsome := h.present c request hmem
      rw [hnone] at hsome
      cases hsome
    · rw [hreached]
      exact h.same
  · have hcase : ∀ n c request, (n, c, request) ∈ s'.reached →
        (n, c, request) ∈ s.reached ∨ n = s.taken ∧ c = c₀ := by
      intro n c request hmem
      rw [hreached] at hmem
      rcases List.mem_append.mp hmem with hold | hnew
      · exact .inl hold
      · cases List.mem_singleton.mp hnew
        exact .inr ⟨rfl, rfl⟩
    have hthis : ∀ c request, (s.taken, c, request) ∈ s'.reached → c = c₀ := by
      intro c request hmem
      rcases hcase _ c request hmem with hold | ⟨-, hc⟩
      · exact Option.some.inj ((h.present c request hold).symm.trans hsome)
      · exact hc
    refine ⟨?_, ?_, ?_⟩
    · intro n c request hmem
      rw [htaken]
      rcases hcase n c request hmem with hold | ⟨rfl, -⟩
      · exact h.past n c request hold
      · exact Nat.le_refl _
    · intro c request hmem
      rw [htaken] at hmem
      rw [hchannel, hthis c request hmem]
    · intro n c request c' request' hmem hmem'
      rcases hcase n c request hmem with hold | ⟨rfl, rfl⟩
      · rcases hcase n c' request' hmem' with hold' | ⟨rfl, rfl⟩
        · exact h.same n c request c' request' hold hold'
        · exact hthis c request hmem
      · exact (hthis c' request' hmem').symm
  · refine ⟨?_, ?_, ?_⟩
    · intro n c request hmem
      rw [hreached] at hmem
      rw [htaken]
      exact Nat.le_succ_of_le (h.past n c request hmem)
    · intro c request hmem
      rw [hreached, htaken] at hmem
      have hle := h.past _ c request hmem
      omega
    · rw [hreached]
      exact h.same

theorem oneChannel_established : (established : LiveSession C).OneChannel where
  past := fun _ _ _ h => absurd h List.not_mem_nil
  present := fun _ _ h => absurd h List.not_mem_nil
  same := fun _ _ _ _ _ h => absurd h List.not_mem_nil

/-! ## The end -/

end LiveSession

namespace Proof

open LiveSession

/-- **Until it is taken, there is one channel.** -/
theorem session_uses_one_channel {C : Type} {acts : List (SessionAct C)} {s : LiveSession C}
    (hx : Exec.exec LiveSession.step established acts = some s) :
    (∀ n c request c' request', (n, c, request) ∈ s.reached → (n, c', request') ∈ s.reached → c = c')
      ∧ ∀ c request, (s.taken, c, request) ∈ s.reached → s.channel = some c := by
  have h : s.OneChannel :=
    Exec.exec_invariant_all (fun _ _ _ h hs => h.step hs) oneChannel_established hx
  exact ⟨h.same, h.present⟩

/-- Two calls open a channel each, and both requests go to the one that comes first. -/
theorem session_uses_one_channel_race : ∃ s : LiveSession Nat,
    Exec.exec LiveSession.step established [.call (.data [1]), .call .eof, .look 0, .look 1,
        .opens 1 (some 8), .opens 0 (some 7), .install 1, .request 1 .done, .install 0, .request 0 .done]
      = some s ∧ (0, 8, .data [1]) ∈ s.reached ∧ s.channel = some 8 := by
  have hx :
      Exec.exec LiveSession.step (established : LiveSession Nat) [.call (.data [1]), .call .eof, .look 0,
      .look 1, .opens 1 (some 8), .opens 0 (some 7), .install 1, .request 1 .done, .install 0,
        .request 0 .done]
      = some ⟨.authenticated, some 8, true, true, true, [], none, [(0, 8, .eof), (0, 8, .data [1])], 0, [],
        false⟩ := by decide
  have hmem : (0, 8, .data [1]) ∈ ([(0, 8, .eof), (0, 8, .data [1])] : List (Nat × Nat × ChannelRequest)) :=
    List.mem_cons_of_mem _ List.mem_cons_self
  exact ⟨_, hx, hmem, (session_uses_one_channel hx).2 8 (.data [1]) hmem⟩

end Proof

end Irosh
