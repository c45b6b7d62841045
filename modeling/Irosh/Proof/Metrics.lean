import Irosh.Proof.FinalAnswer

/-!
# Transfer metrics

`transfers_completed` is documented as the transfers that completed successfully. What is
counted is the handlers that end with `Ok`, and several of them end so after refusing or
giving up a transfer. The sums come out right all the same, unless a handler unwinds:
every stream is counted once as initiated, and every transfer whose handler returns once
as completed or failed.
-/

namespace Irosh

open UnixPath Wire Serve

/-- What the handlers are given: `{:?}` of a frame, and the blob library's functions. -/
structure Host where
  debug : TransferFrame → String
  parseHash : String → HashText
  toBlobs : Collection → List (List UInt8)
  hashText : Hash → String

/-- A transfer stream: the shell it is served in, what the peer sends, and the answers its handler
gets. -/
structure Stream where
  context : ShellContext
  first : Except TransferError TransferFrame
  frames : List TransferFrame
  oracle : Nat → (o : ServeOp) → o.Answer

namespace Stream

/-- What happens on a stream. -/
def steps (host : Host) (s : Stream) : List (Σ o : ServeOp, o.Answer) :=
  (handleTransferStream host.debug host.parseHash host.toBlobs host.hashText s.context s.first
    s.frames).steps s.oracle 0

/-- What follows the first count. -/
def rest (host : Host) (s : Stream) : List (Σ o : ServeOp, o.Answer) :=
  (serveFirst host.debug host.parseHash host.toBlobs host.hashText s.context s.frames s.first).steps
    s.oracle 1

/-- The counters a stream moves. -/
def counts (host : Host) (s : Stream) : List Counter :=
  (s.steps host).filterMap fun step => step.1.counted

/-- Whether a stream begins with a request to move data. -/
def isTransfer (s : Stream) : Bool :=
  match s.first with
  | .ok frame => Irosh.isTransfer frame
  | .error _ => false

/-- The task of the stream panics. -/
def Panics (host : Host) (s : Stream) : Prop :=
  ∃ first, s.first = .ok first ∧ Unwinds host.parseHash first

/-- A transfer is counted as completed if and only if its completion has been sent. -/
def CountedRight (host : Host) (s : Stream) (request : TransferFrame) : Prop :=
  .completed ∈ s.counts host
    ↔ ∃ frame ∈ (s.steps host).filterMap (fun step => step.1.written step.2),
        Completes request frame

end Stream

/-- What a counter shows when these streams have been served. -/
def total (host : Host) (counter : Counter) (streams : List Stream) : Nat :=
  (streams.map fun s => (s.counts host).count counter).sum

/-! ## Completions -/

/-- A completion is a final frame. -/
theorem Completes.isFinal {request frame : TransferFrame} (h : Completes request frame) :
    isFinal frame = true := by
  cases request with
  | putRequest _ => obtain ⟨_, rfl⟩ := h; rfl
  | blobPutRequest _ => obtain ⟨_, rfl⟩ := h; rfl
  | getRequest _ => obtain ⟨_, rfl⟩ := h; rfl
  | blobGetRequest _ => obtain ⟨_, rfl⟩ := h; rfl
  | cwdRequest _ => obtain ⟨_, rfl⟩ := h; rfl
  | existsRequest _ => obtain ⟨_, rfl⟩ := h; rfl
  | completionRequest _ => obtain ⟨_, rfl⟩ := h; rfl
  | _ => exact absurd h id

/-- An error completes nothing. -/
theorem not_completes_error (request : TransferFrame) (failure : TransferFailure) :
    ¬ Completes request (.error failure) := by
  cases request with
  | putRequest _ => rintro ⟨_, h⟩; cases h
  | blobPutRequest _ => rintro ⟨_, h⟩; cases h
  | getRequest _ => rintro ⟨_, h⟩; cases h
  | blobGetRequest _ => rintro ⟨_, h⟩; cases h
  | cwdRequest _ => rintro ⟨_, h⟩; cases h
  | existsRequest _ => rintro ⟨_, h⟩; cases h
  | completionRequest _ => rintro ⟨_, h⟩; cases h
  | _ => exact id

/-- So a completion has been sent if and only if it is among the final frames. -/
theorem completion_sent_iff {request : TransferFrame} (steps : List (Σ o : ServeOp, o.Answer)) :
    (∃ frame ∈ steps.filterMap (fun step => step.1.written step.2), Completes request frame)
      ↔ ∃ frame ∈ steps.filterMap (fun step => step.1.final step.2), Completes request frame := by
  constructor
  · rintro ⟨frame, hm, hc⟩
    obtain ⟨step, hs, hw⟩ := List.mem_filterMap.mp hm
    refine ⟨frame, List.mem_filterMap.mpr ⟨step, hs, ?_⟩, hc⟩
    rw [ServeOp.final, hw, Option.filter_some, if_pos hc.isFinal]
  · rintro ⟨frame, hm, hc⟩
    obtain ⟨step, hs, hw⟩ := List.mem_filterMap.mp hm
    exact ⟨frame, List.mem_filterMap.mpr ⟨step, hs, (Option.filter_eq_some_iff.mp hw).1⟩, hc⟩

/-! ## One stream -/

/-- One more counter at the front. -/
theorem Ended.count {done : TransferFrame → Prop} {ok failed counts : List Counter}
    {finals : List TransferFrame} {silent quiet : Bool}
    (h : Ended done ok failed ⟨finals, silent, quiet, counts⟩) (counter : Counter) :
    Ended done (counter :: ok) (counter :: failed) ⟨finals, silent, quiet, counter :: counts⟩ := by
  simpa only [Ended, Tally.mk.injEq, List.cons.injEq, true_and] using h

section

variable (host : Host) {s : Stream}

theorem Stream.counts_eq (s : Stream) :
    s.counts host = .initiated :: (s.rest host).filterMap fun step => step.1.counted := rfl

/-- What a transfer comes to, in the terms of its stream. -/
theorem transfer_ended {request : TransferFrame} (hf : s.first = .ok request)
    (ht : isTransfer request = true) (hu : ¬ s.Panics host) :
    Ended (Completes request) [.initiated, .completed] [.initiated, .failed]
      ⟨(s.steps host).filterMap (fun step => step.1.final step.2),
        (s.steps host).any (fun step => step.1.silent (isSingle request) step.2),
        (s.steps host).any (fun step => step.1.quiet (isSingle request) step.2), s.counts host⟩ := by
  have h : Ended (Completes request) [.completed] [.failed]
      ((s.rest host).foldl (fun g step => g.next (isSingle request) step.1 step.2) .clean) := by
    unfold Stream.rest
    rw [hf]
    exact (serveFirst_transfer ht fun h => hu ⟨request, hf, h⟩).outcome 1
  rw [Tally.foldl_next] at h
  exact h.count .initiated

/-- **One transfer** whose handler returns. It is counted right if and only if its handler never gives it
up and ends with `Ok`; and it is counted once as initiated and once as completed or failed. -/
theorem transfer_counted {request : TransferFrame} (hf : s.first = .ok request)
    (ht : isTransfer request = true) (hu : ¬ s.Panics host) :
    (s.CountedRight host request
        ↔ ∀ step ∈ s.steps host, step.1.quiet (isSingle request) step.2 = false)
      ∧ (s.counts host = [.initiated, .completed] ∨ s.counts host = [.initiated, .failed]) := by
  have hquiet : (s.steps host).any (fun step => step.1.quiet (isSingle request) step.2) = false
      ↔ ∀ step ∈ s.steps host, step.1.quiet (isSingle request) step.2 = false := by
    simp [List.any_eq_false]
  rw [← hquiet, Stream.CountedRight, completion_sent_iff]
  have h := transfer_ended host hf ht hu
  simp only [Ended, Tally.mk.injEq] at h
  rcases h with ⟨frame, hd, hfin, -, hq, hc⟩ | ⟨failure, hfin, -, hq, hc⟩ | ⟨hfin, -, hq, hc⟩
    | ⟨failure, hfin, -, hq, hc⟩ | ⟨hfin, -, hq, hc⟩
  all_goals rw [hfin, hq, hc]
  · exact ⟨iff_of_true (iff_of_true (by decide) ⟨frame, List.mem_singleton_self _, hd⟩) rfl, .inl rfl⟩
  · refine ⟨iff_of_false ?_ (by decide), .inl rfl⟩
    simp [not_completes_error]
  · refine ⟨iff_of_false ?_ (by decide), .inl rfl⟩
    simp
  · refine ⟨iff_of_true ?_ rfl, .inr rfl⟩
    simp [not_completes_error]
  · refine ⟨iff_of_true ?_ rfl, .inr rfl⟩
    simp

/-- A handler that unwinds leaves its stream counted as initiated. -/
theorem Stream.Panics.counts (h : s.Panics host) : s.counts host = [.initiated] := by
  obtain ⟨first, hf, hu⟩ := h
  rw [Stream.counts_eq, Stream.rest, hf, serveFirst_unwinds hu]
  rfl

theorem Stream.Panics.isTransfer (h : s.Panics host) : s.isTransfer = true := by
  obtain ⟨first, hf, hu⟩ := h
  unfold Stream.isTransfer
  rw [hf]
  cases first with
  | blobPutRequest request => rfl
  | _ => exact absurd hu id

/-- **Everything else** is counted as initiated, and at most as an error. -/
theorem other_counted (ht : s.isTransfer = false) :
    s.counts host = [.initiated] ∨ s.counts host = [.initiated, .errors] := by
  rw [Stream.counts_eq]
  unfold Stream.isTransfer at ht
  cases hf : s.first with
  | error e =>
      right
      rw [Stream.rest, hf]
      rfl
  | ok first =>
      rw [hf] at ht
      cases hc : isControl first with
      | false =>
          right
          rw [Stream.rest, hf, serveFirst_other ht hc]
          rfl
      | true =>
          have h : Ended (Completes first) [] [.errors]
              ((s.rest host).foldl (fun g step => g.next (isSingle first) step.1 step.2) .clean) := by
            unfold Stream.rest
            rw [hf]
            exact (serveFirst_control hc).outcome 1
          rw [Tally.foldl_next] at h
          simp only [Ended, Tally.mk.injEq, Tally.clean, List.nil_append] at h
          rcases h with ⟨_, -, -, -, -, hc⟩ | ⟨_, -, -, -, hc⟩ | ⟨-, -, -, hc⟩ | ⟨_, -, -, -, hc⟩
            | ⟨-, -, -, hc⟩
          all_goals simp [hc]

end

namespace Proof

open Classical in
/-- The sums, for any streams. -/
theorem totals (host : Host) (streams : List Stream) :
    total host .initiated streams
      = total host .completed streams + total host .failed streams
        + streams.countP (fun s => !s.isTransfer)
        + streams.countP (fun s => decide (s.Panics host)) := by
  induction streams with
  | nil => rfl
  | cons s streams ih =>
      simp only [total, List.map_cons, List.sum_cons] at ih ⊢
      rw [List.countP_cons, List.countP_cons, ih]
      by_cases hu : s.Panics host
      · have ht := hu.isTransfer
        rw [hu.counts]
        simp [hu, ht]
        omega
      cases ht : s.isTransfer with
      | false =>
          rcases other_counted host ht with hc | hc
          all_goals
            rw [hc]
            simp [hu]
            omega
      | true =>
          have hcounts : s.counts host = [.initiated, .completed]
              ∨ s.counts host = [.initiated, .failed] := by
            unfold Stream.isTransfer at ht
            cases hf : s.first with
            | error e =>
                rw [hf] at ht
                cases ht
            | ok request =>
                rw [hf] at ht
                exact (transfer_counted host hf ht hu).2
          rcases hcounts with hc | hc
          all_goals
            rw [hc]
            simp [hu]
            omega

/-- So they add up exactly if no handler unwinds. -/
theorem totals_iff (host : Host) (streams : List Stream) :
    total host .initiated streams
        = total host .completed streams + total host .failed streams
          + streams.countP (fun s => !s.isTransfer)
      ↔ ∀ s ∈ streams, ¬ s.Panics host := by
  classical
  rw [totals host streams, Nat.add_eq_left, List.countP_eq_zero]
  simp

/-- **Transfer metrics.** For any streams, served to the end: the counters add up and every transfer
is counted as completed exactly where its completion has been sent, if and only if no handler unwinds,
and none gives a transfer up and ends with `Ok`. -/
theorem metrics_conserved_iff (host : Host) (streams : List Stream) :
    (total host .initiated streams
        = total host .completed streams + total host .failed streams
          + streams.countP (fun s => !s.isTransfer)
      ∧ ∀ s ∈ streams, ∀ request, s.first = .ok request → isTransfer request = true →
          s.CountedRight host request)
    ↔ (∀ s ∈ streams, ¬ s.Panics host)
      ∧ ∀ s ∈ streams, ∀ request, s.first = .ok request → isTransfer request = true →
        ∀ step ∈ s.steps host, step.1.quiet (isSingle request) step.2 = false := by
  rw [totals_iff host streams]
  refine and_congr_right fun hu => forall₂_congr fun s hs => forall_congr' fun request => ?_
  exact forall₂_congr fun hf ht => (transfer_counted host hf ht (hu s hs)).1

/-- A host whose own functions are not needed. -/
def bareHost : Host := ⟨fun _ => "", byLength, fun _ => [], fun _ => ""⟩

/-- The upload of two bytes to `/f` whose second byte cannot be written is counted as completed, and a
request with a hash of one letter is counted as neither completed nor failed. -/
theorem completed_without_completion :
    (¬ (⟨.stateless none, .ok (.putRequest ⟨"/f", 2, none, false⟩),
        [.putChunk [7], .putChunk [8], .putComplete ⟨2⟩],
        fun _ => obliging sizeJson (· == [7])⟩ : Stream).CountedRight bareHost
          (.putRequest ⟨"/f", 2, none, false⟩))
      ∧ (⟨.stateless none, .ok (.blobPutRequest ⟨"/f", "x", "raw", 1⟩), [],
        fun _ => obliging sizeJson fun _ => true⟩ : Stream).counts bareHost = [.initiated] := by
  refine ⟨?_, rfl⟩
  set s : Stream := ⟨.stateless none, .ok (.putRequest ⟨"/f", 2, none, false⟩),
    [.putChunk [7], .putChunk [8], .putComplete ⟨2⟩], fun _ => obliging sizeJson (· == [7])⟩ with hs
  have hcounts : s.counts bareHost = [.initiated, .completed] := rfl
  have hwritten : (s.steps bareHost).filterMap (fun step => step.1.written step.2)
      = [.putReady ⟨2, none⟩] := rfl
  rw [Stream.CountedRight, hcounts, hwritten]
  intro h
  obtain ⟨frame, hm, complete, rfl⟩ := h.mp (by decide)
  cases List.mem_singleton.mp hm

end Proof

end Irosh
