import Irosh.Proof.BlobPut
import Irosh.Server.Stream

/-!
# The last word on a transfer stream

A frame is final if it ends the conversation: a completion, a response, or an error.
Every handler is followed with three things in mind: the final frames that have been
written, whether the peer has been left without an answer, and whether the transfer has
been given up without the handler's caller being told.

A handler that fails has written nothing final. One that ends with `Ok` has written its
completion, or has refused and said so, or has given up in silence; and which it was can
be told from the answers it got on the way.
-/

namespace Irosh

open UnixPath Wire Serve

/-! ## Final frames -/

/-- Frames that end a conversation. -/
def isFinal : TransferFrame → Bool
  | .putComplete _ => true
  | .getComplete _ => true
  | .cwdResponse _ => true
  | .existsResponse _ => true
  | .completionResponse _ => true
  | .blobGetReady _ => true
  | .error _ => true
  | _ => false

/-- The frame an operation has written. -/
def ServeOp.written : (o : ServeOp) → o.Answer → Option TransferFrame
  | .blob (.send frame), (sent : Bool) => if sent then some frame else none
  | .tell failure, (sent : Bool) => if sent then some (.error failure) else none
  | _, _ => none

/-- The final frame an operation has written. -/
def ServeOp.final (o : ServeOp) (r : o.Answer) : Option TransferFrame :=
  (o.written r).filter isFinal

/-- The peer is left without an answer: a report whose result is thrown away is not written, or the
data loop of a single upload is left for a reason it does not report. -/
def ServeOp.silent (single : Bool) : (o : ServeOp) → o.Answer → Bool
  | .tell _, (sent : Bool) => !sent
  | .took none, _ => true
  | .took (some (.error _)), _ => true
  | .blob (.fs (.writeAll _ _)), (written : Bool) => single && !written
  | _, _ => false

/-- A frame the data loop of an upload has no use for. -/
def isForeign : TransferFrame → Bool
  | .putChunk _ => false
  | .putComplete _ => false
  | _ => true

/-- The transfer is given up and the handler ends with `Ok`. -/
def ServeOp.quiet (single : Bool) : (o : ServeOp) → o.Answer → Bool
  | .blob (.send (.error _)), (sent : Bool) => sent
  | .took none, _ => true
  | .took (some frame), _ => isForeign frame
  | .blob (.fs (.writeAll _ _)), (written : Bool) => single && !written
  | _, _ => false

/-- The counter an operation moves. -/
def ServeOp.counted : ServeOp → Option Counter
  | .record counter => some counter
  | _ => none

/-- What is remembered of a run. -/
structure Tally where
  finals : List TransferFrame
  silent : Bool
  quiet : Bool
  counts : List Counter
  deriving DecidableEq

namespace Tally

/-- Nothing final has been written and nothing given up. -/
def clean : Tally := ⟨[], false, false, []⟩

def next (single : Bool) (g : Tally) (o : ServeOp) (r : o.Answer) : Tally :=
  ⟨g.finals ++ (o.final r).toList, g.silent || o.silent single r, g.quiet || o.quiet single r,
    g.counts ++ o.counted.toList⟩

/-- What a whole run comes to. -/
theorem foldl_next (single : Bool) (steps : List (Σ o : ServeOp, o.Answer)) (g : Tally) :
    steps.foldl (fun g step => g.next single step.1 step.2) g
      = ⟨g.finals ++ steps.filterMap (fun step => step.1.final step.2),
          g.silent || steps.any (fun step => step.1.silent single step.2),
          g.quiet || steps.any (fun step => step.1.quiet single step.2),
          g.counts ++ steps.filterMap (fun step => step.1.counted)⟩ := by
  induction steps generalizing g with
  | nil => simp
  | cons step steps ih =>
      rw [List.foldl_cons, ih]
      cases hf : step.1.final step.2 with
      | none => cases hc : step.1.counted with
        | none => simp [next, hf, hc, Bool.or_assoc]
        | some counter => simp [next, hf, hc, Bool.or_assoc]
      | some frame => cases hc : step.1.counted with
        | none => simp [next, hf, hc, Bool.or_assoc]
        | some counter => simp [next, hf, hc, Bool.or_assoc]

end Tally

/-! ## What a handler comes to -/

section

variable {single : Bool} {done : TransferFrame → Prop} {α : Type}

/-- A handler's result, and what has happened until then. -/
def Served (done : TransferFrame → Prop) : Except String Unit → Tally → Prop
  | .error _, g => g = .clean
  | .ok _, g =>
      (∃ frame, done frame ∧ g = ⟨[frame], false, false, []⟩)
        ∨ (∃ failure, g = ⟨[.error failure], false, true, []⟩) ∨ g = ⟨[], true, true, []⟩

/-- Every run of the handler comes to that. -/
def Serves (single : Bool) (done : TransferFrame → Prop) (p : ServeProg (Except String Unit)) :
    Prop :=
  p.Tracks (Tally.next single) (fun _ _ => True) (Served done) .clean

/-- Operations that change nothing of what is remembered. -/
def Plain (single : Bool) (o : ServeOp) : Prop := ∀ r, Tally.next single .clean o r = .clean

theorem Plain.next {o : ServeOp} (ho : Plain single o) (g : Tally) (r : o.Answer) :
    g.next single o r = g := by
  have := ho r
  simp only [Tally.next, Tally.clean, Tally.mk.injEq, List.nil_append, Bool.false_or] at this ⊢
  simp [this]

theorem serves_error (e : String) : Serves single done (pure (.error e)) := rfl

/-- Going on after a program of plain operations. -/
theorem Serves.after {p : ServeProg α} {f : α → ServeProg (Except String Unit)}
    (hp : p.Always (Plain single)) (hf : ∀ a, Serves single done (f a)) :
    Serves single done (p >>= f) := by
  refine (hp.tracks (fun o r ho => ho r) (fun _ _ => trivial)).bind ?_
  rintro a g rfl
  exact hf a

/-- Going on after one plain operation. -/
theorem Serves.perform {o : ServeOp} {f : o.Answer → ServeProg (Except String Unit)}
    (ho : Plain single o) (hf : ∀ r, Serves single done (f r)) :
    Serves single done (o.perform >>= f) :=
  Serves.after (Prog.always_perform ho) hf

theorem Serves.ite {ok : Bool} {p q : ServeProg (Except String Unit)} (hp : Serves single done p)
    (hq : Serves single done q) : Serves single done (if ok = true then p else q) := by
  split
  · exact hp
  · exact hq

/-- A frame that is not final. -/
theorem plain_send {frame : TransferFrame} (h : isFinal frame = false) :
    Plain single (.blob (.send frame)) := by
  have hne : ∀ failure, frame ≠ .error failure := by
    rintro failure rfl
    cases h
  intro (sent : Bool)
  cases sent with
  | false => cases frame <;> rfl
  | true =>
      cases frame with
      | error failure => exact absurd rfl (hne failure)
      | _ => first | rfl | cases h

theorem send_plain {frame : TransferFrame} (h : isFinal frame = false) :
    (send frame).Always (Plain single) :=
  ⟨plain_send h, fun _ => Prog.always_pure _⟩

/-- The frame that completes the transfer; `e` is what becomes of a failure to write it. -/
theorem serves_last {frame : TransferFrame} (e : String) (hd : done frame)
    (hf : isFinal frame = true) (he : ∀ failure, frame ≠ .error failure) :
    Serves single done
      (do let sent : Bool ← (ServeOp.blob (.send frame)).perform
          pure (if sent then .ok () else .error e)) := by
  refine ⟨trivial, ?_⟩
  intro (sent : Bool)
  cases sent with
  | false =>
      show _ = _
      cases frame <;> rfl
  | true =>
      refine .inl ⟨frame, hd, ?_⟩
      cases frame with
      | error failure => exact absurd rfl (he failure)
      | _ => first | rfl | cases hf

theorem serves_send {frame : TransferFrame} (hd : done frame) (hf : isFinal frame = true)
    (he : ∀ failure, frame ≠ .error failure) : Serves single done (send frame) :=
  serves_last _ hd hf he

/-- A refusal. -/
theorem serves_refuse (failure : TransferFailure) : Serves single done (refuse failure) := by
  refine ⟨trivial, ?_⟩
  intro (sent : Bool)
  cases sent with
  | false => rfl
  | true => exact .inr (.inl ⟨failure, rfl⟩)

theorem plain_fs {o : FsOp} (h : single = false ∨ ∀ p chunk, o ≠ .writeAll p chunk) :
    Plain single (.blob (.fs o)) := by
  intro r
  cases o with
  | writeAll p chunk =>
      rcases h with rfl | h
      · rfl
      · exact absurd rfl (h p chunk)
  | _ => rfl

/-- File system programs that write no data. -/
theorem serve_plain {p : FsProg α} (hp : p.Always fun o => ∀ q chunk, o ≠ .writeAll q chunk) :
    (FsProg.serve p).Always (Plain single) :=
  hp.lift fun _ ho => plain_fs (.inr ho)

theorem discard_plain (p : Path) : (discard p).Always (Plain single) :=
  ⟨plain_fs (.inr (by simp)), fun _ => Prog.always_pure _⟩

theorem rename_plain (context : ShellContext) (src dst : Path) :
    (FsProg.serve (context.rename src dst)).Always (Plain single) :=
  serve_plain ⟨by simp, fun _ => Prog.always_pure _⟩

theorem createDirAll_plain (context : ShellContext) (p : Path) :
    (FsProg.serve (context.createDirAll p)).Always (Plain single) :=
  serve_plain ⟨by simp, fun _ => Prog.always_pure _⟩

theorem chmod_plain (p : Path) (mode : Option Nat) :
    (FsProg.serve (chmod p mode)).Always (Plain single) := by
  cases mode with
  | none => exact serve_plain (Prog.always_pure _)
  | some mode => exact serve_plain ⟨by simp, fun _ => Prog.always_pure _⟩

theorem preparePutDestination_plain (context : ShellContext) (raw : List Char) :
    (FsProg.serve (preparePutDestination context raw)).Always (Plain single) := by
  refine serve_plain ?_
  unfold preparePutDestination
  cases context.resolvePath raw with
  | error e => exact Prog.always_pure _
  | ok dest =>
      refine ⟨by simp, fun missing => ?_⟩
      rcases missing with _ | _ | _
      · exact Prog.always_pure _
      · exact Prog.always_pure _
      · have hmade : (context.createDirAll (dest.parent.getD .dot)).Always
            fun o => ∀ q chunk, o ≠ .writeAll q chunk := ⟨by simp, fun _ => Prog.always_pure _⟩
        refine hmade.bind fun made => ?_
        rcases made with _ | _ | _
        · exact Prog.always_pure _
        · exact Prog.always_pure _
        · exact ⟨by simp, fun _ => Prog.always_pure _⟩

end

/-! ## The handlers -/

variable {debug : TransferFrame → String}

/-- `PutComplete`. -/
def IsPutComplete (frame : TransferFrame) : Prop := ∃ complete, frame = .putComplete complete

/-- `GetComplete`. -/
def IsGetComplete (frame : TransferFrame) : Prop := ∃ complete, frame = .getComplete complete

/-- `BlobGetReady`. -/
def IsBlobGetReady (frame : TransferFrame) : Prop := ∃ ready, frame = .blobGetReady ready

section

variable {single : Bool}

theorem serves_putComplete (size : UInt64) :
    Serves single IsPutComplete (send (.putComplete ⟨size⟩)) :=
  serves_send ⟨_, rfl⟩ rfl (by simp)

theorem serves_getComplete (size : UInt64) :
    Serves single IsGetComplete (send (.getComplete ⟨size⟩)) :=
  serves_send ⟨_, rfl⟩ rfl (by simp)

end

/-! ### Single uploads -/

/-- How the data loop is left: with everything received and nothing said; given up, after a refusal
or without a word; or with an error and nothing said. -/
def Looped : Except String (Option Nat) → Tally → Prop
  | .ok none, g => (∃ failure, g = ⟨[.error failure], false, true, []⟩) ∨ g = ⟨[], true, true, []⟩
  | _, g => g = .clean

/-- A refusal inside the loop. -/
theorem looped_refuse (failure : TransferFailure) :
    (refuse failure >>= fun sent =>
        match sent with
        | .error e => pure (.error e)
        | .ok _ => pure (.ok none) : ServeProg (Except String (Option Nat))).Tracks
      (Tally.next true) (fun _ _ => True) Looped .clean := by
  refine ⟨trivial, ?_⟩
  intro (sent : Bool)
  cases sent with
  | false => rfl
  | true => exact .inl ⟨failure, rfl⟩

/-- A frame that does not belong there. -/
theorem looped_foreign {frame : TransferFrame} (hf : isForeign frame = true)
    (he : ∀ failure, frame ≠ .error failure) (failure : TransferFailure) :
    (do let _ : Unit ← (ServeOp.took (some frame)).perform
        let _ : Bool ← (ServeOp.tell failure).perform
        pure (.ok none) : ServeProg (Except String (Option Nat))).Tracks
      (Tally.next true) (fun _ _ => True) Looped .clean := by
  have hnext : ∀ r, Tally.next true .clean (.took (some frame)) r = ⟨[], false, true, []⟩ := by
    intro r
    cases frame with
    | error failure => exact absurd rfl (he failure)
    | _ => first | rfl | cases hf
  refine ⟨trivial, fun r => ?_⟩
  rw [hnext r]
  refine ⟨trivial, ?_⟩
  intro (sent : Bool)
  cases sent with
  | false => exact .inr rfl
  | true => exact .inl ⟨failure, rfl⟩

theorem uploadLoop_looped (part : Path) (size received : Nat) (frames : List TransferFrame) :
    (uploadLoop debug part size received frames).Tracks
      (Tally.next true) (fun _ _ => True) Looped .clean := by
  induction frames generalizing received with
  | nil => exact ⟨trivial, fun _ => .inr rfl⟩
  | cons frame frames ih =>
      cases frame with
      | putChunk chunk =>
          refine ⟨trivial, fun _ => ?_⟩
          show Prog.Tracks _ _ _ Tally.clean _
          by_cases hs : size < received + chunk.length
          · simp only [Prog.bind, if_pos hs]
            exact looped_refuse _
          · simp only [Prog.bind, if_neg hs]
            refine ⟨trivial, ?_⟩
            intro (written : Bool)
            cases written with
            | false => exact .inr rfl
            | true => exact ih _
      | putComplete complete =>
          refine ⟨trivial, fun _ => ?_⟩
          show Prog.Tracks _ _ _ Tally.clean _
          by_cases hs : complete.size.toNat ≠ received ∨ received ≠ size
          · simp only [Prog.bind, if_pos hs]
            exact looped_refuse _
          · simp only [Prog.bind, if_neg hs]
            rfl
      | error failure => exact ⟨trivial, fun _ => .inr rfl⟩
      | _ => exact looped_foreign rfl (by simp) _

theorem settleUpload_served {context : ShellContext} {request : PutRequest}
    {prepared : PreparedPutDestination} {finished : Bool} {outcome : Option Nat} {g : Tally}
    (h : Looped (.ok outcome) g) :
    (settleUpload context request prepared finished outcome).Tracks
      (Tally.next true) (fun _ _ => True) (Served IsPutComplete) g := by
  cases outcome with
  | none =>
      -- the part file goes, and the tally stays as it is
      have hremove : Plain true (.blob (.fs (.removeFile prepared.part))) :=
        plain_fs (.inr (by simp))
      refine ⟨trivial, fun r => ?_⟩
      rw [hremove.next]
      exact .inr h
  | some received =>
      cases (show g = .clean from h)
      refine Serves.ite ?_ ?_
      · refine Serves.after (rename_plain _ _ _) fun renamed => ?_
        rcases renamed with _ | _ | _
        · exact Serves.after (discard_plain _) fun _ => serves_error _
        · exact Serves.after (discard_plain _) fun _ => serves_refuse _
        · exact Serves.after (chmod_plain _ _) fun _ => serves_putComplete _
      · refine Serves.after (discard_plain _) fun _ => ?_
        exact Serves.perform (fun _ => rfl) fun _ => serves_refuse _

theorem receiveUpload_serves (context : ShellContext) (request : PutRequest)
    (prepared : PreparedPutDestination) (frames : List TransferFrame) :
    Serves true IsPutComplete (receiveUpload debug context request prepared frames) := by
  refine Serves.perform (o := .stdin) (fun _ => rfl) fun available => Serves.ite ?_ ?_
  · refine Serves.after (send_plain rfl) fun ready => ?_
    cases ready with
    | error e => exact Serves.after (discard_plain _) fun _ => serves_error _
    | ok _ =>
        refine (uploadLoop_looped _ _ _ _).bind fun outcome g hg => ?_
        cases outcome with
        | error e => exact hg
        | ok outcome =>
            have hflush : Plain true (.flush prepared.part) := fun _ => rfl
            have hfinish : Plain true (.blob (.fs (.finish prepared.part))) :=
              plain_fs (.inr (by simp))
            refine ⟨trivial, fun r => ?_⟩
            rw [hflush.next]
            refine ⟨trivial, fun r' => ?_⟩
            rw [hfinish.next]
            exact settleUpload_served hg
  · exact Serves.after (discard_plain _) fun _ => serves_error _

theorem handleSinglePut_serves (context : ShellContext) (request : PutRequest)
    (frames : List TransferFrame) :
    Serves true IsPutComplete (handleSinglePut debug context request frames) := by
  refine Serves.after (preparePutDestination_plain _ _) fun prepared => ?_
  rcases prepared with _ | _ | prepared
  · exact serves_error _
  · dsimp only
    cases context.resolvePath request.path.toList with
    | error e => exact serves_error _
    | ok dest => exact serves_refuse _
  · refine Serves.perform (plain_fs (.inr (by simp))) fun created => Serves.ite ?_ ?_
    · exact receiveUpload_serves context request prepared frames
    · exact serves_error _

/-! ### Recursive uploads -/

theorem dropEntry_serves (prepared : PreparedPutDestination) (mismatch : Option TransferFailure) :
    Serves false IsPutComplete (Serve.dropEntry prepared mismatch) := by
  refine Serves.perform (fun _ => rfl) fun _ => ?_
  refine Serves.perform (plain_fs (.inl rfl)) fun _ => ?_
  refine Serves.after (discard_plain _) fun _ => ?_
  cases mismatch with
  | none => exact serves_error _
  | some failure => exact serves_refuse _

/-- The two loops, by the frames that are left. -/
theorem putLoop_putEntry_serves (context : ShellContext) (root : Path) (frames : List TransferFrame) :
    (∀ total, Serves false IsPutComplete (Serve.putLoop context root total frames))
      ∧ ∀ total header prepared received,
        Serves false IsPutComplete
          (Serve.putEntry context root total header prepared received frames) := by
  induction frames with
  | nil => exact ⟨fun _ => serves_error _, fun _ _ _ _ => dropEntry_serves _ _⟩
  | cons frame frames ih =>
      constructor
      · intro total
        cases frame with
        | newEntry header =>
            rw [Serve.putLoop]
            cases sanitizeRelativePath header.path.toList with
            | error reason => exact serves_error _
            | ok entryPath =>
                refine Serves.ite ?_ ?_
                · refine Serves.after (createDirAll_plain _ _) fun made => ?_
                  cases made with
                  | error e => exact serves_error _
                  | ok _ => exact Serves.after (chmod_plain _ _) fun _ => ih.1 total
                · refine Serves.after (preparePutDestination_plain _ _) fun prepared => ?_
                  rcases prepared with _ | _ | prepared
                  · exact serves_error _
                  · exact serves_refuse _
                  · refine Serves.perform (plain_fs (.inl rfl)) fun created => Serves.ite ?_ ?_
                    · refine Serves.perform (o := .stdin) (fun _ => rfl) fun available =>
                        Serves.ite ?_ ?_
                      · exact ih.2 total header prepared 0
                      · exact serves_error _
                    · exact serves_error _
        | putComplete complete => exact serves_putComplete _
        | _ => exact serves_error _
      · intro total header prepared received
        cases frame with
        | putChunk chunk =>
            rw [Serve.putEntry]
            split_ifs
            · exact dropEntry_serves _ _
            · refine Serves.perform (plain_fs (.inl rfl)) fun written => Serves.ite ?_ ?_
              · exact ih.2 total header prepared _
              · exact dropEntry_serves _ _
        | entryComplete complete =>
            rw [Serve.putEntry]
            split_ifs
            · exact dropEntry_serves _ _
            · refine Serves.perform (fun _ => rfl) fun _ => ?_
              refine Serves.perform (plain_fs (.inl rfl)) fun finished => Serves.ite ?_ ?_
              · refine Serves.after (rename_plain _ _ _) fun renamed => ?_
                rcases renamed with _ | _ | _
                · exact serves_error _
                · exact serves_error _
                · exact Serves.after (chmod_plain _ _) fun _ => ih.1 _
              · exact Serves.after (discard_plain _) fun _ => serves_error _
        | _ => exact dropEntry_serves _ _

theorem handleRecursivePut_serves (context : ShellContext) (request : PutRequest)
    (frames : List TransferFrame) :
    Serves false IsPutComplete (handleRecursivePut context request frames) := by
  unfold handleRecursivePut
  cases context.resolvePath request.path.toList with
  | error e => exact serves_error _
  | ok root =>
      refine Serves.after (createDirAll_plain _ _) fun made => ?_
      cases made with
      | error e => exact serves_error _
      | ok _ =>
          refine Serves.after (send_plain rfl) fun ready => ?_
          cases ready with
          | error e => exact serves_error _
          | ok _ => exact (putLoop_putEntry_serves context root frames).1 0

theorem handlePutRequest_serves (context : ShellContext) (request : PutRequest)
    (frames : List TransferFrame) :
    Serves (!request.recursive) IsPutComplete (handlePutRequest debug context request frames) := by
  unfold handlePutRequest
  cases hr : request.recursive with
  | true => exact handleRecursivePut_serves context request frames
  | false => exact handleSinglePut_serves context request frames

/-! ### Downloads -/

section

variable {single : Bool}

theorem streamReads_plain (broken : Bool) (totalSent : Nat) (reads : List (List UInt8)) :
    (streamReads broken totalSent reads).Always (Plain single) := by
  induction reads generalizing totalSent with
  | nil => exact Prog.always_pure _
  | cons chunk reads ih =>
      rw [streamReads]
      split_ifs
      · exact Prog.always_pure _
      · refine (send_plain rfl).bind fun sent => ?_
        cases sent with
        | error e => exact Prog.always_pure _
        | ok _ => exact ih _

theorem handleSingleGet_serves (context : ShellContext) (request : GetRequest) :
    Serves single IsGetComplete (handleSingleGet context request) := by
  have hfinish : ∀ size, Serves single IsGetComplete (finishGet context size) := by
    intro size
    refine Serves.ite (Serves.perform (fun _ => rfl) fun exited => ?_) (serves_getComplete _)
    rcases exited with _ | _ | _
    · exact serves_error _
    · exact Serves.perform (fun _ => rfl) fun _ => serves_refuse _
    · exact serves_getComplete _
  unfold handleSingleGet
  cases context.resolvePath request.path.toList with
  | error e => exact serves_error _
  | ok path =>
      refine Serves.perform (fun _ => rfl) fun probed => ?_
      rcases probed with _ | _ | size
      · exact serves_error _
      · exact serves_refuse _
      refine Serves.perform (fun _ => rfl) fun opened => ?_
      cases opened with
      | none => exact serves_error _
      | some source =>
          refine Serves.perform (o := .stdout) (fun _ => rfl) fun available => Serves.ite ?_ ?_
          · refine Serves.after (send_plain rfl) fun ready => ?_
            cases ready with
            | error e => exact serves_error _
            | ok _ =>
                refine Serves.after (streamReads_plain _ _ _) fun streamed => ?_
                cases streamed with
                | error e => exact serves_error _
                | ok _ => exact hfinish size
          · exact serves_error _

theorem streamFileContent_plain (path : Path) (totalSent : Nat) :
    (streamFileContent path totalSent).Always (Plain single) := by
  refine ⟨fun _ => rfl, fun opened => ?_⟩
  cases opened with
  | none => exact Prog.always_pure _
  | some source =>
      refine ⟨fun _ => rfl, fun available => Prog.always_guard ?_⟩
      refine (streamReads_plain _ _ _).bind fun streamed => ?_
      cases streamed with
      | error e => exact Prog.always_pure _
      | ok total =>
          refine (send_plain rfl).bind fun sent => ?_
          cases sent with
          | error e => exact Prog.always_pure _
          | ok _ => exact Prog.always_pure _

theorem sendEntries_plain (totalSent : Nat) (entries : List WalkEntry) :
    (sendEntries totalSent entries).Always (Plain single) := by
  induction entries generalizing totalSent with
  | nil => exact Prog.always_pure _
  | cons entry entries ih =>
      refine (send_plain rfl).bind fun sent => ?_
      cases sent with
      | error e => exact Prog.always_pure _
      | ok _ =>
          dsimp only
          split_ifs
          · exact ih _
          · refine (streamFileContent_plain _ _).bind fun streamed => ?_
            cases streamed with
            | error e => exact Prog.always_pure _
            | ok total => exact ih _

theorem sendTree_plain (context : ShellContext) (root : Path) :
    (sendTree context root).Always (Plain single) := by
  unfold sendTree
  split_ifs
  · refine ⟨fun _ => rfl, fun listed => ?_⟩
    rcases listed with _ | ⟨bytes, broken⟩
    · exact Prog.always_pure _
    · refine (sendEntries_plain _ _).bind fun sent => ?_
      cases sent with
      | error e => exact Prog.always_pure _
      | ok total =>
          dsimp only
          split_ifs
          · exact Prog.always_pure _
          · exact ⟨fun _ => rfl, fun _ => Prog.always_pure _⟩
  · refine ⟨fun _ => rfl, fun walked => ?_⟩
    cases walked with
    | none => exact Prog.always_pure _
    | some entries => exact sendEntries_plain _ _

theorem handleGetRequest_serves (context : ShellContext) (request : GetRequest) :
    Serves single IsGetComplete (handleGetRequest context request) := by
  refine Serves.ite ?_ (handleSingleGet_serves context request)
  unfold handleRecursiveGet
  cases context.resolvePath request.path.toList with
  | error e => exact serves_error _
  | ok root =>
      refine Serves.after (send_plain rfl) fun ready => ?_
      cases ready with
      | error e => exact serves_error _
      | ok _ =>
          refine Serves.after (sendTree_plain _ _) fun sent => ?_
          cases sent with
          | error e => exact serves_error _
          | ok total => exact serves_getComplete _

end

/-! ### Blobs -/

/-- Operations that send nothing final. -/
def BlobOp.Open : BlobOp → Prop
  | .send frame => isFinal frame = false
  | _ => True

theorem BlobOp.Silent.isOpen {o : BlobOp} (h : o.Silent) : o.Open := by
  cases o with
  | send frame => exact absurd h id
  | _ => trivial

theorem BlobOp.Quiet.isOpen {o : BlobOp} (h : o.Quiet) : o.Open := by
  cases o with
  | send frame => exact absurd h id
  | _ => trivial

theorem plain_blob {o : BlobOp} (h : o.Open) : Plain false (.blob o) := by
  cases o with
  | fs o => exact plain_fs (.inl rfl)
  | send frame => exact plain_send h
  | _ => exact fun _ => rfl

theorem lift_plain {α : Type} {p : BlobProg α} (hp : p.Always BlobOp.Open) :
    (BlobProg.lift p).Always (Plain false) :=
  hp.lift fun _ ho => plain_blob ho

theorem BlobProg.lift_bind {α β : Type} (p : BlobProg α) (f : α → BlobProg β) :
    BlobProg.lift (p >>= f) = BlobProg.lift p >>= fun a => BlobProg.lift (f a) :=
  Prog.lift_bind _ _ p f

theorem servePut_open (request : BlobPutRequest) (hash : Hash) (target : Path)
    (frames : List TransferFrame) : (servePut request hash target frames).Always BlobOp.Open := by
  refine ⟨rfl, fun ready => Prog.always_guard ?_⟩
  refine ((receiveBlob_silent request hash frames).mono fun _ => BlobOp.Silent.isOpen).bind
    fun received => ?_
  cases received with
  | error e => exact Prog.always_pure _
  | ok received =>
      refine ((exportReceived_quiet request hash target).mono fun _ => BlobOp.Quiet.isOpen).bind
        fun exported => ?_
      cases exported with
      | error e => exact Prog.always_pure _
      | ok _ => exact ⟨trivial, fun _ => Prog.always_pure _⟩

theorem putExpected_serves (context : ShellContext) (request : BlobPutRequest) (hash : Hash)
    (frames : List TransferFrame) :
    Serves false IsPutComplete (BlobProg.lift (putExpected context request hash frames)) := by
  unfold putExpected
  cases context.resolvePath request.path.toList with
  | error e => exact serves_error _
  | ok target =>
      refine Serves.perform (plain_fs (.inl rfl)) fun missing => ?_
      rcases missing with _ | _ | _
      · exact serves_error _
      · exact serves_refuse (targetExistsFailure target)
      · show Serves _ _ (BlobProg.lift (servePut request hash target frames >>= _))
        rw [BlobProg.lift_bind]
        refine Serves.after (lift_plain (servePut_open _ _ _ _)) fun served => ?_
        cases served with
        | error e => exact serves_error _
        | ok received =>
            exact serves_last "failed to send completion" ⟨⟨UInt64.ofNat received⟩, rfl⟩ rfl
              (by simp)

theorem addFiles_open (dir : Path) (collection : Collection) (entries : List (List Char)) :
    (addFiles dir collection entries).Always BlobOp.Open := by
  induction entries generalizing collection with
  | nil => exact Prog.always_pure _
  | cons relative rest ih =>
      refine ⟨trivial, fun len => ?_⟩
      cases len with
      | none => exact Prog.always_pure _
      | some len =>
          dsimp only [Prog.bind]
          split_ifs
          · exact Prog.always_pure _
          · refine ⟨trivial, fun granted => Prog.always_guard ⟨trivial, fun data => ?_⟩⟩
            cases data with
            | none => exact Prog.always_pure _
            | some data =>
                refine ⟨trivial, fun added => ?_⟩
                rcases added with _ | _ | hash
                · exact Prog.always_pure _
                · exact Prog.always_pure _
                · exact ⟨trivial, fun _ => ih _⟩

theorem addCollectionBlobs_open (root : Option Hash) (total : Nat) (blobs : List (List UInt8)) :
    (addCollectionBlobs root total blobs).Always BlobOp.Open := by
  induction blobs generalizing root total with
  | nil =>
      cases root with
      | none => exact Prog.always_pure _
      | some root => exact Prog.always_pure _
  | cons data rest ih =>
      refine ⟨trivial, fun added => ?_⟩
      rcases added with _ | _ | hash
      · exact Prog.always_pure _
      · exact ih _ _
      · exact ih _ _

theorem addDirectoryToStore_open (toBlobs : Collection → List (List UInt8)) (dir : Path) :
    (addDirectoryToStore toBlobs dir).Always BlobOp.Open := by
  refine ⟨trivial, fun entries => ?_⟩
  cases entries with
  | none => exact Prog.always_pure _
  | some entries =>
      refine (addFiles_open dir [] entries).bind fun added => ?_
      cases added with
      | error e => exact Prog.always_pure _
      | ok collection => exact addCollectionBlobs_open _ _ _

theorem handleBlobGetRequest_serves (toBlobs : Collection → List (List UInt8))
    (hashText : Hash → String) (context : ShellContext) (request : BlobGetRequest) :
    Serves false IsBlobGetReady (handleBlobGetRequest toBlobs hashText context request) := by
  unfold handleBlobGetRequest
  cases context.resolvePath request.path.toList with
  | error e => exact serves_error _
  | ok target =>
      refine Serves.perform (fun _ => rfl) fun found => ?_
      rcases found with _ | _ | _
      · exact serves_error _
      · exact serves_error _
      refine Serves.perform (fun _ => rfl) fun directory => ?_
      rcases directory with _ | _ | _
      · exact serves_error _
      · refine Serves.perform (fun _ => rfl) fun added => ?_
        rcases added with _ | ⟨_ | hash, size⟩
        · exact serves_error _
        · exact serves_error _
        · exact serves_send ⟨_, rfl⟩ rfl (by simp)
      · refine Serves.after (lift_plain (addDirectoryToStore_open _ _)) fun added => ?_
        rcases added with _ | ⟨hash, total⟩
        · exact serves_error _
        · exact serves_send ⟨_, rfl⟩ rfl (by simp)

/-! ## The stream -/

/-- Uploads and downloads, of files and of blobs. -/
def isTransfer : TransferFrame → Bool
  | .putRequest _ => true
  | .blobPutRequest _ => true
  | .getRequest _ => true
  | .blobGetRequest _ => true
  | _ => false

/-- Questions that move no data. -/
def isControl : TransferFrame → Bool
  | .cwdRequest _ => true
  | .existsRequest _ => true
  | .completionRequest _ => true
  | _ => false

/-- The upload of one file. -/
def isSingle : TransferFrame → Bool
  | .putRequest request => !request.recursive
  | _ => false

/-- The second frame completes what the first asks for. -/
def Completes : TransferFrame → TransferFrame → Prop
  | .putRequest _, frame => IsPutComplete frame
  | .blobPutRequest _, frame => IsPutComplete frame
  | .getRequest _, frame => IsGetComplete frame
  | .blobGetRequest _, frame => IsBlobGetReady frame
  | .cwdRequest _, frame => ∃ response, frame = .cwdResponse response
  | .existsRequest _, frame => ∃ response, frame = .existsResponse response
  | .completionRequest _, frame => ∃ response, frame = .completionResponse response
  | _, _ => False

/-- What a stream comes to, where `ok` is counted for a handler that ends with `Ok` and `failed` for
one that does not. -/
def Ended (done : TransferFrame → Prop) (ok failed : List Counter) (g : Tally) : Prop :=
  (∃ frame, done frame ∧ g = ⟨[frame], false, false, ok⟩)
    ∨ (∃ failure, g = ⟨[.error failure], false, true, ok⟩)
    ∨ g = ⟨[], true, true, ok⟩
    ∨ (∃ failure, g = ⟨[.error failure], false, false, failed⟩)
    ∨ g = ⟨[], true, false, failed⟩

section

variable {single : Bool} {done : TransferFrame → Prop} {handler : ServeProg (Except String Unit)}

/-- A failure is reported, or the peer is left without an answer. -/
theorem report_ended (ok : List Counter) (counter : Counter) (what : String) :
    (do Serve.record counter
        report what
        pure (.ok ()) : ServeProg (Except String Unit)).Tracks
      (Tally.next single) (fun _ _ => True) (fun _ => Ended done ok [counter]) .clean := by
  refine ⟨trivial, fun _ => ⟨trivial, fun failure => ⟨trivial, ?_⟩⟩⟩
  intro (told : Bool)
  cases told with
  | true => exact .inr (.inr (.inr (.inl ⟨failure, rfl⟩)))
  | false => exact .inr (.inr (.inr (.inr rfl)))

/-- A transfer whose handler has returned. -/
theorem settled_ended {result : Except String Unit} {g : Tally} (hg : Served done result g) :
    (serveTransfer (pure result)).Tracks (Tally.next single) (fun _ _ => True)
      (fun _ => Ended done [.completed] [.failed]) g := by
  cases result with
  | error what =>
      cases (show g = .clean from hg)
      exact report_ended _ _ _
  | ok _ =>
      refine ⟨trivial, fun _ => ?_⟩
      rcases hg with ⟨frame, hd, rfl⟩ | ⟨failure, rfl⟩ | rfl
      · exact .inl ⟨frame, hd, rfl⟩
      · exact .inr (.inl ⟨failure, rfl⟩)
      · exact .inr (.inr (.inl rfl))

theorem serveTransfer_ended (h : Serves single done handler) :
    (serveTransfer handler).Tracks (Tally.next single) (fun _ _ => True)
      (fun _ => Ended done [.completed] [.failed]) .clean :=
  h.bind fun _ _ hg => settled_ended hg

theorem serveControl_ended (h : Serves single done handler) :
    (serveControl handler).Tracks (Tally.next single) (fun _ _ => True)
      (fun _ => Ended done [] [.errors]) .clean := by
  refine h.bind fun result g hg => ?_
  cases result with
  | error what =>
      cases (show g = .clean from hg)
      exact report_ended _ _ _
  | ok _ =>
      rcases hg with ⟨frame, hd, rfl⟩ | ⟨failure, rfl⟩ | rfl
      · exact .inl ⟨frame, hd, rfl⟩
      · exact .inr (.inl ⟨failure, rfl⟩)
      · exact .inr (.inr (.inl rfl))

end

/-- A handler that has returned leaves what it leaves. -/
theorem returned_tracks {next : Tally → (o : ServeOp) → o.Answer → Tally} {Q : Tally → Prop} {g : Tally}
    {serve : ServeProg (Except String Unit)}
    (h : serve.Tracks next (fun _ _ => True) (fun _ => Q) g) :
    (returned serve).Tracks next (fun _ _ => True) (fun _ => Q) g :=
  h.bind fun _ _ hq => hq

variable {parseHash : String → HashText} {toBlobs : Collection → List (List UInt8)}
  {hashText : Hash → String} {context : ShellContext} {frames : List TransferFrame}

/-- The task of the stream panics over the hash of an upload. -/
def Unwinds (parseHash : String → HashText) : TransferFrame → Prop
  | .blobPutRequest request => parseHash request.hash = .panics
  | _ => False

/-- Then nothing follows. -/
theorem serveFirst_unwinds {first : TransferFrame} (h : Unwinds parseHash first) :
    serveFirst debug parseHash toBlobs hashText context frames (.ok first) = pure none := by
  cases first with
  | blobPutRequest request =>
      have hpanics : parseHash request.hash = .panics := h
      simp only [serveFirst, handleBlobPutRequest, hpanics]
      rfl
  | _ => exact absurd h id

/-- An upload that does not. -/
theorem serveBlobPut_ended {request : BlobPutRequest}
    (h : ¬ Unwinds parseHash (.blobPutRequest request)) :
    (serveFirst debug parseHash toBlobs hashText context frames (.ok (.blobPutRequest request))).Tracks
      (Tally.next false) (fun _ _ => True) (fun _ => Ended IsPutComplete [.completed] [.failed])
      .clean := by
  show (BlobProg.lift (handleBlobPutRequest parseHash context request frames) >>= _).Tracks _ _ _ _
  unfold handleBlobPutRequest
  cases hhash : parseHash request.hash with
  | panics => exact absurd hhash h
  | invalid =>
      have hfailed : Served IsPutComplete (.error "invalid hash") .clean := rfl
      exact returned_tracks (settled_ended hfailed)
  | hash hash =>
      dsimp only
      rw [BlobProg.lift_bind, Prog.bind_assoc]
      exact (putExpected_serves context request hash frames).bind fun _ _ hg =>
        returned_tracks (settled_ended hg)

/-- **Transfers.** -/
theorem serveFirst_transfer {first : TransferFrame} (h : isTransfer first = true)
    (hu : ¬ Unwinds parseHash first) :
    (serveFirst debug parseHash toBlobs hashText context frames (.ok first)).Tracks
      (Tally.next (isSingle first)) (fun _ _ => True)
      (fun _ => Ended (Completes first) [.completed] [.failed]) .clean := by
  cases first with
  | putRequest request =>
      exact returned_tracks (serveTransfer_ended (handlePutRequest_serves context request frames))
  | blobPutRequest request => exact serveBlobPut_ended hu
  | getRequest request =>
      exact returned_tracks (serveTransfer_ended (handleGetRequest_serves context request))
  | blobGetRequest request =>
      exact returned_tracks
        (serveTransfer_ended (handleBlobGetRequest_serves toBlobs hashText context request))
  | _ => cases h

theorem completionMatches_plain {single : Bool} (context : ShellContext) (dir : Path)
    (start : List Char) : (completionMatches context dir start).Always (Plain single) := by
  unfold completionMatches
  split_ifs
  all_goals exact ⟨fun _ => rfl, fun _ => Prog.always_pure _⟩

/-- **Control requests.** -/
theorem serveFirst_control {first : TransferFrame} (h : isControl first = true) :
    (serveFirst debug parseHash toBlobs hashText context frames (.ok first)).Tracks
      (Tally.next (isSingle first)) (fun _ _ => True)
      (fun _ => Ended (Completes first) [] [.errors]) .clean := by
  cases first with
  | cwdRequest request =>
      refine returned_tracks (serveControl_ended ?_)
      unfold handleCwdRequest
      cases context.cwd with
      | error e => exact serves_error _
      | ok cwd => exact serves_send ⟨_, rfl⟩ rfl (by simp)
  | existsRequest request =>
      refine returned_tracks (serveControl_ended ?_)
      unfold handleExistsRequest
      cases context.resolvePath request.path.toList with
      | error e => exact serves_error _
      | ok resolved =>
          refine Serves.perform (fun _ => rfl) fun found => ?_
          cases found with
          | error _ => exact serves_error _
          | ok found =>
              refine Serves.perform (fun _ => rfl) fun directory => ?_
              cases directory with
              | error _ => exact serves_error _
              | ok directory => exact serves_send ⟨_, rfl⟩ rfl (by simp)
  | completionRequest request =>
      refine returned_tracks (serveControl_ended ?_)
      unfold handleCompletionRequest
      cases context.resolvePath request.path.toList with
      | error e => exact serves_error _
      | ok resolved =>
          refine Serves.after (completionMatches_plain _ _ _) fun found => ?_
          exact serves_send ⟨_, rfl⟩ rfl (by simp)
  | _ => cases h

/-- **Frames that ask for nothing.** -/
theorem serveFirst_other {first : TransferFrame} (ht : isTransfer first = false)
    (hc : isControl first = false) :
    serveFirst debug parseHash toBlobs hashText context frames (.ok first)
      = (Serve.record .errors >>= fun _ => returned (refuse ⟨.unexpectedFrame, debug first⟩)) := by
  cases first with
  | putRequest _ => cases ht
  | blobPutRequest _ => cases ht
  | getRequest _ => cases ht
  | blobGetRequest _ => cases ht
  | cwdRequest _ => cases hc
  | existsRequest _ => cases hc
  | completionRequest _ => cases hc
  | _ => rfl

end Irosh
