import Irosh.Proof.BlobPut

/-!
# What a failed blob upload leaves behind

`handle_blob_put_request` looks whether the target exists before it receives anything,
and exports to the target itself. Receiving touches no file, so a failure there leaves
the target missing. The export of a collection starts by making the target directory
and never removes anything: from then on every failure, be it a blob that is no
collection, an unsafe entry name or a failed file, leaves the directory behind, and
the same request is refused when it is tried again.
-/

namespace Irosh

open UnixPath Wire BlobWorld

variable {f : StoreFormat}

/-- File system operations that remove nothing. -/
def FsOp.Grows : FsOp → Prop
  | .removeFile _ => False
  | .rename _ _ => False
  | _ => True

/-- The same, for blob operations. -/
def BlobOp.Grows : BlobOp → Prop
  | .fs o => o.Grows
  | _ => True

theorem answer_grows {o : BlobOp} {w : BlobWorld} (ho : o.Grows) {p : Path} (hp : p ∈ w.paths) :
    p ∈ (w.answer f o).2.paths := by
  cases o with
  | fs o =>
      cases o
      case removeFile => exact absurd ho id
      case rename => exact absurd ho id
      all_goals simp only [answer, answerFs]
      all_goals try split_ifs
      all_goals simp [hp]
  | send frame =>
      simp only [answer]
      split_ifs
      all_goals exact hp
  | addBytes blob =>
      simp only [answer]
      cases w.next
      all_goals exact hp
  | _ => exact hp

/-- A path that is there stays there. -/
theorem run_grows {α : Type} {p : BlobProg α} (hp : p.Always BlobOp.Grows) {w : BlobWorld}
    {q : Path} (hq : q ∈ w.paths) : q ∈ (run f p w).2.paths :=
  hp.eval_invariant (I := fun w' : BlobWorld => q ∈ w'.paths) (fun _ _ ho h => answer_grows ho h) hq

theorem exportItems_grows (target : Path) (collection : Collection) :
    (exportItems target collection).Always FsOp.Grows := by
  induction collection with
  | nil => exact Prog.always_pure _
  | cons entry collection ih =>
      obtain ⟨name, hash⟩ := entry
      rw [exportItems]
      cases sanitizeRelativePath name with
      | error reason => exact Prog.always_pure _
      | ok safeName =>
          have hparent : (createParent (target.join (parse safeName))).Always FsOp.Grows := by
            unfold createParent
            split
            · exact Prog.always_perform trivial
            · exact Prog.always_pure _
          refine hparent.bind fun made => Prog.always_guard ?_
          exact ⟨trivial, fun exported => Prog.always_guard ih⟩

theorem exportLoaded_grows (hash : Hash) (target : Path) :
    (exportLoaded hash target).Always BlobOp.Grows := by
  refine ⟨trivial, fun read => Prog.always_guard ⟨trivial, fun loaded => ?_⟩⟩
  cases loaded with
  | none => exact Prog.always_pure _
  | some collection => exact (exportItems_grows target collection).lift fun _ h => h

/-- The export of a collection leaves the target there, however it ends, once the directory was
made. -/
theorem exportStoredCollection_leaves {hash : Hash} {target : Path} {w w' : BlobWorld}
    {r : Except String Unit} (h : run f (exportStoredCollection hash target) w = (r, w'))
    (habsent : target ∉ w.paths) : target ∈ w'.paths ↔ w.next = .works := by
  unfold exportStoredCollection at h
  rw [run_createDirAll] at h
  by_cases hn : w.next = .works
  · rw [if_pos hn, if_pos rfl] at h
    have hthere : target ∈ w.paths ++ target.ancestors :=
      List.mem_append_right _ target.self_mem_ancestors
    have hstays := run_grows (f := f) (exportLoaded_grows hash target)
      (w := { w.after with paths := w.paths ++ target.ancestors }) hthere
    rw [congrArg Prod.snd h] at hstays
    exact ⟨fun _ => hn, fun _ => hstays⟩
  · rw [if_neg hn] at h
    cases h
    exact ⟨fun hin => absurd hin habsent, fun h => absurd h hn⟩

/-- A failed export of a single file leaves the target there if it got halfway. -/
theorem exportRaw_leaves {hash : Hash} {target : Path} {w w' : BlobWorld} {e : String}
    (h : run f (exportRaw hash target) w = (.error e, w')) (habsent : target ∉ w.paths) :
    target ∈ w'.paths ↔ w.next = .halfway := by
  unfold exportRaw at h
  rw [run_exportBlob] at h
  by_cases hc : w.next = .works ∧ (w.lookup f hash).isSome
  · rw [decide_eq_true hc] at h
    cases h
  · rw [decide_eq_false hc, run_pure, Prod.mk.injEq] at h
    rw [← h.2]
    simp only [answerFs, if_neg hc]
    by_cases hn : w.next = .halfway
    · rw [if_pos hn]
      exact ⟨fun _ => hn, fun _ => by simp⟩
    · rw [if_neg hn]
      exact ⟨fun hin => absurd hin habsent, fun h => absurd h hn⟩

/-- Whether the first operation of the export leaves something at the target: the directory of a
collection, or a file that is not complete. -/
def LeavesTarget (request : BlobPutRequest) (w : BlobWorld) : Prop :=
  if isHashSeq request.format then w.next = .works else w.next = .halfway

theorem exportReceived_leaves {request : BlobPutRequest} {hash : Hash} {target : Path}
    {w w' : BlobWorld} {e : String}
    (h : run f (exportReceived request hash target) w = (.error e, w'))
    (habsent : target ∉ w.paths) : target ∈ w'.paths ↔ LeavesTarget request w := by
  unfold exportReceived at h
  unfold LeavesTarget
  by_cases hformat : isHashSeq request.format = true
  · rw [if_pos hformat] at h ⊢
    exact exportStoredCollection_leaves h habsent
  · rw [if_neg hformat] at h ⊢
    exact exportRaw_leaves h habsent

/-- The upload gets as far as the export, in the world `w₁`. -/
def ExportBegins (f : StoreFormat) (request : BlobPutRequest) (hash : Hash)
    (frames : List TransferFrame) (w w₁ : BlobWorld) : Prop :=
  w.next = .works ∧ ∃ n, run f (receiveBlob request hash frames) (w.ready request) = (.ok n, w₁)

/-- What is at the target after a failure between the two answers. -/
theorem servePut_leaves {request : BlobPutRequest} {hash : Hash} {target : Path}
    {frames : List TransferFrame} {w w' : BlobWorld} {e : String}
    (h : run f (servePut request hash target frames) w = (.error e, w'))
    (habsent : target ∉ w.paths) :
    target ∈ w'.paths ↔ ∃ w₁, ExportBegins f request hash frames w w₁ ∧ LeavesTarget request w₁ := by
  rw [servePut_run] at h
  by_cases hready : w.next = .works
  · rw [if_pos hready, putBlob_run] at h
    have hpaths := (run_silent (f := f) (receiveBlob_silent request hash frames) (w.ready request)).2
    cases hr : run f (receiveBlob request hash frames) (w.ready request) with
    | mk received w₁ =>
        rw [hr] at h hpaths
        have habsent₁ : target ∉ w₁.paths := by
          rw [hpaths]
          exact habsent
        cases received with
        | error e' =>
            cases h
            refine ⟨fun hin => absurd hin habsent₁, ?_⟩
            rintro ⟨w₂, ⟨-, n, hn⟩, -⟩
            rw [hr] at hn
            cases hn
        | ok n =>
            dsimp only at h
            cases he : run f (exportReceived request hash target) w₁ with
            | mk exported w₂ =>
                rw [he] at h
                cases exported with
                | ok u => cases h
                | error e' =>
                    cases h
                    rw [exportReceived_leaves he habsent₁]
                    constructor
                    · intro hleaves
                      exact ⟨w₁, ⟨hready, n, hr⟩, hleaves⟩
                    · rintro ⟨w₃, ⟨-, m, hm⟩, hleaves⟩
                      rw [hr] at hm
                      cases hm
                      exact hleaves
  · rw [if_neg hready] at h
    cases h
    exact ⟨fun hin => absurd hin habsent, fun ⟨_, hbegin, _⟩ => absurd hbegin.1 hready⟩

/-- A request whose target is missing is not refused because of it. -/
theorem not_refused_of_absent {parseHash : String → HashText} {context : ShellContext}
    {request : BlobPutRequest} {hash : Hash} {target : Path} {w : BlobWorld}
    (hhash : parseHash request.hash = .hash hash)
    (hresolve : context.resolvePath request.path.toList = .ok target) (habsent : target ∉ w.paths)
    (hsent : w.sent = []) (frames : List TransferFrame) :
    .error (targetExistsFailure target)
      ∉ (run f (handleBlobPutRequest parseHash context request frames) w).2.sent := by
  rw [handleBlobPutRequest_run hhash]
  dsimp only
  by_cases hprobe : w.next = .works
  · rw [putExpected_run hresolve hprobe habsent, servePut_run]
    by_cases hready : w.after.next = .works
    · have hsilent := putBlob_silent (f := f) request hash target frames (w.after.ready request)
      rw [if_pos hready]
      cases hp : run f (putBlob request hash target frames) (w.after.ready request) with
      | mk put w₂ =>
          rw [hp] at hsilent
          dsimp only at hsilent
          cases put with
          | error e =>
              dsimp only
              rw [hsilent]
              simp [ready, hsent]
          | ok n =>
              dsimp only [completePut]
              rw [run_send]
              split
              all_goals simp [hsilent, ready, hsent]
    · rw [if_neg hready]
      simp [hsent]
  · rw [putExpected, hresolve]
    dsimp only
    rw [run_pathMissing, if_neg hprobe]
    simp [hsent]

namespace Proof

/-- **What a failed upload leaves at its target.** If anything fails after the target was found
missing and before the last answer is written, the target is still missing, and the request may be
tried again, exactly if the export has not begun or its first operation has left nothing there. -/
theorem failed_put_absent_iff (f : StoreFormat) (parseHash : String → HashText)
    (context : ShellContext) (request : BlobPutRequest) (frames : List TransferFrame)
    (w w' : BlobWorld) (hash : Hash) (target : Path) (e : String)
    (hhash : parseHash request.hash = .hash hash)
    (hresolve : context.resolvePath request.path.toList = .ok target)
    (hprobe : w.next = .works) (habsent : target ∉ w.paths)
    (hfail : run f (servePut request hash target frames) w.after = (.error e, w')) :
    run f (handleBlobPutRequest parseHash context request frames) w = (some (.error e), w')
      ∧ ((target ∉ w'.paths
          ∧ ∀ (w₂ : BlobWorld) (again : List TransferFrame), w₂.paths = w'.paths → w₂.sent = [] →
            .error (targetExistsFailure target)
              ∉ (run f (handleBlobPutRequest parseHash context request again) w₂).2.sent)
        ↔ ¬ ∃ w₁, ExportBegins f request hash frames w.after w₁ ∧ LeavesTarget request w₁) := by
  constructor
  · rw [handleBlobPutRequest_run hhash, putExpected_run hresolve hprobe habsent, hfail]
  · rw [← servePut_leaves hfail habsent]
    constructor
    · exact fun h => h.1
    · intro hmissing
      refine ⟨hmissing, fun w₂ again hpaths hsent => ?_⟩
      exact not_refused_of_absent hhash hresolve (by rwa [hpaths]) hsent again

/-- The stream breaks off. -/
theorem failed_put_absent_broken_stream :
    let request : BlobPutRequest := ⟨"/t", "root", "hashseq", 10⟩
    let frames : List TransferFrame := [.putChunk (framed [1, 97])]
    let w : BlobWorld := ⟨[], [], [], [], fun _ => .works, 0⟩
    ∃ e w', run tinyFormat (handleBlobPutRequest (fun _ => .hash [1, 97]) (.stateless none) request
          frames) w = (some (.error e), w')
      ∧ ((parse ['/', 't'] ∉ w'.paths
          ∧ ∀ (w₂ : BlobWorld) (again : List TransferFrame), w₂.paths = w'.paths → w₂.sent = [] →
            .error (targetExistsFailure (parse ['/', 't'])) ∉ (run tinyFormat (handleBlobPutRequest
              (fun _ => .hash [1, 97]) (.stateless none) request again) w₂).2.sent)
        ↔ ¬ ∃ w₁, ExportBegins tinyFormat request [1, 97] frames w.after w₁
          ∧ LeavesTarget request w₁) :=
  ⟨_, _, failed_put_absent_iff tinyFormat (fun _ => .hash [1, 97]) (.stateless none)
    ⟨"/t", "root", "hashseq", 10⟩ [.putChunk (framed [1, 97])]
    ⟨[], [], [], [], fun _ => .works, 0⟩ _ [1, 97] (parse ['/', 't']) _ rfl rfl rfl
    List.not_mem_nil rfl⟩

/-- The root of a collection is sent without the names: nothing is exported, but the directory
stays, and the next request is refused. -/
theorem failed_put_leaves_directory :
    let request : BlobPutRequest := ⟨"/t", "root", "hashseq", 10⟩
    let frames : List TransferFrame := [.putChunk (framed [1, 97]), .putComplete ⟨10⟩]
    let w : BlobWorld := ⟨[], [], [], [], fun _ => .works, 0⟩
    ∃ e w', run tinyFormat (servePut request [1, 97] (parse ['/', 't']) frames) w.after
        = (.error e, w')
      ∧ run tinyFormat (handleBlobPutRequest (fun _ => .hash [1, 97]) (.stateless none) request
          frames) w = (some (.error e), w')
      ∧ parse ['/', 't'] ∈ w'.paths
      ∧ .error (targetExistsFailure (parse ['/', 't']))
        ∈ (run tinyFormat (handleBlobPutRequest (fun _ => .hash [1, 97]) (.stateless none) request
          frames) ⟨w'.store, [], w'.paths, [], fun _ => .works, 0⟩).2.sent := by
  exact ⟨_, _, rfl, rfl, by decide, List.mem_singleton_self _⟩

end Proof

end Irosh
