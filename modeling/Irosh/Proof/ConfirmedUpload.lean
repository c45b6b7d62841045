import Irosh.Proof.WholeUpload
import Irosh.Proof.RecursiveUpload
import Irosh.Transfer.UploadFile

/-!
# A confirmed upload is on disk

The client's `upload_file_with_progress` and the server's `handle_put_request`, where each has
read what the other has written, or the beginning of it. If the client is told that all
went well, the destination holds what was read of the local file, to its end. There is one
exception: a write that was accepted and then lost, of which the unread flush was told.

The server writes `PutComplete` in one place only, behind the rename. That is read off the
handler; what is on disk at that place is known from the upload itself.
-/

namespace Irosh

open UnixPath Wire Serve

/-! ## The client -/

namespace LocalWorld

variable {w w' : LocalWorld}

/-- A frame was written, if the client goes on. -/
theorem send_ok {frame : TransferFrame} (h : run (Client.send frame) w = (.ok (), w')) :
    w' = w.wrote [frame] := by
  have hanswer : run (Client.send frame) w
      = (if w.writes frame then .ok () else .error "stream write failed",
        if w.writes frame then w.wrote [frame] else w) := rfl
  rw [hanswer] at h
  split at h
  · exact (Prod.mk.inj h).2.symm
  · cases h

/-- What was sent of a file that could be read. -/
theorem sendReads_ok {broken : Bool} {reads : List (List UInt8)} {total n : Nat}
    (h : run (Client.sendReads broken total reads) w = (.ok n, w')) :
    w' = w.wrote ((reads.takeWhile fun chunk => chunk.length ≠ 0).map .putChunk)
      ∧ n = total + (reads.takeWhile fun chunk => chunk.length ≠ 0).flatten.length
      ∧ (broken = false ∨ ∃ chunk ∈ reads, chunk = []) := by
  induction reads generalizing w total with
  | nil =>
      cases broken with
      | true => cases h
      | false =>
          cases h
          exact ⟨(wrote_nil _).symm, rfl, .inl rfl⟩
  | cons chunk rest ih =>
      rw [Client.sendReads] at h
      by_cases hempty : chunk.length = 0
      · rw [if_pos hempty] at h
        cases h
        rw [List.takeWhile_cons_of_neg (by simpa using hempty)]
        exact ⟨(wrote_nil _).symm, rfl, .inr ⟨chunk, List.mem_cons_self, List.length_eq_zero_iff.mp hempty⟩⟩
      · rw [if_neg hempty] at h
        obtain ⟨u, w₁, hsend, hrest⟩ := Prog.eval_bind_ok h fun e => rfl
        rw [send_ok hsend] at hrest
        obtain ⟨hw', hn, hend⟩ := ih hrest
        rw [List.takeWhile_cons_of_pos (by simpa using hempty), hw', wrote_wrote]
        refine ⟨rfl, ?_, ?_⟩
        · rw [hn, List.flatten_cons, List.length_append]
          omega
        · rcases hend with hwhole | ⟨c, hc, hnil⟩
          · exact .inl hwhole
          · exact .inr ⟨c, List.mem_cons_of_mem _ hc, hnil⟩

end LocalWorld

/-- The file was read to its end. -/
def Source.ReadToEnd (source : Source) : Prop := source.broken = false ∨ ∃ chunk ∈ source.reads, chunk = []

/-- The last frame was the confirmation. -/
theorem confirm_ok {sent : Nat} {replies : List TransferFrame} (h : Client.confirm sent replies = .ok ()) :
    ∃ rest, replies = .putComplete ⟨UInt64.ofNat sent⟩ :: rest := by
  unfold Client.confirm at h
  split at h
  · cases h
  · rename_i complete rest
    split at h
    · rename_i hsize
      refine ⟨rest, ?_⟩
      rw [← hsize]
    · cases h
  · cases h
  · cases h

/-- **What an upload that went well has sent and read.** -/
theorem uploadFile_ok {localPath remote : Path} {opened : Bool} {metadata : Option FileMeta}
    {replies : List TransferFrame} {w w' : LocalWorld}
    (h : LocalWorld.run (Client.uploadFileWithProgress localPath remote opened metadata replies) w
      = (.ok (), w')) :
    ∃ source told ready rest, w.files localPath = some source ∧ metadata = some told ∧ source.ReadToEnd
      ∧ w'.sent = w.sent ++ .putRequest (Client.uploadFileRequest remote told) ::
        (source.chunks.map .putChunk ++ [.putComplete ⟨UInt64.ofNat source.bytes.length⟩])
      ∧ replies = .putReady ready :: .putComplete ⟨UInt64.ofNat source.bytes.length⟩ :: rest := by
  unfold Client.uploadFileWithProgress at h
  split at h
  · cases h
  · split at h
    · rw [LocalWorld.run_openFile] at h
      cases hfile : w.files localPath with
      | none =>
          rw [hfile] at h
          cases h
      | some source =>
          rw [hfile] at h
          cases metadata with
          | none => cases h
          | some told =>
              obtain ⟨u, w₁, hsend, hrest⟩ := Prog.eval_bind_ok h fun e => rfl
              have hw₁ := LocalWorld.send_ok hsend
              dsimp only at hrest
              split at hrest
              · cases hrest
              · rename_i ready replies'
                split at hrest
                · obtain ⟨n, w₂, hreads, hrest₂⟩ := Prog.eval_bind_ok hrest fun e => rfl
                  obtain ⟨hw₂, hn, hend⟩ := LocalWorld.sendReads_ok hreads
                  obtain ⟨u', w₃, hsend', hrest₃⟩ := Prog.eval_bind_ok hrest₂ fun e => rfl
                  have hw₃ := LocalWorld.send_ok hsend'
                  obtain ⟨hconfirm, hlast⟩ :=
                    Prod.mk.inj (show (Client.confirm n replies', w₃) = (.ok (), w') from hrest₃)
                  obtain ⟨rest, hreplies⟩ := confirm_ok hconfirm
                  have hbytes : n = source.bytes.length := by
                    rw [hn, Nat.zero_add]
                    rfl
                  refine ⟨source, told, ready, rest, rfl, rfl, hend, ?_, ?_⟩
                  · rw [← hlast, hw₃, hw₂, hw₁, LocalWorld.wrote_wrote, LocalWorld.wrote_wrote, ← hbytes]
                    rfl
                  · rw [hreplies, hbytes]
                · cases hrest
              · cases hrest
              · cases hrest
    · cases h

/-! ## The frames that the server writes -/

namespace PutExchange

variable {α β : Type} {x : PutExchange}

theorem run_bind (p : ServeProg α) (k : α → ServeProg β) :
    run (p >>= k) x = run (k (run p x).1) (run p x).2 := Prog.eval_bind p k x

/-- It is the same run, with a record of the frames. -/
theorem run_world (p : ServeProg α) :
    (run p x).1 = (UploadWorld.run p x.world).1 ∧ (run p x).2.world = (UploadWorld.run p x.world).2 := by
  induction p generalizing x with
  | pure a => exact ⟨rfl, rfl⟩
  | op o k ih =>
      have hsame : (answer o x).1 = (UploadWorld.answer o x.world).1
          ∧ (answer o x).2.world = (UploadWorld.answer o x.world).2 := by
        have hrecord :
            ∀ (written : Bool) (frame : TransferFrame), (x.record written frame).world = x.world := by
          intro written frame
          cases written <;> rfl
        cases o with
        | blob o =>
            cases o with
            | send frame => exact ⟨rfl, hrecord _ _⟩
            | _ => exact ⟨rfl, rfl⟩
        | tell failure => exact ⟨rfl, hrecord _ _⟩
        | _ => exact ⟨rfl, rfl⟩
      have hrest := @ih (answer o x).1 (answer o x).2
      rw [hsame.2] at hrest
      rw [hsame.1] at hrest
      have hstep : run (Prog.op o k) x = run (k (UploadWorld.answer o x.world).1) (answer o x).2 :=
        congrArg (fun r => run (k r) (answer o x).2) hsame.1
      rw [hstep]
      exact hrest

/-- A file system program writes no frames. -/
theorem run_serve (p : FsProg α) :
    run (FsProg.serve p) x
      = ((Disk.run p x.world.disk).1, { x with world.disk := (Disk.run p x.world.disk).2 }) := by
  induction p generalizing x with
  | pure a => rfl
  | op o k ih => exact ih _

theorem run_createFile (p : Path) (k : Bool → ServeProg α) :
    run (do let created : Bool ← (ServeOp.blob (.fs (.createFile p))).perform; k created) x
      = run (k (Disk.answer (.createFile p) x.world.disk).1)
          { x with world.disk := (Disk.answer (.createFile p) x.world.disk).2 } := rfl

theorem run_stdin (k : Bool → ServeProg α) :
    run (do let available : Bool ← ServeOp.stdin.perform; k available) x = run (k true) x := rfl

theorem run_flush (p : Path) (k : Bool → ServeProg α) :
    run (do let flushed : Bool ← (ServeOp.flush p).perform; k flushed) x
      = run (k true) { x with world.disk := x.world.disk.flush } := rfl

theorem run_finish (p : Path) (k : Bool → ServeProg α) :
    run (do let finished : Bool ← (ServeOp.blob (.fs (.finish p))).perform; k finished) x
      = run (k (x.world.disk.faults.finish && !x.world.disk.lost))
          { x with world.disk := { x.world.disk.settle with lost := false } } := rfl

theorem run_send (frame : TransferFrame) :
    run (Serve.send frame) x = (if x.world.sends frame then .ok () else .error "stream write failed",
      x.record (x.world.sends frame) frame) := rfl

/-- Nothing has been confirmed yet. -/
def Unconfirmed (x : PutExchange) : Prop := ∀ c, .putComplete c ∉ x.sent

end PutExchange

/-- An operation that confirms nothing. -/
def ServeOp.Unconfirming (o : ServeOp) : Prop := ∀ c, o ≠ .blob (.send (.putComplete c))

namespace PutExchange

variable {α : Type} {x : PutExchange}

theorem Unconfirmed.record (h : x.Unconfirmed) (written : Bool) {frame : TransferFrame}
    (hframe : ∀ c, frame ≠ .putComplete c) : (x.record written frame).Unconfirmed := by
  cases written with
  | false => exact h
  | true =>
      intro c hmem
      rcases List.mem_append.mp hmem with hold | hlast
      · exact h c hold
      · exact hframe c (List.mem_singleton.mp hlast).symm

/-- **Only a confirmation confirms.** -/
theorem Unconfirmed.run {p : ServeProg α} (h : x.Unconfirmed) (hp : p.Always ServeOp.Unconfirming) :
    (run p x).2.Unconfirmed := by
  refine hp.eval_invariant (fun o x₁ ho h₁ => ?_) h
  cases o with
  | blob o =>
      cases o with
      | send frame => exact h₁.record _ fun c hc => ho c (by rw [hc])
      | _ => exact h₁
  | tell failure => exact h₁.record _ fun c hc => by cases hc
  | _ => exact h₁

end PutExchange

section Unconfirming

variable {debug : TransferFrame → String}

theorem refuse_unconfirming (failure : TransferFailure) : (refuse failure).Always ServeOp.Unconfirming :=
  ⟨(fun c hc => by cases hc), fun _ => trivial⟩

theorem discard_unconfirming (p : Path) : (discard p).Always ServeOp.Unconfirming :=
  ⟨(fun c hc => by cases hc), fun _ => trivial⟩

/-- The data loop confirms nothing. -/
theorem uploadLoop_unconfirming (part : Path) (size received : Nat) (frames : List TransferFrame) :
    (uploadLoop debug part size received frames).Always ServeOp.Unconfirming := by
  induction frames generalizing received with
  | nil => exact ⟨(fun c hc => by cases hc), fun _ => trivial⟩
  | cons frame frames ih =>
      cases frame with
      | putChunk chunk =>
          refine ⟨(fun c hc => by cases hc), fun _ => ?_⟩
          show Prog.Ensures _ _ _
          by_cases hs : size < received + chunk.length
          · simp only [Prog.bind, if_pos hs]
            refine (refuse_unconfirming _).bind fun sent => ?_
            cases sent with
            | error e => trivial
            | ok u => trivial
          · simp only [Prog.bind, if_neg hs]
            refine ⟨(fun c hc => by cases hc), ?_⟩
            intro (written : Bool)
            cases written with
            | false => trivial
            | true => exact ih _
      | putComplete complete =>
          refine ⟨(fun c hc => by cases hc), fun _ => ?_⟩
          show Prog.Ensures _ _ _
          by_cases hs : complete.size.toNat ≠ received ∨ received ≠ size
          · simp only [Prog.bind, if_pos hs]
            refine (refuse_unconfirming _).bind fun sent => ?_
            cases sent with
            | error e => trivial
            | ok u => trivial
          · simp only [Prog.bind, if_neg hs]
            trivial
      | error failure => exact ⟨(fun c hc => by cases hc), fun _ => trivial⟩
      | _ => exact ⟨(fun c hc => by cases hc), fun _ => ⟨(fun c hc => by cases hc), fun _ => trivial⟩⟩

/-- **The confirmation stands behind the rename.** -/
theorem settleUpload_confirms (context : ShellContext) (request : PutRequest) {dest part : Path}
    {data : List UInt8} {x : PutExchange} {finished : Bool} {outcome : Option Nat}
    {c : TransferComplete} (hx : x.Unconfirmed) (hpart : x.world.disk.files part = some data)
    (hc : .putComplete c
      ∈ (PutExchange.run (settleUpload context request ⟨dest, part⟩ finished outcome) x).2.sent) :
    outcome.isSome ∧ finished = true ∧ x.world.disk.faults.rename = true := by
  cases outcome with
  | none => exact absurd hc (hx.run ((discard_unconfirming part).bind fun _ => Prog.always_pure _) c)
  | some received =>
      cases finished with
      | false =>
          refine absurd hc (hx.run ?_ c)
          refine (discard_unconfirming part).bind fun _ => ?_
          exact ⟨(fun c hc => by cases hc), fun failure => refuse_unconfirming _⟩
      | true =>
          refine ⟨rfl, rfl, ?_⟩
          by_contra hr
          have hr : x.world.disk.faults.rename = false := Bool.eq_false_iff.mpr hr
          have hrename : Disk.run (context.rename part dest) x.world.disk
              = (context.report "rename" false, x.world.disk) := by
            rw [ShellContext.rename, Disk.run_rename, hr, hpart]
            rfl
          rw [settleUpload, if_pos rfl, PutExchange.run_bind, PutExchange.run_serve, hrename] at hc
          have hreport : context.report "rename" false = .ok false
              ∨ ∃ e, context.report "rename" false = .error e := by
            cases context with
            | live => exact .inl rfl
            | stateless => exact .inr ⟨_, rfl⟩
          rcases hreport with hok | ⟨e, herror⟩
          · rw [hok] at hc
            refine absurd hc (hx.run ?_ c)
            exact (discard_unconfirming part).bind fun _ => refuse_unconfirming _
          · rw [herror] at hc
            refine absurd hc (hx.run ?_ c)
            exact (discard_unconfirming part).bind fun _ => Prog.always_pure _

/-- A confirmation comes after the client was told to begin, the data loop ended well and the destination
was there. -/
theorem receiveUpload_confirmed (context : ShellContext) (request : PutRequest) (frames : List TransferFrame)
    {dest part : Path} {x : PutExchange} {c : TransferComplete} (hne : part ≠ dest)
    (ho : x.world.disk.Opened part) (hdest : x.world.disk.files dest = none) (hx : x.Unconfirmed)
    (hc : .putComplete c
      ∈ (PutExchange.run (receiveUpload debug context request ⟨dest, part⟩ frames) x).2.sent) :
    x.world.ready = true ∧ (∃ outcome w₁, outcome.isSome
        ∧ Left part request.size.toNat 0 frames x.world (.ok outcome) w₁)
      ∧ ∃ data, (PutExchange.run (receiveUpload debug context request ⟨dest, part⟩ frames)
        x).2.world.disk.settle.files
        dest = some data := by
  rw [receiveUpload, PutExchange.run_stdin, if_pos rfl, PutExchange.run_bind, PutExchange.run_send] at hc ⊢
  cases hready : x.world.ready with
  | false =>
      have hsends : x.world.sends (.putReady ⟨request.size, request.mode⟩) = false := hready
      rw [hsends, if_neg Bool.false_ne_true] at hc
      refine absurd hc (hx.run ?_ c)
      exact (discard_unconfirming part).bind fun _ => Prog.always_pure _
  | true =>
      have hsends : x.world.sends (.putReady ⟨request.size, request.mode⟩) = true := hready
      rw [hsends, if_pos rfl] at hc ⊢
      dsimp only at hc ⊢
      rw [PutExchange.run_bind] at hc ⊢
      have hx₁ : (x.record true (.putReady ⟨request.size, request.mode⟩)).Unconfirmed :=
        hx.record true fun c hc => by cases hc
      have hx₂ : (PutExchange.run (uploadLoop debug part request.size.toNat 0 frames)
          (x.record true (.putReady ⟨request.size, request.mode⟩))).2.Unconfirmed :=
        hx₁.run (uploadLoop_unconfirming part request.size.toNat 0 frames)
      obtain ⟨hresult, hworld⟩ := PutExchange.run_world
        (x := x.record true (.putReady ⟨request.size, request.mode⟩))
        (uploadLoop debug part request.size.toNat 0 frames)
      have hloop : ∃ result w₁, UploadWorld.run (uploadLoop debug part request.size.toNat 0 frames)
          (x.record true (.putReady ⟨request.size, request.mode⟩)).world = (result, w₁)
          ∧ Left part request.size.toNat 0 frames x.world result w₁ := uploadLoop_left frames ho
      obtain ⟨result, w₁, hrun, hleft⟩ := hloop
      rw [hrun] at hresult hworld
      rw [hresult] at hc ⊢
      cases result with
      | error e => exact absurd hc (hx₂ c)
      | ok outcome =>
          dsimp only at hc hx₂ hworld hleft ⊢
          rw [PutExchange.run_flush, PutExchange.run_finish] at hc ⊢
          -- what the flush and the end of the helper leave
          obtain ⟨hfiles, -, hcontent, hopened, -⟩ := Disk.flush_spec w₁.disk part
          obtain ⟨hpipe, hpart, -, hothers⟩ := Disk.settle_spec (hopened (hleft.only.opened ho))
          have hdest₂ : w₁.disk.flush.settle.files dest = none := by
            rw [hothers dest (Ne.symm hne), hfiles, hleft.only.files dest (Ne.symm hne), hdest]
          rw [hworld] at hc ⊢
          have hconfirms := settleUpload_confirms context request (x := { (PutExchange.run
              (uploadLoop debug part request.size.toNat 0 frames)
              (x.record true (.putReady ⟨request.size, request.mode⟩))).2 with
            world := { w₁ with disk := { w₁.disk.flush.settle with lost := false } } }) hx₂ hpart hc
          obtain ⟨w', hw', hpipe', hend⟩ := run_settleUpload
            (w := { w₁ with disk := { w₁.disk.flush.settle with lost := false } }) context request
              hne hpipe hpart
            hdest₂ (w₁.disk.flush.faults.finish && !w₁.disk.flush.lost) outcome
          refine ⟨rfl, ⟨outcome, w₁, hconfirms.1, hleft⟩, ?_⟩
          rw [(PutExchange.run_world _).2]
          rcases hend with ⟨-, -, -, hput⟩ | ⟨hnot, -⟩
          · have hleftover : (UploadWorld.run (settleUpload context request ⟨dest, part⟩
                (w₁.disk.flush.faults.finish && !w₁.disk.flush.lost) outcome)
                { w₁ with disk := { w₁.disk.flush.settle with lost := false } }).2.disk.settle.files dest
                = some (w₁.disk.flush.content part) := by
              rw [hw', Disk.settle_of_idle hpipe']
              exact hput
            exact ⟨_, hleftover⟩
          · exact absurd hconfirms hnot

/-- **What is on disk when a confirmation has been written**, once the part file is open. -/
theorem receiveUpload_confirms (context : ShellContext) (request : PutRequest) (frames : List TransferFrame)
    {dest part : Path} {x : PutExchange} {c : TransferComplete} (hne : part ≠ dest)
    (ho : x.world.disk.Opened part) (hempty : x.world.disk.content part = [])
    (hlost : x.world.disk.lost = false) (hdest : x.world.disk.files dest = none) (hx : x.Unconfirmed)
    (hc : .putComplete c
      ∈ (PutExchange.run (receiveUpload debug context request ⟨dest, part⟩ frames) x).2.sent) :
    (∃ data, IsWhole request.size.toNat frames data
      ∧ (PutExchange.run (receiveUpload debug context request ⟨dest, part⟩ frames)
        x).2.world.disk.settle.files dest
        = some data)
    ∨ x.world.disk.viaHelper = false
      ∧ LosesTail x.world.disk.faults.write x.world.disk.viaHelper request.size.toNat x.world.disk.writes
        x.world.disk.lost 0 frames := by
  have hwhole : AllOrNothing request.size.toNat dest part frames
      (UploadWorld.run (receiveUpload debug context request ⟨dest, part⟩ frames) x.world).2.disk.settle
      ↔ ¬ Slips request frames x.world := receiveUpload_iff context request frames hne ho hempty hlost hdest
  have hworld :=
    (PutExchange.run_world (x := x) (receiveUpload debug context request ⟨dest, part⟩ frames)).2
  rw [← hworld] at hwhole
  obtain ⟨hready, ⟨outcome, w₁, hsome, hleft⟩, data, hdata⟩ :=
    receiveUpload_confirmed context request frames hne ho hdest hx hc
  by_cases hslips : Slips request frames x.world
  · -- what gets past the handler is a lost write
    rcases hslips with ⟨hnot, -⟩ | ⟨-, hrefusal, hdis⟩ | ⟨-, hhelper, -, -, htail⟩
    · rw [hready] at hnot
      cases hnot
    · obtain ⟨e, he⟩ := hleft.error.mpr ⟨hdis, hrefusal⟩
      cases he
    · exact .inr ⟨hhelper, htail⟩
  · rcases hwhole.mpr hslips with hall | ⟨hnone, -⟩
    · exact .inl hall
    · rw [hdata] at hnone
      cases hnone

/-- **What is on disk when a confirmation has been written.** -/
theorem handleSinglePut_confirms (context : ShellContext) (request : PutRequest) (frames : List TransferFrame)
    {dest : Path} {w : UploadWorld} {c : TransferComplete}
    (hpath : context.resolvePath request.path.toList = .ok dest) (hw : w.Fresh context dest)
    (hc : .putComplete c ∈ (PutExchange.run (handleSinglePut debug context request frames) ⟨w, []⟩).2.sent) :
    (∃ data, IsWhole request.size.toNat frames data
      ∧ (PutExchange.run (handleSinglePut debug context request frames)
        ⟨w, []⟩).2.world.disk.settle.files dest
        = some data)
    ∨ context.isLive = false ∧ LosesTail w.disk.faults.write false request.size.toNat 0 false 0 frames := by
  have hx : (⟨w, []⟩ : PutExchange).Unconfirmed := fun c hmem => by cases hmem
  rw [handleSinglePut, PutExchange.run_bind, PutExchange.run_serve] at hc ⊢
  rcases run_preparePutDestination (d := w.disk) hpath hw.mkdirs hw.absent with ⟨-, -, hrun⟩ | ⟨-, e, n, hrun⟩
  · rw [hrun] at hc ⊢
    dsimp only at hc ⊢
    rw [PutExchange.run_createFile] at hc ⊢
    rcases answer_createFile (d := { w.disk with mkdirs := 1 }) (partOf dest w.disk.stamp) hw.pipe with
      ⟨-, hanswer⟩ | ⟨-, d', hanswer, hd⟩
    · rw [hanswer, if_neg Bool.false_ne_true] at hc
      cases hc
    · rw [hanswer, if_pos rfl] at hc ⊢
      have hdest : d'.files dest = none :=
        (hd.files dest (Ne.symm (partOf_ne dest w.disk.stamp))).trans hw.absent
      have hlost : d'.lost = false := hd.lost.trans hw.lost
      have hwrites : d'.writes = 0 := hd.writes.trans hw.writes
      have hhelper : d'.viaHelper = context.isLive := hd.viaHelper.trans hw.viaHelper
      have hfaults : d'.faults = w.disk.faults := hd.faults
      rcases receiveUpload_confirms (x := ⟨{ w with disk := d' }, []⟩) context request frames
        (partOf_ne dest w.disk.stamp) hd.opened hd.empty hlost hdest hx hc with hwhole | ⟨hplain, htail⟩
      · exact .inl hwhole
      · have hnot : context.isLive = false := hhelper.symm.trans hplain
        refine .inr ⟨hnot, ?_⟩
        have htail' :
            LosesTail d'.faults.write d'.viaHelper request.size.toNat d'.writes d'.lost 0 frames := htail
        rw [hlost, hwrites, hhelper, hfaults, hnot] at htail'
        exact htail'
  · rw [hrun] at hc
    cases hc

end Unconfirming

/-! ## Both ends -/

/-- Two lists under an injective function, each with something else behind it: if one is the beginning
of the other, they are the same. -/
theorem eq_of_map_prefix {α β : Type} {f : α → β} (hf : Function.Injective f) {x y : β} (hx : ∀ a, f a ≠ x)
    (hy : ∀ a, f a ≠ y) {l l' : List α} {rest : List β} (h : l.map f ++ x :: rest <+: l'.map f ++ [y]) :
    l = l' := by
  induction l generalizing l' with
  | nil =>
      cases l' with
      | nil => rfl
      | cons b l' => exact absurd (List.cons_prefix_cons.mp h).1.symm (hx b)
  | cons a l ih =>
      cases l' with
      | nil => exact absurd (List.cons_prefix_cons.mp h).1 (hy a)
      | cons b l' =>
          obtain ⟨hhead, htail⟩ := List.cons_prefix_cons.mp h
          rw [hf hhead, ih htail]

/-- What the data loop takes for a whole upload is all there is. -/
theorem whole_of_sent {size : Nat} {frames : List TransferFrame} {data : List UInt8}
    {chunks : List (List UInt8)} {c : TransferComplete} (h : IsWhole size frames data)
    (hsent : frames <+: chunks.map .putChunk ++ [.putComplete c]) : data = chunks.flatten := by
  obtain ⟨chunks', complete, rest, rfl, rfl, -, -⟩ := h
  have hall : chunks' = chunks :=
    eq_of_map_prefix
      (fun a b hab => by cases hab; rfl) (fun a ha => by cases ha) (fun a ha => by cases ha) hsent
  rw [hall]

namespace Proof

/-- **A confirmed upload is on disk.** -/
theorem confirmed_upload_is_whole (debug : TransferFrame → String) (context : ShellContext)
    (localPath remote dest : Path) (opened : Bool) (metadata : Option FileMeta) (l l' : LocalWorld)
    (w : UploadWorld) (request : PutRequest) (frames replies : List TransferFrame) (hnew : l.sent = [])
    -- the client is told that all went well
    (hclient : LocalWorld.run (Client.uploadFileWithProgress localPath remote opened metadata replies) l
      = (.ok (), l'))
    -- the server has read some of what the client has sent, and the client some of what the server has
    (hframes : .putRequest request :: frames <+: l'.sent)
    (hreplies : replies <+: (PutExchange.run (handleSinglePut debug context request frames) ⟨w, []⟩).2.sent)
    (hpath : context.resolvePath request.path.toList = .ok dest) (hw : w.Fresh context dest) :
    ∃ source, l.files localPath = some source ∧ source.ReadToEnd
      ∧ ((PutExchange.run (handleSinglePut debug context request frames)
        ⟨w, []⟩).2.world.disk.settle.files dest
          = some source.bytes
        ∨ context.isLive = false
          ∧ LosesTail w.disk.faults.write false request.size.toNat 0 false 0 frames) := by
  obtain ⟨source, told, ready, rest, hfile, -, hend, hsent, hread⟩ := uploadFile_ok hclient
  refine ⟨source, hfile, hend, ?_⟩
  have hconfirmed : .putComplete ⟨UInt64.ofNat source.bytes.length⟩
      ∈ (PutExchange.run (handleSinglePut debug context request frames) ⟨w, []⟩).2.sent := by
    refine hreplies.subset ?_
    rw [hread]
    exact List.mem_cons_of_mem _ List.mem_cons_self
  rcases handleSinglePut_confirms context request frames hpath hw hconfirmed with
    ⟨data, hwhole, hdata⟩ | hlost
  · rw [hsent, hnew, List.nil_append] at hframes
    rw [hdata, whole_of_sent hwhole (List.cons_prefix_cons.mp hframes).2]
    exact .inl rfl
  · exact .inr hlost

/-- A client with one file of one byte. -/
def oneByteLocal : LocalWorld := ⟨[], fun _ => some ⟨[[7]], false⟩, fun _ => true, []⟩

/-- A server with nothing on its disk, where everything works. -/
def emptyUpload : UploadWorld :=
  ⟨⟨fun _ => none, ⟨['1'], slash_notMem_one⟩, false, noFaults, 0, 0, false, none⟩, true, true, true,
    ⟨.internal, ""⟩⟩

/-- The byte arrives. -/
theorem confirmed_upload_is_whole_one_byte :
    (PutExchange.run (handleSinglePut (fun _ => "") (.stateless none)
      (Client.uploadFileRequest (parse ['/', 'f']) ⟨1, 0o644⟩) [.putChunk [7], .putComplete ⟨1⟩])
      ⟨emptyUpload, []⟩).2.world.disk.settle.files (parse ['/', 'f']) = some [7] := by
  have hpath : (ShellContext.stateless none).resolvePath
      (Client.uploadFileRequest (parse ['/', 'f']) ⟨1, 0o644⟩).path.toList = .ok (parse ['/', 'f']) := by rfl
  have hall := confirmed_upload_is_whole (fun _ => "") (.stateless none) (parse ['f']) (parse ['/', 'f'])
    (parse ['/', 'f']) true (some ⟨1, 0o644⟩) oneByteLocal
    (oneByteLocal.wrote [.putRequest (Client.uploadFileRequest (parse ['/', 'f']) ⟨1, 0o644⟩), .putChunk [7],
      .putComplete ⟨1⟩]) emptyUpload
    (Client.uploadFileRequest (parse ['/', 'f']) ⟨1, 0o644⟩) [.putChunk [7], .putComplete ⟨1⟩]
    [.putReady ⟨1, some 0o644⟩, .putComplete ⟨1⟩] rfl rfl (List.prefix_refl _) ⟨[], rfl⟩ hpath
    ⟨rfl, rfl, rfl, rfl, rfl, rfl, rfl⟩
  obtain ⟨source, hfile, -, hdata | ⟨-, -, n, lost, haccept, -, -, hlost⟩⟩ := hall
  · cases hfile
    exact hdata
  · -- no write is lost
    cases haccept
    cases hlost

end Proof

end Irosh
