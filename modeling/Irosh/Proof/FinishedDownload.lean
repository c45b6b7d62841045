import Irosh.Proof.Answers
import Irosh.Proof.AtomicDownload
import Irosh.Proof.ConfirmedUpload

/-!
# A finished download is whole

The server's `handle_get_request` under any surroundings, and the client's
`download_file_with_progress`, which reads some of the frames that the server has written.
If the client ends well, its file holds everything that was read of the source, and the
source was read to its end.

The size is probed before the source is opened, and what is read afterwards may be of
another length. The server announces the probed size and confirms it again, whatever it
has sent; it is the client that counts.
-/

namespace Irosh

open UnixPath Wire Serve Disk

/-! ## What the server has written -/

/-- The operations of a run, with their answers. -/
abbrev ServeRun := List (Σ o : ServeOp, o.Answer)

namespace ServeRun

/-- The frames that have been written. -/
def frames (g : ServeRun) : List TransferFrame := g.filterMap fun step => step.1.written step.2

def next (g : ServeRun) (o : ServeOp) (r : o.Answer) : ServeRun := g ++ [⟨o, r⟩]

theorem foldl_next (steps g : ServeRun) :
    steps.foldl (fun g step => g.next step.1 step.2) g = g ++ steps := by
  induction steps generalizing g with
  | nil => exact (List.append_nil g).symm
  | cons step steps ih =>
      rw [List.foldl_cons, ih, next, List.append_assoc]
      rfl

theorem frames_next (g : ServeRun) (o : ServeOp) (r : o.Answer) :
    (g.next o r).frames = g.frames ++ (o.written r).toList := by
  rw [frames, next, List.filterMap_append, ← frames]
  cases hwritten : o.written r with
  | none => simp [hwritten]
  | some frame => simp [hwritten]

theorem subset_next (g : ServeRun) (o : ServeOp) (r : o.Answer) : g ⊆ g.next o r :=
  List.subset_append_left _ _

/-- Nothing has been confirmed. -/
def Unconfirmed (g : ServeRun) : Prop := ∀ c, .getComplete c ∉ g.frames

/-- A size was probed, and a source opened. -/
structure Opened (path : Path) (size : UInt64) (source : Source) (g : ServeRun) : Prop where
  probed : ⟨.probeSize path, (.ok (.ok size) : Except Unit (Except TransferFailure UInt64))⟩ ∈ g
  opened : ⟨.openSource path, (some source : Option Source)⟩ ∈ g

theorem Opened.mono {path : Path} {size : UInt64} {source : Source} {g g' : ServeRun}
    (h : g.Opened path size source) (hsubset : g ⊆ g') : g'.Opened path size source :=
  ⟨hsubset h.probed, hsubset h.opened⟩

/-- A confirmation was written behind all of a source. -/
def SentWhole (context : ShellContext) (request : GetRequest) (g : ServeRun) : Prop :=
  ∃ path size source, context.resolvePath request.path.toList = .ok path
    ∧ g.Opened path size source ∧ source.ReadToEnd
    ∧ g.frames = .getReady ⟨size, none⟩ :: (source.chunks.map .getChunk ++ [.getComplete ⟨size⟩])

/-- What comes of a frame that is sent. -/
def Sent (frame : TransferFrame) (g : ServeRun) (r : Except String Unit) (g' : ServeRun) : Prop :=
  g ⊆ g' ∧ ((∃ e, r = .error e) ∧ g'.frames = g.frames ∨ r = .ok () ∧ g'.frames = g.frames ++ [frame])

end ServeRun

variable {g : ServeRun}

theorem ServeRun.Unconfirmed.congr {g' : ServeRun} (h : g.Unconfirmed) (hsame : g'.frames = g.frames) :
    g'.Unconfirmed := by
  intro c hc
  rw [hsame] at hc
  exact h c hc

/-- Only a confirmation confirms. -/
theorem ServeRun.Sent.unconfirmed {frame : TransferFrame} {r : Except String Unit} {g' : ServeRun}
    (hsent : ServeRun.Sent frame g r g') (hframe : ∀ c, frame ≠ .getComplete c) (h : g.Unconfirmed) :
    g'.Unconfirmed := by
  rcases hsent.2 with ⟨-, hsame⟩ | ⟨-, hframes⟩
  · exact h.congr hsame
  · intro c hc
    rw [hframes] at hc
    rcases List.mem_append.mp hc with hold | hlast
    · exact h c hold
    · exact hframe c (List.mem_singleton.mp hlast).symm

/-- A program followed by the record of its run. -/
abbrev Records {α : Type} (p : ServeProg α) (P : α → ServeRun → Prop) (g : ServeRun) : Prop :=
  p.Tracks ServeRun.next (fun _ _ => True) P g

/-- What is known of the record holds of each run. -/
theorem Records.run {α : Type} {p : ServeProg α} {P : α → ServeRun → Prop} (h : Records p P [])
    (oracle : Nat → (o : ServeOp) → o.Answer) : P (p.outcome oracle 0) (p.steps oracle 0) := by
  have hend : P (p.outcome oracle 0)
      ((p.steps oracle 0).foldl (fun g step => ServeRun.next g step.1 step.2) []) := Prog.Tracks.outcome h 0
  rwa [ServeRun.foldl_next, List.nil_append] at hend

theorem send_records (frame : TransferFrame) : Records (Serve.send frame) (ServeRun.Sent frame g) g := by
  refine ⟨trivial, ?_⟩
  intro (sent : Bool)
  refine ⟨g.subset_next _ _, ?_⟩
  have hframes := g.frames_next (.blob (.send frame)) sent
  cases sent with
  | false => exact .inl ⟨⟨_, rfl⟩, hframes.trans (List.append_nil _)⟩
  | true => exact .inr ⟨rfl, hframes⟩

/-- What comes of reading a source. -/
structure Streamed (broken : Bool) (reads : List (List UInt8)) (g : ServeRun) (r : Except String Nat)
    (g' : ServeRun) : Prop where
  subset : g ⊆ g'
  unconfirmed : g.Unconfirmed → g'.Unconfirmed
  whole : ∀ n, r = .ok n → (broken = false ∨ ∃ chunk ∈ reads, chunk = [])
    ∧ g'.frames = g.frames ++ (reads.takeWhile fun chunk => chunk.length ≠ 0).map .getChunk

/-- **The loop over the reads sends them up to the end of the source.** -/
theorem streamReads_records (broken : Bool) (total : Nat) (reads : List (List UInt8)) :
    Records (streamReads broken total reads) (Streamed broken reads g) g := by
  induction reads generalizing total g with
  | nil =>
      refine ⟨List.Subset.refl _, id, fun n hn => ?_⟩
      cases broken with
      | true => cases hn
      | false => exact ⟨.inl rfl, (List.append_nil _).symm⟩
  | cons chunk rest ih =>
      rw [streamReads]
      by_cases hempty : chunk.length = 0
      · rw [if_pos hempty]
        refine ⟨List.Subset.refl _, id, fun n _ => ?_⟩
        rw [List.takeWhile_cons_of_neg (by simpa using hempty)]
        exact ⟨.inr ⟨chunk, List.mem_cons_self, List.length_eq_zero_iff.mp hempty⟩, (List.append_nil _).symm⟩
      · rw [if_neg hempty]
        refine (send_records (.getChunk chunk)).bind fun r g₁ hsent => ?_
        have hquiet : g.Unconfirmed → g₁.Unconfirmed := hsent.unconfirmed fun c hc => by cases hc
        obtain ⟨hsubset, ⟨⟨e, rfl⟩, hframes⟩ | ⟨rfl, hframes⟩⟩ := hsent
        · exact ⟨hsubset, hquiet, fun n hn => by cases hn⟩
        · refine (ih (total + chunk.length)).mono fun r' g' h => ⟨?_, ?_, ?_⟩
          · exact List.Subset.trans hsubset h.subset
          · exact fun hg => h.unconfirmed (hquiet hg)
          · intro n hn
            obtain ⟨hend, hall⟩ := h.whole n hn
            rw [hall, hframes, List.takeWhile_cons_of_pos (by simpa using hempty), List.append_assoc]
            refine ⟨?_, rfl⟩
            rcases hend with hwhole | ⟨c, hc, hnil⟩
            · exact .inl hwhole
            · exact .inr ⟨c, List.mem_cons_of_mem _ hc, hnil⟩

/-- The last frame, or none. -/
theorem finishGet_records (context : ShellContext) (size : UInt64) (hg : g.Unconfirmed) :
    Records (finishGet context size)
      (fun _ g' => g'.Unconfirmed ∨ g ⊆ g' ∧ g'.frames = g.frames ++ [.getComplete ⟨size⟩]) g := by
  have hlast : ∀ g₁ : ServeRun, g ⊆ g₁ → g₁.frames = g.frames → Records (Serve.send (.getComplete ⟨size⟩))
      (fun _ g' => g'.Unconfirmed ∨ g ⊆ g' ∧ g'.frames = g.frames ++ [.getComplete ⟨size⟩]) g₁ := by
    intro g₁ hsubset hsame
    refine (send_records _).mono fun r g' hsent => ?_
    obtain ⟨hsubset', ⟨-, hframes⟩ | ⟨-, hframes⟩⟩ := hsent
    · exact .inl (hg.congr (hframes.trans hsame))
    · exact .inr ⟨List.Subset.trans hsubset hsubset', by rw [hframes, hsame]⟩
  unfold finishGet
  cases context.isLive with
  | false => exact hlast g (List.Subset.refl _) rfl
  | true =>
      refine ⟨trivial, ?_⟩
      intro (exited : Except Unit Bool)
      have hsame : (g.next .waitSource exited).frames = g.frames :=
        (g.frames_next _ _).trans (List.append_nil _)
      rcases exited with _ | _ | _
      · exact .inl (hg.congr hsame)
      · refine ⟨trivial, fun failure => ?_⟩
        have hsame' :
            ((g.next .waitSource (.ok false)).next (.explain "download helper failed") failure).frames
            = g.frames := ((ServeRun.frames_next _ _ _).trans (List.append_nil _)).trans hsame
        refine (send_records _).mono fun r g' hsent => .inl ?_
        exact hsent.unconfirmed (fun c hc => by cases hc) (hg.congr hsame')
      · exact hlast _ (g.subset_next _ _) hsame

/-- **The server confirms behind the end of its source only.** -/
theorem handleSingleGet_records (context : ShellContext) (request : GetRequest) :
    Records (handleSingleGet context request)
      (fun _ g => g.Unconfirmed ∨ g.SentWhole context request) [] := by
  have hnone : ∀ g : ServeRun, g.frames = [] → g.Unconfirmed := by
    intro g hempty c hc
    rw [hempty] at hc
    cases hc
  unfold handleSingleGet
  cases hpath : context.resolvePath request.path.toList with
  | error e => exact .inl (hnone _ rfl)
  | ok path =>
      refine ⟨trivial, ?_⟩
      intro (probed : Except Unit (Except TransferFailure UInt64))
      rcases probed with _ | failure | size
      · exact .inl (hnone _ rfl)
      · refine (send_records _).mono fun r g' hsent => .inl ?_
        exact hsent.unconfirmed (fun c hc => by cases hc) (hnone _ rfl)
      · refine ⟨trivial, ?_⟩
        intro (opened : Option Source)
        cases opened with
        | none => exact .inl (hnone _ rfl)
        | some source =>
            refine ⟨trivial, ?_⟩
            intro (available : Bool)
            cases available with
            | false => exact .inl (hnone _ rfl)
            | true =>
                refine (send_records (.getReady ⟨size, none⟩)).bind fun r g₁ hsent => ?_
                have hquiet : g₁.Unconfirmed := hsent.unconfirmed (fun c hc => by cases hc) (hnone _ rfl)
                obtain ⟨hsubset, ⟨⟨e, rfl⟩, hframes⟩ | ⟨rfl, hframes⟩⟩ := hsent
                · exact .inl hquiet
                have hopened : g₁.Opened path size source :=
                  ⟨hsubset List.mem_cons_self, hsubset (List.mem_cons_of_mem _ List.mem_cons_self)⟩
                have hready : g₁.frames = [.getReady ⟨size, none⟩] := hframes
                refine (streamReads_records source.broken 0 source.reads).bind fun r₂ g₂ hstreamed => ?_
                cases r₂ with
                | error e => exact .inl (hstreamed.unconfirmed hquiet)
                | ok total =>
                    obtain ⟨hend, hall⟩ := hstreamed.whole total rfl
                    refine (finishGet_records context size (hstreamed.unconfirmed hquiet)).mono
                      fun r₃ g₃ h => ?_
                    rcases h with hquiet' | ⟨hsubset', hlast⟩
                    · exact .inl hquiet'
                    · refine .inr ⟨path, size, source, hpath,
                        (hopened.mono hstreamed.subset).mono hsubset', hend, ?_⟩
                      rw [hlast, hall, hready]
                      rfl

/-! ## What the client has read -/

/-- A file that was received. -/
theorem receiveFile_ok {dest : Path} {d : Disk} (hd : d.Idle dest) (ready : TransferReady)
    (frames : List TransferFrame) (h : (run (receiveFile dest ready frames) d).1 = .ok ()) :
    Atomic dest (.getReady ready :: frames) d (run (receiveFile dest ready frames) d).1
      (run (receiveFile dest ready frames) d).2 := by
  rw [receiveFile_atomic_iff hd]
  rintro ⟨hcreate, harrives, hpersist⟩
  have hne := tempTransferPath_ne dest d.stamp
  rcases run_receiveFile hd ready frames with ⟨hfails, -⟩ |
    ⟨-, d₁, hplain, hlost, hfaults, hwrites, hmkdirs, hfiles, hrun⟩
  · exact hcreate hfails
  have htemp : d₁.files (tempTransferPath dest d.stamp) = some [] := by
    rw [hfiles, Function.update_self]
  have hsame := streamFile_sameElse (tempTransferPath dest d.stamp) ready.size.toNat 0 frames hplain
  have hok := (streamFile_ok_iff (tempTransferPath dest d.stamp) ready.size.toNat 0 frames hplain hlost).mpr
    (by rw [hfaults, hwrites]; exact harrives)
  obtain ⟨chunks, complete, rest, rfl, -, -, hwork, -⟩ := harrives
  have hcontent : (run (streamFile (tempTransferPath dest d.stamp) ready.size.toNat 0
      (chunks.map .getChunk ++ .getComplete complete :: rest)) d₁).2.files _ = _ :=
    streamFile_content _ _ 0 hplain hlost htemp (by rw [hfaults, hwrites]; exact hwork)
  obtain ⟨e, he, -⟩ := run_persist_fails hne hcontent
    (fun hparent => hsame.mkdirs.trans (hmkdirs hparent)) (by rw [hsame.faults, hfaults]; exact hpersist)
  rw [hrun, run_bind, hok] at h
  unfold settleFile at h
  dsimp only at h
  rw [run_bind, he] at h
  cases h

/-- **What a download that ended well has read.** -/
theorem download_ok {remote dest : List Char} {opened : Bool} {frames : List TransferFrame} {d : Disk}
    (hd : d.Idle (parse dest)) (h : (run (downloadFileWithProgress remote dest opened frames) d).1 = .ok ()) :
    ∃ ready, ∃ chunks : List (List UInt8), ∃ complete rest,
      frames = .getReady ready :: (chunks.map .getChunk ++ .getComplete complete :: rest)
        ∧ (run (downloadFileWithProgress remote dest opened frames) d).2.files (parse dest)
          = some chunks.flatten
        ∧ chunks.flatten.length = ready.size.toNat := by
  have hrun : ∃ ready rest, frames = .getReady ready :: rest
      ∧ run (downloadFileWithProgress remote dest opened frames) d
        = run (receiveFile (parse dest) ready rest) d := by
    unfold downloadFileWithProgress at h ⊢
    split at h
    · cases h
    split at h
    · cases h
    split at h
    · rename_i hremote hdest hopened
      rw [if_neg hremote, if_neg hdest, if_pos hopened]
      rw [run_reply] at h ⊢
      split at h
      · rename_i hsent
        rw [if_pos hsent]
        split at h
        · cases h
        · exact ⟨_, _, rfl, rfl⟩
        · cases h
        · cases h
      · cases h
    · cases h
  obtain ⟨ready, rest, rfl, hrun⟩ := hrun
  rw [hrun] at h ⊢
  obtain ⟨ready', chunks, complete, rest', hframes, hfile, hlen, -⟩ := (receiveFile_ok hd ready rest h).ok h
  exact ⟨ready', chunks, complete, rest', hframes, hfile, hlen⟩

namespace Proof

/-- **A download that ended well is whole**, whatever the server's surroundings answer and wherever the
client stops reading; and the source was as long as it had been found to be before it was opened. -/
theorem finished_download_is_whole (context : ShellContext) (request : GetRequest)
    (oracle : Nat → (o : ServeOp) → o.Answer) (remote dest : List Char) (opened : Bool)
    (frames : List TransferFrame) (d : Disk) (hd : d.Idle (parse dest))
    -- the client has read some of what the server has written
    (hframes : frames <+: ServeRun.frames ((handleSingleGet context request).steps oracle 0))
    (hclient : (run (downloadFileWithProgress remote dest opened frames) d).1 = .ok ()) :
    ∃ path size source, context.resolvePath request.path.toList = .ok path
      ∧ ServeRun.Opened path size source ((handleSingleGet context request).steps oracle 0)
      ∧ source.ReadToEnd ∧ source.bytes.length = size.toNat
      ∧ (run (downloadFileWithProgress remote dest opened frames) d).2.files (parse dest)
        = some source.bytes := by
  obtain ⟨ready, chunks, complete, rest, hread, hfile, hlen⟩ := download_ok hd hclient
  rw [hread] at hframes
  rcases Records.run (handleSingleGet_records context request) oracle with hquiet | ⟨path, size, source,
    hpath, hopened, hend, hsent⟩
  · refine absurd (hframes.subset ?_) (hquiet complete)
    exact List.mem_cons_of_mem _ (List.mem_append_right _ List.mem_cons_self)
  · rw [hsent] at hframes
    obtain ⟨hready, hchunks⟩ := List.cons_prefix_cons.mp hframes
    cases hready
    have hall : chunks = source.chunks :=
      eq_of_map_prefix
        (fun a b hab => by cases hab; rfl) (fun a ha => by cases ha) (fun a ha => by cases ha) hchunks
    rw [hall] at hfile hlen
    exact ⟨path, size, source, hpath, hopened, hend, hlen, hfile⟩

/-- A server whose files have one byte. -/
def oneByteServer : (o : ServeOp) → o.Answer
  | .probeSize _ => .ok (.ok 1)
  | .openSource _ => some ⟨[[7]], false⟩
  | o => o.idle

/-- The byte arrives. -/
theorem finished_download_is_whole_one_byte :
    (run (downloadFileWithProgress ['r'] ['/', 'f'] true
        [.getReady ⟨1, none⟩, .getChunk [7], .getComplete ⟨1⟩]) emptyUpload.disk).2.files (parse ['/', 'f'])
      = some [7] := by
  obtain ⟨path, size, source, -, hopened, -, -, hfile⟩ :=
    finished_download_is_whole (.stateless none) ⟨"/r", false⟩
    (fun _ => oneByteServer) ['r'] ['/', 'f'] true [.getReady ⟨1, none⟩, .getChunk [7], .getComplete ⟨1⟩]
    emptyUpload.disk ⟨⟨rfl, rfl⟩, rfl, rfl, rfl, rfl⟩ ⟨[], rfl⟩ rfl
  obtain ⟨m, hsource⟩ := Prog.mem_steps hopened.opened
  have hsource : some source = some ⟨[[7]], false⟩ := hsource
  cases hsource
  exact hfile

end Proof

end Irosh
