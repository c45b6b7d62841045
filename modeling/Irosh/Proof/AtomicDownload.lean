import Irosh.Transfer.Disk
import Irosh.Transfer.Download

/-!
# When downloading one file is atomic

As long as the bytes are streamed, nothing but the temporary file changes, and every
failure removes it; a lost write is found at the flush. So what is left to go wrong is
`persist_temp_file`: it does not remove the temporary file when it fails, and its copy
may have overwritten a part of the destination by then.
-/

namespace Irosh

open UnixPath Wire Disk

/-! ## The temporary file -/

theorem tempTransferPath_eq (dest : Path) (stamp : Stamp) :
    tempTransferPath dest stamp = (dest.parent.getD .dot).child (partName dest.fileName stamp) :=
  Path.join_ofName _ _

/-- The temporary file is not the destination. -/
theorem tempTransferPath_ne (dest : Path) (stamp : Stamp) : tempTransferPath dest stamp ≠ dest := by
  intro h
  have hname : dest.fileName = some (partName dest.fileName stamp) := by
    conv_lhs => rw [← h, tempTransferPath_eq]
    exact Path.fileName_child _ _
  cases hn : dest.fileName with
  | none =>
      rw [hn] at hname
      cases hname
  | some n =>
      rw [hn] at hname
      exact partName_ne n stamp (Option.some.inj hname).symm

/-- Files written without a helper. -/
structure Disk.Plain (d : Disk) : Prop where
  direct : d.viaHelper = false
  open' : d.pipe = none

/-- What is kept while one file is written. -/
structure SameElse (temp : Path) (d d' : Disk) : Prop where
  files : ∀ p, p ≠ temp → d'.files p = d.files p
  faults : d'.faults = d.faults
  mkdirs : d'.mkdirs = d.mkdirs
  plain : d.Plain → d'.Plain

theorem SameElse.refl (temp : Path) (d : Disk) : SameElse temp d d := ⟨fun _ _ => rfl, rfl, rfl, id⟩

theorem SameElse.trans {temp : Path} {d₁ d₂ d₃ : Disk} (h : SameElse temp d₁ d₂)
    (h' : SameElse temp d₂ d₃) : SameElse temp d₁ d₃ where
  files := fun p hp => (h'.files p hp).trans (h.files p hp)
  faults := h'.faults.trans h.faults
  mkdirs := h'.mkdirs.trans h.mkdirs
  plain := fun hd => h'.plain (h.plain hd)

theorem Disk.Plain.append {d : Disk} (hd : d.Plain) (p : Path) (chunk : List UInt8) :
    d.append p chunk = d.put p (some ((d.files p).getD [] ++ chunk)) := by
  rw [Disk.append, hd.open']

theorem Disk.Plain.owes {d : Disk} (hd : d.Plain) : d.owes = d.lost := by
  rw [Disk.owes, hd.direct, Bool.not_false, Bool.and_true]

/-- A write that works. -/
theorem Disk.Plain.writes {d : Disk} (hd : d.Plain) (hlost : d.lost = false) (p : Path)
    {chunk : List UInt8} (hne : chunk ≠ []) (hf : d.faults.write d.writes = .works) :
    ∃ d', d.write p chunk = (true, d') ∧ d'.Plain ∧ d'.lost = false ∧ d'.faults = d.faults
      ∧ d'.writes = d.writes + 1 ∧ d'.files p = some ((d.files p).getD [] ++ chunk) := by
  refine ⟨_, write_works hne (hd.owes.trans hlost) hf, ?_⟩
  rw [hd.append]
  exact ⟨⟨hd.direct, hd.open'⟩, hlost, rfl, rfl, put_files_self _ _ _⟩

theorem sameElse_write {d : Disk} (hd : d.Plain) (temp : Path) (chunk : List UInt8) :
    SameElse temp d (d.write temp chunk).2 := by
  by_cases hnil : chunk = []
  · rw [hnil, write_nil]
    exact .refl _ _
  cases ho : d.owes with
  | true =>
      rw [write_owed hnil ho]
      exact ⟨fun _ _ => rfl, rfl, rfl, fun h => ⟨h.direct, h.open'⟩⟩
  | false =>
      cases hf : d.faults.write d.writes with
      | works =>
          rw [write_works hnil ho hf, hd.append]
          exact ⟨fun _ hp => put_files_ne d hp _, rfl, rfl, fun h => ⟨h.direct, h.open'⟩⟩
      | fails =>
          rw [write_fails hnil ho hf]
          exact ⟨fun _ _ => rfl, rfl, rfl, fun h => ⟨h.direct, h.open'⟩⟩
      | later =>
          rw [write_later hnil ho hf]
          exact ⟨fun _ _ => rfl, rfl, rfl, fun h => ⟨h.direct, h.open'⟩⟩

theorem sameElse_finish {d : Disk} (hd : d.Plain) (temp : Path) :
    SameElse temp d { d.settle with lost := false } := by
  have hsettle : d.settle = d := by rw [Disk.settle, hd.open']
  rw [hsettle]
  exact ⟨fun _ _ => rfl, rfl, rfl, fun h => ⟨h.direct, h.open'⟩⟩

/-! ## Streaming -/

/-- Every write of these chunks works, the next write being the `n`-th. -/
def WritesWork (faults : Faults) (n : Nat) (chunks : List (List UInt8)) : Prop :=
  ∀ i < (chunks.filter (· ≠ [])).length, faults.write (n + i) = .works

/-- A whole file arrives: chunks and a completion whose sizes agree, and every write works. -/
def Arrives (faults : Faults) (n expected received : Nat) (frames : List TransferFrame) : Prop :=
  ∃ chunks complete rest, frames = chunks.map .getChunk ++ .getComplete complete :: rest
    ∧ complete.size.toNat = expected ∧ received + chunks.flatten.length = expected
    ∧ WritesWork faults n chunks ∧ faults.finish = true

/-- **While streaming, only the temporary file changes.** -/
theorem streamFile_sameElse (temp : Path) (expected received : Nat) (frames : List TransferFrame)
    {d : Disk} (hd : d.Plain) :
    SameElse temp d (run (streamFile temp expected received frames) d).2 := by
  induction frames generalizing received d with
  | nil => exact .refl _ _
  | cons frame frames ih =>
      cases frame with
      | getChunk chunk =>
          rw [streamFile, run_writeAll]
          have hw := sameElse_write hd temp chunk
          split_ifs
          · exact hw.trans (ih _ (hw.plain hd))
          · exact hw
      | getComplete complete =>
          rw [streamFile]
          split_ifs
          · exact .refl _ _
          · rw [run_finish]
            exact sameElse_finish hd temp
      | _ => exact .refl _ _

/-- A lost write is always found. -/
theorem streamFile_lost (temp : Path) (expected received : Nat) (frames : List TransferFrame)
    {d : Disk} (hd : d.Plain) (hlost : d.lost = true) :
    (run (streamFile temp expected received frames) d).1 ≠ .ok () := by
  induction frames generalizing received with
  | nil => simp [streamFile]
  | cons frame frames ih =>
      cases frame with
      | getChunk chunk =>
          rw [streamFile, run_writeAll]
          by_cases hnil : chunk = []
          · rw [hnil, write_nil]
            exact ih _
          · rw [write_owed hnil (hd.owes.trans hlost)]
            simp
      | getComplete complete =>
          rw [streamFile]
          split_ifs
          · simp
          · rw [run_finish, hlost]
            simp
      | _ => simp [streamFile]

/-- One chunk more. -/
theorem arrives_chunk {faults : Faults} {n expected received : Nat} {chunk : List UInt8}
    {frames : List TransferFrame} :
    Arrives faults n expected received (.getChunk chunk :: frames)
      ↔ (chunk ≠ [] → faults.write n = .works)
        ∧ Arrives faults (if chunk = [] then n else n + 1) expected (received + chunk.length)
          frames := by
  constructor
  · rintro ⟨chunks, complete, rest, hframes, hsize, hlen, hwrites, hfinish⟩
    cases chunks with
    | nil => cases hframes
    | cons chunk' chunks =>
        obtain ⟨rfl, hrest⟩ :
            chunk = chunk' ∧ frames = chunks.map .getChunk ++ .getComplete complete :: rest := by
          simpa using hframes
        rw [List.flatten_cons, List.length_append] at hlen
        refine ⟨?_, chunks, complete, rest, hrest, hsize, by omega, ?_, hfinish⟩
        · intro hne
          have h0 := hwrites 0 (by rw [List.filter_cons, if_pos (decide_eq_true hne)]; simp)
          exact h0
        · intro i hi
          by_cases hnil : chunk = []
          · rw [if_pos hnil]
            refine hwrites i ?_
            rw [List.filter_cons, if_neg (by simpa using hnil)]
            exact hi
          · rw [if_neg hnil]
            have hnext := hwrites (i + 1) (by
              rw [List.filter_cons, if_pos (decide_eq_true hnil), List.length_cons]
              omega)
            rw [← hnext]
            congr 1
            omega
  · rintro ⟨hwrite, chunks, complete, rest, hframes, hsize, hlen, hwrites, hfinish⟩
    refine ⟨chunk :: chunks, complete, rest, by rw [hframes]; rfl, hsize, ?_, ?_, hfinish⟩
    · rw [List.flatten_cons, List.length_append]
      omega
    · intro i hi
      by_cases hnil : chunk = []
      · rw [if_pos hnil] at hwrites
        rw [List.filter_cons, if_neg (by simpa using hnil)] at hi
        exact hwrites i hi
      · rw [if_neg hnil] at hwrites
        rw [List.filter_cons, if_pos (decide_eq_true hnil), List.length_cons] at hi
        cases i with
        | zero => exact hwrite hnil
        | succ i =>
            rw [← hwrites i (by omega)]
            congr 1
            omega

/-- **The streaming block succeeds exactly if a whole file arrives.** -/
theorem streamFile_ok_iff (temp : Path) (expected received : Nat) (frames : List TransferFrame)
    {d : Disk} (hd : d.Plain) (hlost : d.lost = false) :
    (run (streamFile temp expected received frames) d).1 = .ok ()
      ↔ Arrives d.faults d.writes expected received frames := by
  induction frames generalizing received d with
  | nil => simp [streamFile, Arrives]
  | cons frame frames ih =>
      cases frame with
      | getChunk chunk =>
          rw [streamFile, run_writeAll, arrives_chunk]
          by_cases hnil : chunk = []
          · rw [hnil, write_nil, if_pos rfl, if_pos rfl, ih _ hd hlost]
            exact ⟨fun h => ⟨fun hne => absurd rfl hne, h⟩, fun h => h.2⟩
          · have ho : d.owes = false := hd.owes.trans hlost
            rw [if_neg hnil]
            cases hf : d.faults.write d.writes with
            | works =>
                obtain ⟨d', hd', hplain, hlost', hfaults, hn, -⟩ := hd.writes hlost temp hnil hf
                rw [hd', if_pos rfl, ih _ hplain hlost', hfaults, hn]
                exact ⟨fun h => ⟨fun _ => rfl, h⟩, fun h => h.2⟩
            | fails =>
                rw [write_fails hnil ho hf, if_neg Bool.false_ne_true]
                constructor
                · intro h
                  cases h
                · intro h
                  cases h.1 hnil
            | later =>
                rw [write_later hnil ho hf, if_pos rfl]
                constructor
                · intro h
                  exact absurd h (streamFile_lost temp expected _ frames ⟨hd.direct, hd.open'⟩ rfl)
                · intro h
                  cases h.1 hnil
      | getComplete complete =>
          rw [streamFile]
          have harrives : Arrives d.faults d.writes expected received (.getComplete complete :: frames)
              ↔ (complete.size.toNat = expected ∧ received = expected) ∧ d.faults.finish = true := by
            constructor
            · rintro ⟨chunks, complete', rest, hframes, hsize, hlen, -, hfinish⟩
              cases chunks with
              | nil =>
                  obtain ⟨rfl, -⟩ : complete = complete' ∧ frames = rest := by simpa using hframes
                  exact ⟨⟨hsize, by simpa using hlen⟩, hfinish⟩
              | cons chunk chunks => cases hframes
            · rintro ⟨⟨hsize, hlen⟩, hfinish⟩
              exact ⟨[], complete, frames, rfl, hsize, by simpa using hlen, by simp [WritesWork], hfinish⟩
          rw [harrives]
          split_ifs with hbad
          · constructor
            · intro h
              cases h
            · intro h
              rcases hbad with hbad | hbad
              · exact absurd h.1.1 hbad
              · exact absurd h.1.2 hbad
          · rw [run_finish, hlost, Bool.not_false, Bool.and_true, run_pure]
            have hsizes : complete.size.toNat = expected ∧ received = expected := by
              constructor
              · exact Decidable.byContradiction fun h => hbad (.inl h)
              · exact Decidable.byContradiction fun h => hbad (.inr h)
            cases d.faults.finish with
            | true => simp [hsizes]
            | false => simp
      | _ =>
          constructor
          · intro h
            cases h
          · rintro ⟨chunks, complete, rest, hframes, -⟩
            cases chunks with
            | nil => cases hframes
            | cons chunk chunks => cases hframes

/-- What has arrived is in the temporary file. -/
theorem streamFile_content (temp : Path) (expected received : Nat) {chunks : List (List UInt8)}
    {complete : TransferComplete} {rest : List TransferFrame} {d : Disk} (hd : d.Plain)
    (hlost : d.lost = false) {content : List UInt8} (hcontent : d.files temp = some content)
    (hwrites : WritesWork d.faults d.writes chunks) :
    (run (streamFile temp expected received
        (chunks.map .getChunk ++ .getComplete complete :: rest)) d).2.files temp
      = some (content ++ chunks.flatten) := by
  induction chunks generalizing received d content with
  | nil =>
      have hsettle : d.settle = d := by rw [Disk.settle, hd.open']
      rw [List.map_nil, List.nil_append, streamFile, List.flatten_nil, List.append_nil]
      split_ifs
      · exact hcontent
      · rw [run_finish, hsettle]
        exact hcontent
  | cons chunk chunks ih =>
      rw [List.map_cons, List.cons_append, streamFile, run_writeAll, List.flatten_cons]
      by_cases hnil : chunk = []
      · rw [hnil, write_nil, if_pos rfl, List.nil_append]
        refine ih _ hd hlost hcontent ?_
        intro i hi
        refine hwrites i ?_
        rw [List.filter_cons, if_neg (by simpa using hnil)]
        exact hi
      · have hlen : ((chunk :: chunks).filter (· ≠ [])).length = (chunks.filter (· ≠ [])).length + 1 := by
          rw [List.filter_cons, if_pos (decide_eq_true hnil), List.length_cons]
        have hf : d.faults.write d.writes = .works := hwrites 0 (by omega)
        obtain ⟨d', hd', hplain, hlost', hfaults, hn, hfile⟩ := hd.writes hlost temp hnil hf
        rw [hd', if_pos rfl, ← List.append_assoc]
        refine ih _ hplain hlost' ?_ ?_
        · rw [hfile, hcontent]
          rfl
        · intro i hi
          have hnext := hwrites (i + 1) (by omega)
          rw [hfaults, hn, ← hnext]
          congr 1
          omega

/-! ## Persisting -/

/-- The last step fails: the directory cannot be made, or neither renaming nor copying works. -/
def PersistFails (faults : Faults) (dest : Path) : Prop :=
  (dest.parent.isSome ∧ faults.mkdir 1 = false) ∨ (faults.rename = false ∧ faults.copy ≠ .works)

theorem run_createParent (dest : Path) (d : Disk) :
    ∃ d', run (createParent dest) d
        = (if dest.parent.isSome then d.faults.mkdir d.mkdirs else true, d')
      ∧ d'.files = d.files ∧ d'.faults = d.faults ∧ d'.lost = d.lost ∧ d'.writes = d.writes
      ∧ (d.Plain → d'.Plain) ∧ d'.mkdirs = if dest.parent.isSome then d.mkdirs + 1 else d.mkdirs := by
  unfold createParent
  cases dest.parent with
  | none => exact ⟨d, rfl, rfl, rfl, rfl, rfl, id, rfl⟩
  | some parent => exact ⟨_, rfl, rfl, rfl, rfl, rfl, fun h => ⟨h.direct, h.open'⟩, rfl⟩

/-- When it fails, the temporary file stays. -/
theorem run_persist_fails {temp dest : Path} (hne : temp ≠ dest) {d : Disk} {data : List UInt8}
    (htemp : d.files temp = some data) (hmkdirs : dest.parent.isSome → d.mkdirs = 1)
    (h : PersistFails d.faults dest) :
    ∃ e, (run (persistTempFile temp dest) d).1 = .error e
      ∧ (run (persistTempFile temp dest) d).2.files temp = some data := by
  obtain ⟨d₁, he, hfiles, hfaults, -⟩ := run_createParent dest d
  have htemp₁ : d₁.files temp = some data := by rw [hfiles, htemp]
  unfold persistTempFile
  rw [run_bind, he]
  dsimp only
  by_cases hmade : (if dest.parent.isSome then d.faults.mkdir d.mkdirs else true) = true
  · rw [if_pos hmade, run_rename, hfaults, htemp₁]
    have hno : d.faults.rename = false ∧ d.faults.copy ≠ .works := by
      rcases h with ⟨hparent, hmkdir⟩ | h
      · rw [if_pos hparent, hmkdirs hparent, hmkdir] at hmade
        cases hmade
      · exact h
    rw [hno.1]
    dsimp only
    rw [if_neg Bool.false_ne_true]
    cases hcopy : d.faults.copy with
    | works => exact absurd hcopy hno.2
    | refused =>
        refine ⟨"persist temp file", ?_, ?_⟩
        · simp [run, Bind.bind, Prog.bind, Prog.perform, Prog.eval, answer, hfaults, hcopy]
        · simp [run, Bind.bind, Prog.bind, Prog.perform, Prog.eval, answer, hfaults, hcopy, htemp₁]
    | broken kept =>
        refine ⟨"persist temp file", ?_, ?_⟩
        · simp [run, Bind.bind, Prog.bind, Prog.perform, Prog.eval, answer, hfaults, hcopy, htemp₁]
        · simp [run, Bind.bind, Prog.bind, Prog.perform, Prog.eval, answer, hfaults, hcopy, htemp₁,
            put_files_ne _ hne]
  · rw [if_neg hmade]
    exact ⟨_, rfl, htemp₁⟩

/-- When it works, the destination is what the temporary file was. -/
theorem run_persist_works {temp dest : Path} {d : Disk} {data : List UInt8} (hne : temp ≠ dest)
    (htemp : d.files temp = some data) (hmkdirs : dest.parent.isSome → d.mkdirs = 1)
    (h : ¬ PersistFails d.faults dest) :
    (run (persistTempFile temp dest) d).1 = .ok ()
      ∧ (run (persistTempFile temp dest) d).2.files dest = some data := by
  obtain ⟨d₁, he, hfiles, hfaults, -⟩ := run_createParent dest d
  have htemp₁ : d₁.files temp = some data := by rw [hfiles, htemp]
  have hmade : (if dest.parent.isSome then d.faults.mkdir d.mkdirs else true) = true := by
    split_ifs with hparent
    · rw [hmkdirs hparent]
      cases hmkdir : d.faults.mkdir 1 with
      | true => rfl
      | false => exact absurd (.inl ⟨hparent, hmkdir⟩) h
    · rfl
  unfold persistTempFile
  rw [run_bind, he]
  dsimp only
  rw [if_pos hmade, run_rename, hfaults, htemp₁]
  cases hrename : d.faults.rename with
  | true =>
      dsimp only
      exact ⟨rfl, put_files_self _ _ _⟩
  | false =>
      dsimp only
      rw [if_neg Bool.false_ne_true]
      have hcopy : d.faults.copy = .works := by
        by_contra hcopy
        exact h (.inr ⟨hrename, hcopy⟩)
      refine ⟨?_, ?_⟩
      · simp [run, Bind.bind, Prog.bind, Prog.perform, Prog.eval, answer, hfaults, hcopy, htemp₁]
      · simp [run, Bind.bind, Prog.bind, Prog.perform, Prog.eval, answer, hfaults, hcopy, htemp₁,
          put_files_ne _ (Ne.symm hne)]

/-! ## The download -/

/-- Before a download: no file is open, and the temporary name is not in use. -/
structure Disk.Idle (dest : Path) (d : Disk) : Prop where
  plain : d.Plain
  lost : d.lost = false
  mkdirs : d.mkdirs = 0
  writes : d.writes = 0
  free : d.files (tempTransferPath dest d.stamp) = none

/-- **Atomic**: with success the destination is what was received, of the length announced before
and after; with failure it is what it was, and the temporary file is gone. -/
structure Atomic (dest : Path) (frames : List TransferFrame) (d : Disk) (r : Except String Unit)
    (d' : Disk) : Prop where
  ok : r = .ok () → ∃ ready, ∃ chunks : List (List UInt8), ∃ complete rest,
    frames = .getReady ready :: (chunks.map .getChunk ++ .getComplete complete :: rest)
      ∧ d'.files dest = some chunks.flatten ∧ chunks.flatten.length = ready.size.toNat
      ∧ complete.size = ready.size
  error : ∀ e, r = .error e →
    d'.files dest = d.files dest ∧ d'.files (tempTransferPath dest d.stamp) = none

/-- The file is received whole: everything up to the last flush works. -/
def Received (remote dest : List Char) (opened : Bool) (frames : List TransferFrame) (faults : Faults) :
    Prop :=
  remote ≠ [] ∧ dest ≠ [] ∧ opened = true ∧ faults.reply = true ∧ faults.create ≠ .fails
    ∧ ∃ ready rest, frames = .getReady ready :: rest ∧ Arrives faults 0 ready.size.toNat 0 rest

theorem atomic_of_refused {dest : Path} {frames : List TransferFrame} {d : Disk} (hd : d.Idle dest)
    (e : String) : Atomic dest frames d (.error e) d where
  ok := fun h => by cases h
  error := fun _ _ => ⟨rfl, hd.free⟩

/-- Creating the temporary file, the directory made or not. -/
theorem run_receiveFile {dest : Path} {d : Disk} (hd : d.Idle dest) (ready : TransferReady)
    (frames : List TransferFrame) :
    (d.faults.create = .fails ∧ ∃ e d', run (receiveFile dest ready frames) d = (.error e, d')
        ∧ d'.files = d.files)
      ∨ d.faults.create ≠ .fails ∧ ∃ d', d'.Plain ∧ d'.lost = false ∧ d'.faults = d.faults
        ∧ d'.writes = 0 ∧ (dest.parent.isSome → d'.mkdirs = 1)
        ∧ d'.files = Function.update d.files (tempTransferPath dest d.stamp) (some [])
        ∧ run (receiveFile dest ready frames) d
          = run (do
              let streamed ← streamFile (tempTransferPath dest d.stamp) ready.size.toNat 0 frames
              settleFile (tempTransferPath dest d.stamp) dest (ready.mode.map UInt32.toNat) streamed)
            d' := by
  obtain ⟨d₁, he, hfiles, hfaults, hlost, hwrites, hplain, hmkdirs⟩ := run_createParent dest d
  have hrun : run (receiveFile dest ready frames) d
      = run (do
          let created : Bool ← (FsOp.createFile (tempTransferPath dest d.stamp)).perform
          if created then
            let streamed ← streamFile (tempTransferPath dest d.stamp) ready.size.toNat 0 frames
            settleFile (tempTransferPath dest d.stamp) dest (ready.mode.map UInt32.toNat) streamed
          else pure (.error "create temp download file")) d₁ := by
    unfold receiveFile
    rw [run_now, run_bind, he]
  have hplain₁ := hplain hd.plain
  cases hcreate : d.faults.create with
  | fails =>
      refine .inl ⟨rfl, "create temp download file", d₁, ?_, hfiles⟩
      rw [hrun]
      simp [run, Bind.bind, Prog.bind, Prog.perform, Prog.eval, answer, hfaults, hcreate]
  | works =>
      refine .inr ⟨by simp, d₁.put (tempTransferPath dest d.stamp) (some []),
        ⟨hplain₁.direct, hplain₁.open'⟩, hlost.trans hd.lost, hfaults, hwrites.trans hd.writes, ?_, ?_, ?_⟩
      · intro hparent
        show d₁.mkdirs = 1
        rw [hmkdirs, if_pos hparent, hd.mkdirs]
      · rw [← hfiles]
        rfl
      · rw [hrun]
        simp [run, Bind.bind, Prog.bind, Prog.perform, Prog.eval, answer, hfaults, hcreate]
  | late =>
      refine .inr ⟨by simp, d₁.put (tempTransferPath dest d.stamp) (some []),
        ⟨hplain₁.direct, hplain₁.open'⟩, hlost.trans hd.lost, hfaults, hwrites.trans hd.writes, ?_, ?_, ?_⟩
      · intro hparent
        show d₁.mkdirs = 1
        rw [hmkdirs, if_pos hparent, hd.mkdirs]
      · rw [← hfiles]
        rfl
      · rw [hrun]
        simp [run, Bind.bind, Prog.bind, Prog.perform, Prog.eval, answer, hfaults, hcreate,
          hplain₁.direct]

theorem run_chmod (p : Path) (mode : Option Nat) (d : Disk) : run (chmod p mode) d = ((), d) := by
  cases mode with
  | none => rfl
  | some mode => rfl

/-- **Receiving is atomic exactly if persisting does not fail after a whole file.** -/
theorem receiveFile_atomic_iff {dest : Path} {d : Disk} (hd : d.Idle dest) (ready : TransferReady)
    (frames : List TransferFrame) :
    Atomic dest (.getReady ready :: frames) d (run (receiveFile dest ready frames) d).1
        (run (receiveFile dest ready frames) d).2
      ↔ ¬ (d.faults.create ≠ .fails ∧ Arrives d.faults 0 ready.size.toNat 0 frames
        ∧ PersistFails d.faults dest) := by
  have hne := tempTransferPath_ne dest d.stamp
  rcases run_receiveFile hd ready frames with ⟨hcreate, e, d', hrun, hfiles⟩ |
    ⟨hcreate, d₁, hplain, hlost, hfaults, hwrites, hmkdirs, hfiles, hrun⟩
  · rw [hrun]
    refine ⟨fun _ h => h.1 hcreate, fun _ => ⟨fun h => (by cases h), fun _ _ => ?_⟩⟩
    dsimp only
    rw [hfiles]
    exact ⟨rfl, hd.free⟩
  have hdest : d₁.files dest = d.files dest := by
    rw [hfiles, Function.update_of_ne (Ne.symm hne)]
  have htemp : d₁.files (tempTransferPath dest d.stamp) = some [] := by
    rw [hfiles, Function.update_self]
  have hsame := streamFile_sameElse (tempTransferPath dest d.stamp) ready.size.toNat 0 frames hplain
  have hiff := streamFile_ok_iff (tempTransferPath dest d.stamp) ready.size.toNat 0 frames hplain hlost
  rw [hfaults, hwrites] at hiff
  rw [hrun, run_bind]
  generalize hs : run (streamFile (tempTransferPath dest d.stamp) ready.size.toNat 0 frames) d₁ = res
    at hsame hiff ⊢
  obtain ⟨streamed, d₂⟩ := res
  cases streamed with
  | error e =>
      -- the temporary file is removed
      have hnot : ¬ Arrives d.faults 0 ready.size.toNat 0 frames := fun h => by
        cases hiff.mpr h
      refine ⟨fun _ h => hnot h.2.1, fun _ => ⟨fun h => (by cases h), fun _ _ => ⟨?_, ?_⟩⟩⟩
      · show (d₂.put _ none).files dest = d.files dest
        rw [put_files_ne _ (Ne.symm hne), hsame.files dest (Ne.symm hne), hdest]
      · exact put_files_self _ _ _
  | ok u =>
      have harrives := hiff.mp rfl
      obtain ⟨chunks, complete, rest, hframes, hsize, hlen, hwork, -⟩ := harrives
      have hcontent : (run (streamFile (tempTransferPath dest d.stamp) ready.size.toNat 0
          (chunks.map .getChunk ++ .getComplete complete :: rest)) d₁).2.files _ = _ :=
        streamFile_content _ _ 0 hplain hlost htemp (by rw [hfaults, hwrites]; exact hwork)
      rw [← hframes, hs, List.nil_append] at hcontent
      have hmkdirs₂ : dest.parent.isSome → d₂.mkdirs = 1 := fun h => hsame.mkdirs.trans (hmkdirs h)
      have hfaults₂ : d₂.faults = d.faults := hsame.faults.trans hfaults
      show Atomic _ _ _ (run (settleFile _ dest _ (.ok u)) d₂).1 (run (settleFile _ dest _ (.ok u)) d₂).2 ↔ _
      unfold settleFile
      dsimp only
      rw [run_bind]
      by_cases hpersist : PersistFails d.faults dest
      · obtain ⟨e, he, hleft⟩ := run_persist_fails hne hcontent hmkdirs₂ (hfaults₂ ▸ hpersist)
        rw [he]
        constructor
        · intro hatomic
          have hgone := (hatomic.error e rfl).2
          rw [run_pure, hleft] at hgone
          cases hgone
        · intro h
          exact absurd ⟨hcreate, hiff.mp rfl, hpersist⟩ h
      · obtain ⟨hok, hdest'⟩ := run_persist_works hne hcontent hmkdirs₂ (hfaults₂ ▸ hpersist)
        rw [hok]
        dsimp only
        rw [run_bind, run_chmod]
        refine ⟨fun _ h => hpersist h.2.2, fun _ => ⟨fun _ => ?_, fun e h => (by cases h)⟩⟩
        refine ⟨ready, chunks, complete, rest, by rw [hframes], hdest', ?_, ?_⟩
        · omega
        · exact UInt64.toNat_inj.mp hsize

/-- Everything works. -/
def noFaults : Faults := ⟨true, true, fun _ => true, .works, fun _ => .works, true, true, .works⟩

namespace Proof

/-- **A download of one file is atomic exactly if persisting does not fail** after the file has been
received whole. -/
theorem download_atomic_iff (remote dest : List Char) (opened : Bool) (frames : List TransferFrame)
    (d : Disk) (hd : d.Idle (parse dest)) :
    Atomic (parse dest) frames d (run (downloadFileWithProgress remote dest opened frames) d).1
        (run (downloadFileWithProgress remote dest opened frames) d).2
      ↔ ¬ (Received remote dest opened frames d.faults ∧ PersistFails d.faults (parse dest)) := by
  unfold downloadFileWithProgress
  by_cases hremote : remote = []
  · rw [if_pos hremote]
    exact ⟨fun _ h => h.1.1 hremote, fun _ => atomic_of_refused hd _⟩
  rw [if_neg hremote]
  by_cases hdest : dest = []
  · rw [if_pos hdest]
    exact ⟨fun _ h => h.1.2.1 hdest, fun _ => atomic_of_refused hd _⟩
  rw [if_neg hdest]
  cases opened with
  | false => exact ⟨fun _ h => Bool.false_ne_true h.1.2.2.1, fun _ => atomic_of_refused hd _⟩
  | true =>
      rw [if_pos rfl, run_reply]
      cases hreply : d.faults.reply with
      | false =>
          refine ⟨fun _ h => ?_, fun _ => atomic_of_refused hd _⟩
          have hsent := h.1.2.2.2.1
          rw [hreply] at hsent
          cases hsent
      | true =>
          rw [if_pos rfl]
          rcases frames with _ | ⟨frame, rest⟩
          · refine ⟨fun _ h => ?_, fun _ => atomic_of_refused hd _⟩
            obtain ⟨⟨-, -, -, -, -, ready, rest, hframes, -⟩, -⟩ := h
            cases hframes
          · cases frame with
            | getReady ready =>
                rw [receiveFile_atomic_iff hd ready rest]
                refine not_congr ⟨fun h => ?_, fun h => ?_⟩
                · exact ⟨⟨hremote, hdest, rfl, hreply, h.1, ready, rest, rfl, h.2.1⟩, h.2.2⟩
                · obtain ⟨⟨-, -, -, -, hcreate, ready', rest', hframes, harrives⟩, hpersist⟩ := h
                  cases hframes
                  exact ⟨hcreate, harrives, hpersist⟩
            | _ =>
                refine ⟨fun _ h => ?_, fun _ => atomic_of_refused hd _⟩
                obtain ⟨⟨-, -, -, -, -, ready, rest', hframes, -⟩, -⟩ := h
                cases hframes

/-- Two bytes, and everything works. -/
theorem download_atomic_two_bytes :
    let dest : List Char := ['/', 'f']
    let frames : List TransferFrame := [.getReady ⟨2, none⟩, .getChunk [5, 6], .getComplete ⟨2⟩]
    let d : Disk := ⟨fun _ => none, ⟨['1'], by decide⟩, false, noFaults, 0, 0, false, none⟩
    d.Idle (parse dest)
      ∧ (run (downloadFileWithProgress ['r'] dest true frames) d).1 = .ok ()
      ∧ (Atomic (parse dest) frames d (run (downloadFileWithProgress ['r'] dest true frames) d).1
          (run (downloadFileWithProgress ['r'] dest true frames) d).2
        ↔ ¬ (Received ['r'] dest true frames d.faults ∧ PersistFails d.faults (parse dest))) :=
  ⟨⟨⟨rfl, rfl⟩, rfl, rfl, rfl, rfl⟩, rfl,
    download_atomic_iff ['r'] ['/', 'f'] true _ _ ⟨⟨rfl, rfl⟩, rfl, rfl, rfl, rfl⟩⟩

/-- The whole file has arrived, it cannot be renamed, and the copy breaks off after a byte: the old
destination is overwritten and the temporary file is left. -/
theorem download_damages_destination :
    let dest : Path := parse ['/', 'f']
    let frames : List TransferFrame := [.getReady ⟨2, none⟩, .getChunk [5, 6], .getComplete ⟨2⟩]
    let d : Disk := ⟨fun p => if p = dest then some [1, 2, 3] else none, ⟨['1'], by decide⟩, false,
      { noFaults with rename := false, copy := .broken 1 }, 0, 0, false, none⟩
    let after := run (downloadFileWithProgress ['r'] ['/', 'f'] true frames) d
    after.1 = .error "persist temp file"
      ∧ d.files dest = some [1, 2, 3] ∧ after.2.files dest = some [5]
      ∧ after.2.files (tempTransferPath dest d.stamp) = some [5, 6]
      ∧ ¬ Atomic dest frames d after.1 after.2 := by
  intro dest frames d after
  have hfailed : after.1 = .error "persist temp file" := rfl
  have hleft : after.2.files (tempTransferPath dest d.stamp) = some [5, 6] := rfl
  refine ⟨hfailed, rfl, rfl, hleft, ?_⟩
  intro h
  have hgone := (h.error _ hfailed).2
  rw [hleft] at hgone
  cases hgone

end Proof

end Irosh
