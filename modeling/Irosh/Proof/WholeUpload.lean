import Irosh.Proof.AtomicDownload
import Irosh.Transfer.Upload

/-!
# When an upload is all or nothing

Almost every way out of `handle_put_request` removes the part file. Three things get
past it. A size that does not match is answered with a `?`, so where the answer cannot be
written the function is left at once. The flush behind the data loop is the one that would
be told of a lost write, and nobody looks at its result; the second flush then finds
nothing wrong. And a helper that opens its file late does so after an early removal.
-/

namespace Irosh

open UnixPath Wire Serve

/-! ## What can be known beforehand -/

/-- A write, of which only the outcome is known: the writes and whether one was lost before and
after, or `none` if it is not accepted. A file reports a lost write; a helper's input does not. -/
def accept (fates : Nat → WriteFate) (viaHelper : Bool) (n : Nat) (lost : Bool)
    (chunk : List UInt8) : Option (Nat × Bool) :=
  if chunk = [] then some (n, lost)
  else if lost && !viaHelper then none
  else
    match fates n with
    | .works => some (n + 1, lost)
    | .fails => none
    | .later => some (n + 1, true)

/-- The sizes disagree: more than the declared size comes, or a completion with another size, and
all chunks before were accepted. -/
def Disagrees (fates : Nat → WriteFate) (viaHelper : Bool) (size : Nat) :
    Nat → Bool → Nat → List TransferFrame → Prop
  | n, lost, received, .putChunk chunk :: rest =>
      size < received + chunk.length
        ∨ ∃ n' lost', accept fates viaHelper n lost chunk = some (n', lost')
          ∧ Disagrees fates viaHelper size n' lost' (received + chunk.length) rest
  | _, _, received, .putComplete complete :: _ => complete.size.toNat ≠ received ∨ received ≠ size
  | _, _, _, _ => False

/-- Everything comes and is accepted, and an accepted write has been lost that no later write could
report. -/
def LosesTail (fates : Nat → WriteFate) (viaHelper : Bool) (size : Nat) :
    Nat → Bool → Nat → List TransferFrame → Prop
  | n, lost, received, .putChunk chunk :: rest =>
      received + chunk.length ≤ size
        ∧ ∃ n' lost', accept fates viaHelper n lost chunk = some (n', lost')
          ∧ LosesTail fates viaHelper size n' lost' (received + chunk.length) rest
  | _, lost, received, .putComplete complete :: _ =>
      complete.size.toNat = received ∧ received = size ∧ lost = true
  | _, _, _, _ => False

/-! ## Writing the part file -/

namespace Disk

/-- The bytes that are in the part file or on their way into it. -/
def content (d : Disk) (part : Path) : List UInt8 :=
  match d.pipe with
  | some (_, bytes) => bytes
  | none => (d.files part).getD []

/-- The part file is there, or a helper is going to open it. -/
def Opened (part : Path) (d : Disk) : Prop :=
  (d.pipe = none ∧ (d.files part).isSome) ∨ d.viaHelper = true ∧ ∃ bytes, d.pipe = some (part, bytes)

/-- What is kept while the part file is written. -/
structure WritesOnly (part : Path) (d d' : Disk) : Prop where
  files : ∀ p, p ≠ part → d'.files p = d.files p
  faults : d'.faults = d.faults
  viaHelper : d'.viaHelper = d.viaHelper
  opened : d.Opened part → d'.Opened part

theorem WritesOnly.refl (part : Path) (d : Disk) : WritesOnly part d d :=
  ⟨fun _ _ => rfl, rfl, rfl, id⟩

theorem WritesOnly.trans {part : Path} {d₁ d₂ d₃ : Disk} (h : WritesOnly part d₁ d₂)
    (h' : WritesOnly part d₂ d₃) : WritesOnly part d₁ d₃ where
  files := fun p hp => (h'.files p hp).trans (h.files p hp)
  faults := h'.faults.trans h.faults
  viaHelper := h'.viaHelper.trans h.viaHelper
  opened := fun ho => h'.opened (h.opened ho)

/-- Bytes that arrive are added to the content. -/
theorem append_spec {d : Disk} {part : Path} (ho : d.Opened part) (chunk : List UInt8) :
    WritesOnly part d (d.append part chunk)
      ∧ (d.append part chunk).content part = d.content part ++ chunk
      ∧ (d.append part chunk).lost = d.lost := by
  rcases ho with ⟨hp, hs⟩ | ⟨hv, bytes, hp⟩
  · have happ : d.append part chunk = d.put part (some ((d.files part).getD [] ++ chunk)) := by
      rw [append, hp]
    rw [happ]
    refine ⟨⟨fun q hq => put_files_ne d hq _, rfl, rfl, fun _ => .inl ⟨hp, ?_⟩⟩, ?_, rfl⟩
    · rw [put_files_self]
      rfl
    · have hpipe : (d.put part (some ((d.files part).getD [] ++ chunk))).pipe = none := hp
      simp only [content, hpipe, hp, put_files_self, Option.getD_some]
  · have happ : d.append part chunk = { d with pipe := some (part, bytes ++ chunk) } := by
      rw [append, hp]
    rw [happ]
    refine ⟨⟨fun _ _ => rfl, rfl, rfl, fun _ => .inr ⟨hv, _, rfl⟩⟩, ?_, rfl⟩
    simp only [content, hp]

/-- A chunk that is accepted. What is not lost is in the content. -/
structure Accepts (part : Path) (chunk : List UInt8) (d d' : Disk) : Prop where
  only : WritesOnly part d d'
  whole : d'.lost = false → d.lost = false ∧ d'.content part = d.content part ++ chunk
  short : (d'.content part).length + d'.lost.toNat
    ≤ (d.content part).length + chunk.length + d.lost.toNat

/-- **One write.** -/
theorem write_spec {d : Disk} {part : Path} (ho : d.Opened part) (chunk : List UInt8) :
    (∃ d', d.write part chunk = (true, d') ∧ Accepts part chunk d d'
        ∧ accept d.faults.write d.viaHelper d.writes d.lost chunk = some (d'.writes, d'.lost))
      ∨ ∃ d', d.write part chunk = (false, d') ∧ WritesOnly part d d'
        ∧ accept d.faults.write d.viaHelper d.writes d.lost chunk = none := by
  by_cases hnil : chunk = []
  · subst hnil
    refine .inl ⟨d, write_nil, ⟨.refl part d, fun hl => ⟨hl, by simp⟩, by simp⟩, ?_⟩
    simp [accept]
  cases hlost : (d.lost && !d.viaHelper) with
  | true =>
      refine .inr ⟨_, write_owed hnil hlost, ⟨fun _ _ => rfl, rfl, rfl, id⟩, ?_⟩
      simp [accept, hnil, hlost]
  | false =>
      have haccept : accept d.faults.write d.viaHelper d.writes d.lost chunk
          = match d.faults.write d.writes with
            | .works => some (d.writes + 1, d.lost)
            | .fails => none
            | .later => some (d.writes + 1, true) := by
        rw [accept, if_neg hnil, hlost, if_neg Bool.false_ne_true]
      cases hf : d.faults.write d.writes with
      | works =>
          obtain ⟨honly, hcontent, hsame⟩ := append_spec ho chunk
          refine .inl ⟨_, write_works hnil hlost hf, ⟨⟨honly.files, honly.faults, honly.viaHelper,
            honly.opened⟩, fun hl => ⟨hsame.symm.trans hl, hcontent⟩, ?_⟩, ?_⟩
          · have hlen := congrArg List.length hcontent
            rw [List.length_append] at hlen
            show ((d.append part chunk).content part).length + (d.append part chunk).lost.toNat ≤ _
            rw [hlen, hsame]
          · rw [haccept, hf]
            exact congrArg (fun l => some (d.writes + 1, l)) hsame.symm
      | fails =>
          refine .inr ⟨_, write_fails hnil hlost hf, ⟨fun _ _ => rfl, rfl, rfl, id⟩, ?_⟩
          rw [haccept, hf]
      | later =>
          refine .inl ⟨_, write_later hnil hlost hf, ⟨⟨fun _ _ => rfl, rfl, rfl, id⟩,
            fun hl => (by cases hl), ?_⟩, ?_⟩
          · -- at least one byte is lost
            have hpos := List.length_pos_iff.mpr hnil
            have hle : d.lost.toNat ≥ 0 := Nat.zero_le _
            show (d.content part).length + 1 ≤ _
            omega
          · rw [haccept, hf]

end Disk

/-! ## The data loop -/

variable {debug : TransferFrame → String}

/-- The frames of a whole upload. -/
def IsWhole (size : Nat) (frames : List TransferFrame) (data : List UInt8) : Prop :=
  ∃ (chunks : List (List UInt8)) (complete : TransferComplete) (rest : List TransferFrame),
    frames = chunks.map .putChunk ++ .putComplete complete :: rest ∧ data = chunks.flatten
      ∧ data.length = size ∧ complete.size.toNat = size

/-- How the data loop is left. -/
structure Left (part : Path) (size received : Nat) (frames : List TransferFrame) (w : UploadWorld)
    (result : Except String (Option Nat)) (w' : UploadWorld) : Prop where
  only : Disk.WritesOnly part w.disk w'.disk
  world : w' = { w with disk := w'.disk }
  error : (∃ e, result = .error e)
    ↔ Disagrees w.disk.faults.write w.disk.viaHelper size w.disk.writes w.disk.lost received frames
      ∧ w.refusal = false
  tail : LosesTail w.disk.faults.write w.disk.viaHelper size w.disk.writes w.disk.lost received frames
    ↔ (∃ n, result = .ok (some n)) ∧ w'.disk.lost = true
  whole : ∀ n, result = .ok (some n) → ∃ data : List UInt8,
    (∃ (chunks : List (List UInt8)) (complete : TransferComplete) (rest : List TransferFrame),
      frames = chunks.map .putChunk ++ .putComplete complete :: rest ∧ data = chunks.flatten
        ∧ received + data.length = size ∧ complete.size.toNat = size)
    ∧ (w'.disk.lost = false →
        w.disk.lost = false ∧ w'.disk.content part = w.disk.content part ++ data)
    ∧ (w'.disk.content part).length + w'.disk.lost.toNat
      ≤ (w.disk.content part).length + data.length + w.disk.lost.toNat

section

variable {part : Path} {size received : Nat} {w : UploadWorld}

/-- Going on after a write that is accepted. -/
theorem accept_then {P : Nat → Bool → Prop} {accepted : Option (Nat × Bool)} {n : Nat} {lost : Bool}
    (h : accepted = some (n, lost)) :
    (∃ n' lost', accepted = some (n', lost') ∧ P n' lost') ↔ P n lost := by
  constructor
  · rintro ⟨n', lost', h', hp⟩
    rw [h] at h'
    cases h'
    exact hp
  · intro hp
    exact ⟨n, lost, h, hp⟩

/-- A refusal inside the loop. -/
theorem run_loop_refuse (failure : TransferFailure) :
    UploadWorld.run (refuse failure >>= fun sent =>
        match sent with
        | .error e => pure (.error e)
        | .ok _ => pure (.ok none) : ServeProg (Except String (Option Nat))) w
      = (if w.refusal then .ok none else .error "stream write failed", w) := by
  rw [UploadWorld.run_bind, refuse, UploadWorld.run_send]
  show UploadWorld.run (match (if w.refusal then Except.ok () else .error _ : Except String Unit) with
    | .error e => _ | .ok _ => _) w = _
  cases w.refusal <;> rfl

theorem run_uploadLoop_chunk (chunk : List UInt8) (rest : List TransferFrame) :
    UploadWorld.run (uploadLoop debug part size received (.putChunk chunk :: rest)) w
      = if size < received + chunk.length then
          (if w.refusal then .ok none else .error "stream write failed", w)
        else if (w.disk.write part chunk).1 = true then
          UploadWorld.run (uploadLoop debug part size (received + chunk.length) rest)
            { w with disk := (w.disk.write part chunk).2 }
        else (.ok none, { w with disk := (w.disk.write part chunk).2 }) := by
  rw [uploadLoop, UploadWorld.run_took]
  by_cases hsize : size < received + chunk.length
  · rw [if_pos hsize, if_pos hsize]
    exact run_loop_refuse _
  · rw [if_neg hsize, if_neg hsize, UploadWorld.run_writeAll]
    split_ifs <;> rfl

theorem run_uploadLoop_complete (complete : TransferComplete) (rest : List TransferFrame) :
    UploadWorld.run (uploadLoop debug part size received (.putComplete complete :: rest)) w
      = (if complete.size.toNat ≠ received ∨ received ≠ size then
            if w.refusal then .ok none else .error "stream write failed"
          else .ok (some received), w) := by
  rw [uploadLoop, UploadWorld.run_took]
  split_ifs with hsize
  · exact (run_loop_refuse _).trans (by rw [if_pos ‹_›])
  · exact (run_loop_refuse _).trans (by rw [if_neg ‹_›])
  · rfl

/-- A way out that says nothing about sizes. -/
theorem left_of_given_up {frames : List TransferFrame} {w' : UploadWorld}
    (honly : Disk.WritesOnly part w.disk w'.disk) (hworld : w' = { w with disk := w'.disk })
    (hdis : ¬ Disagrees w.disk.faults.write w.disk.viaHelper size w.disk.writes w.disk.lost received
      frames)
    (htail : ¬ LosesTail w.disk.faults.write w.disk.viaHelper size w.disk.writes w.disk.lost received
      frames) : Left part size received frames w (.ok none) w' where
  only := honly
  world := hworld
  error := iff_of_false (by simp) fun h => hdis h.1
  tail := iff_of_false htail (by simp)
  whole := fun n h => by cases h

theorem uploadLoop_left (frames : List TransferFrame) (ho : w.disk.Opened part) :
    ∃ result w', UploadWorld.run (uploadLoop debug part size received frames) w = (result, w')
      ∧ Left part size received frames w result w' := by
  induction frames generalizing received w with
  | nil => exact ⟨_, w, rfl, left_of_given_up (.refl _ _) rfl id id⟩
  | cons frame rest ih =>
      cases frame with
      | putChunk chunk =>
          rw [run_uploadLoop_chunk]
          by_cases hsize : size < received + chunk.length
          · -- more than was declared
            rw [if_pos hsize]
            refine ⟨_, w, rfl, .refl _ _, rfl, ?_, iff_of_false (fun h => ?_) ?_, ?_⟩
            · cases hr : w.refusal with
              | true => simp
              | false => exact iff_of_true ⟨_, rfl⟩ ⟨.inl hsize, rfl⟩
            · have := h.1
              omega
            · rintro ⟨⟨n, hn⟩, -⟩
              cases hr : w.refusal <;> rw [hr] at hn <;> cases hn
            · intro n hn
              cases hr : w.refusal <;> rw [hr] at hn <;> cases hn
          rw [if_neg hsize]
          rcases Disk.write_spec ho chunk with ⟨d', hwrite, hacc, haccept⟩ | ⟨d', hwrite, honly, haccept⟩
          · rw [hwrite, if_pos rfl]
            obtain ⟨result, w', hrun, hleft⟩ := @ih (received + chunk.length) { w with disk := d' }
              (hacc.only.opened ho)
            refine ⟨result, w', hrun, hacc.only.trans hleft.only, hleft.world, ?_, ?_, ?_⟩
            · rw [hleft.error]
              refine and_congr_left fun _ => ?_
              show Disagrees d'.faults.write d'.viaHelper size d'.writes d'.lost _ rest ↔ _
              rw [hacc.only.faults, hacc.only.viaHelper]
              have hsame := accept_then (P := fun n lost => Disagrees w.disk.faults.write
                w.disk.viaHelper size n lost (received + chunk.length) rest) haccept
              exact ⟨fun h => .inr (hsame.mpr h), fun h => hsame.mp (h.resolve_left hsize)⟩
            · rw [← hleft.tail]
              show _ ↔ LosesTail d'.faults.write d'.viaHelper size d'.writes d'.lost _ rest
              rw [hacc.only.faults, hacc.only.viaHelper]
              have hsame := accept_then (P := fun n lost => LosesTail w.disk.faults.write
                w.disk.viaHelper size n lost (received + chunk.length) rest) haccept
              exact ⟨fun h => hsame.mp h.2, fun h => ⟨by omega, hsame.mpr h⟩⟩
            · intro n hn
              obtain ⟨data, ⟨chunks, complete, rest', hframes, hdata, hlen, hcomplete⟩, hwhole, hshort⟩ :=
                hleft.whole n hn
              refine ⟨chunk ++ data, ⟨chunk :: chunks, complete, rest', by rw [hframes]; rfl,
                by rw [hdata, List.flatten_cons], by rw [List.length_append]; omega, hcomplete⟩, ?_, ?_⟩
              · intro hl
                obtain ⟨hl', hc⟩ := hwhole hl
                obtain ⟨hl'', hc'⟩ := hacc.whole hl'
                refine ⟨hl'', ?_⟩
                rw [hc]
                show d'.content part ++ data = _
                rw [hc', List.append_assoc]
              · have h₁ := hacc.short
                have h₂ : (w'.disk.content part).length + w'.disk.lost.toNat
                    ≤ (d'.content part).length + data.length + d'.lost.toNat := hshort
                rw [List.length_append]
                omega
          · rw [hwrite, if_neg Bool.false_ne_true]
            refine ⟨_, _, rfl, left_of_given_up honly rfl ?_ ?_⟩
            · rintro (h | ⟨n', lost', h, -⟩)
              · exact hsize h
              · rw [haccept] at h
                cases h
            · rintro ⟨-, n', lost', h, -⟩
              rw [haccept] at h
              cases h
      | putComplete complete =>
          rw [run_uploadLoop_complete]
          by_cases hsizes : complete.size.toNat ≠ received ∨ received ≠ size
          · rw [if_pos hsizes]
            refine ⟨_, w, rfl, .refl _ _, rfl, ?_, iff_of_false (fun h => ?_) ?_, ?_⟩
            · cases hr : w.refusal with
              | true => simp
              | false => exact iff_of_true ⟨_, rfl⟩ ⟨hsizes, rfl⟩
            · rcases hsizes with hne | hne
              · exact hne h.1
              · exact hne h.2.1
            · rintro ⟨⟨n, hn⟩, -⟩
              cases hr : w.refusal <;> rw [hr] at hn <;> cases hn
            · intro n hn
              cases hr : w.refusal <;> rw [hr] at hn <;> cases hn
          · rw [if_neg hsizes]
            rw [not_or, not_not, not_not] at hsizes
            refine ⟨_, w, rfl, .refl _ _, rfl, iff_of_false (by simp) fun h => ?_, ?_, ?_⟩
            · rcases h.1 with hne | hne
              · exact hne hsizes.1
              · exact hne hsizes.2
            · exact ⟨fun h => ⟨⟨_, rfl⟩, h.2.2⟩, fun h => ⟨hsizes.1, hsizes.2, h.2⟩⟩
            · intro n hn
              refine ⟨[], ⟨[], complete, rest, rfl, rfl, hsizes.2, hsizes.1.trans hsizes.2⟩, ?_, ?_⟩
              · intro hl
                exact ⟨hl, (List.append_nil _).symm⟩
              · exact Nat.le_refl _
      | _ => exact ⟨_, w, rfl, left_of_given_up (.refl _ _) rfl id id⟩

end

/-! ## After the loop -/

namespace Disk

theorem settle_of_idle {d : Disk} (h : d.pipe = none) : d.settle = d := by rw [settle, h]

/-- The helper has done its work, or there is none. -/
theorem settle_spec {d : Disk} {part : Path} (ho : d.Opened part) :
    d.settle.pipe = none ∧ d.settle.files part = some (d.content part)
      ∧ d.settle.faults = d.faults ∧ ∀ p, p ≠ part → d.settle.files p = d.files p := by
  rcases ho with ⟨hp, hs⟩ | ⟨hv, bytes, hp⟩
  · rw [settle_of_idle hp]
    obtain ⟨data, hdata⟩ := Option.isSome_iff_exists.mp hs
    refine ⟨hp, ?_, rfl, fun _ _ => rfl⟩
    simp only [content, hp, hdata, Option.getD_some]
  · have hsettle : d.settle = { d.put part (some bytes) with pipe := none } := by rw [settle, hp]
    rw [hsettle]
    refine ⟨rfl, ?_, rfl, fun p hne => put_files_ne d hne _⟩
    simp only [content, hp]
    exact put_files_self d part _

theorem flush_spec (d : Disk) (part : Path) :
    d.flush.files = d.files ∧ d.flush.faults = d.faults ∧ d.flush.content part = d.content part
      ∧ (d.Opened part → d.flush.Opened part)
      ∧ d.flush.lost = if d.viaHelper then d.lost else false := by
  cases hv : d.viaHelper with
  | true =>
      have hflush : d.flush = d := by rw [flush, hv, if_pos rfl]
      rw [hflush]
      exact ⟨rfl, rfl, rfl, id, rfl⟩
  | false =>
      have hflush : d.flush = { d with lost := false } := by rw [flush, hv, if_neg Bool.false_ne_true]
      rw [hflush]
      exact ⟨rfl, rfl, rfl, id, rfl⟩

end Disk

section

variable {dest part : Path} {w : UploadWorld} {data : List UInt8}

/-- **The end of an upload**: the part file takes its place, or is removed. -/
theorem run_settleUpload (context : ShellContext) (request : PutRequest) (hne : part ≠ dest)
    (hpipe : w.disk.pipe = none) (hpart : w.disk.files part = some data)
    (hdest : w.disk.files dest = none) (finished : Bool) (outcome : Option Nat) :
    ∃ w', (UploadWorld.run (settleUpload context request ⟨dest, part⟩ finished outcome) w).2 = w'
      ∧ w'.disk.pipe = none
      ∧ (outcome.isSome ∧ finished = true ∧ w.disk.faults.rename = true ∧ w'.disk.files dest = some data
        ∨ ¬ (outcome.isSome ∧ finished = true ∧ w.disk.faults.rename = true)
          ∧ w'.disk.files dest = none ∧ w'.disk.files part = none) := by
  have hremoved : (w.disk.put part none).files dest = none ∧ (w.disk.put part none).files part = none :=
    ⟨(Disk.put_files_ne _ (Ne.symm hne) _).trans hdest, Disk.put_files_self _ _ _⟩
  refine ⟨_, rfl, ?_⟩
  cases outcome with
  | none => exact ⟨hpipe, .inr ⟨by simp, hremoved⟩⟩
  | some received =>
      cases finished with
      | false => exact ⟨hpipe, .inr ⟨by simp, hremoved⟩⟩
      | true =>
          rw [settleUpload, if_pos rfl, UploadWorld.run_bind, UploadWorld.run_serve]
          have hrename : Disk.run (context.rename part dest) w.disk
              = (context.report "rename" w.disk.faults.rename,
                  if w.disk.faults.rename then (w.disk.put part none).put dest (some data)
                  else w.disk) := by
            rw [ShellContext.rename, Disk.run_rename, hpart]
            cases w.disk.faults.rename <;> rfl
          rw [hrename]
          cases hr : w.disk.faults.rename with
          | true =>
              have hreport : context.report "rename" true = .ok true := by
                cases context <;> rfl
              rw [hreport, if_pos rfl]
              dsimp only
              rw [UploadWorld.run_bind, UploadWorld.run_serve, UploadWorld.run_send]
              have hmode : ∀ d, Disk.run (chmod dest (request.mode.map UInt32.toNat)) d = ((), d) := by
                intro d
                cases request.mode <;> rfl
              rw [hmode]
              exact ⟨hpipe, .inl ⟨rfl, rfl, rfl, Disk.put_files_self _ _ _⟩⟩
          | false =>
              rw [if_neg Bool.false_ne_true]
              refine ⟨?_, .inr ⟨by simp, ?_⟩⟩
              · cases context <;> exact hpipe
              · cases context <;> exact hremoved

/-- **All or nothing**: the destination holds every chunk of a whole upload, or it is absent and
nothing is left of the part file. -/
def AllOrNothing (size : Nat) (dest part : Path) (frames : List TransferFrame) (d : Disk) : Prop :=
  (∃ data, IsWhole size frames data ∧ d.files dest = some data)
    ∨ (d.files dest = none ∧ d.files part = none)

/-- What gets past the handler, once the part file is open. -/
def Slips (request : PutRequest) (frames : List TransferFrame) (w : UploadWorld) : Prop :=
  (w.ready = false ∧ w.disk.pipe ≠ none)
    ∨ (w.ready = true ∧ w.refusal = false
      ∧ Disagrees w.disk.faults.write w.disk.viaHelper request.size.toNat w.disk.writes w.disk.lost 0
        frames)
    ∨ (w.ready = true ∧ w.disk.viaHelper = false ∧ w.disk.faults.finish = true
      ∧ w.disk.faults.rename = true
      ∧ LosesTail w.disk.faults.write w.disk.viaHelper request.size.toNat w.disk.writes w.disk.lost 0
        frames)

/-- A part file that is left. -/
theorem not_allOrNothing_of_part {size : Nat} {frames : List TransferFrame} {d : Disk}
    (hne : part ≠ dest) (ho : d.Opened part) (hdest : d.files dest = none) :
    ¬ AllOrNothing size dest part frames d.settle := by
  obtain ⟨-, hpart, -, hothers⟩ := Disk.settle_spec ho
  rintro (⟨data, -, h⟩ | ⟨-, h⟩)
  · rw [hothers dest (Ne.symm hne), hdest] at h
    cases h
  · rw [hpart] at h
    cases h

/-- The flush, the end of the helper and what follows. -/
theorem receiveUpload_end (context : ShellContext) (request : PutRequest)
    (frames : List TransferFrame) {outcome : Option Nat} {w₁ : UploadWorld} (hne : part ≠ dest)
    (ho : w.disk.Opened part) (hempty : w.disk.content part = []) (hlost : w.disk.lost = false)
    (hdest : w.disk.files dest = none) (hready : w.ready = true)
    (hleft : Left part request.size.toNat 0 frames w (.ok outcome) w₁) :
    AllOrNothing request.size.toNat dest part frames
        (UploadWorld.run (do
          let _ : Bool ← (ServeOp.flush part).perform
          let finished : Bool ← (ServeOp.blob (.fs (.finish part))).perform
          settleUpload context request ⟨dest, part⟩ finished outcome) w₁).2.disk.settle
      ↔ ¬ Slips request frames w := by
  have hdest₁ : w₁.disk.files dest = none := (hleft.only.files dest (Ne.symm hne)).trans hdest
  obtain ⟨hfiles, hfaults, hcontent, hopened, hlostFlush⟩ := Disk.flush_spec w₁.disk part
  obtain ⟨hpipe, hpart, hfaultsSettle, hothers⟩ :=
    Disk.settle_spec (hopened (hleft.only.opened ho))
  have hdest₂ : w₁.disk.flush.settle.files dest = none := by
    rw [hothers dest (Ne.symm hne), hfiles, hdest₁]
  rw [hleft.only.viaHelper] at hlostFlush
  have hfaults₂ : w₁.disk.flush.settle.faults = w.disk.faults := by
    rw [hfaultsSettle, hfaults, hleft.only.faults]
  rw [UploadWorld.run_flush, UploadWorld.run_finish]
  obtain ⟨w', hw', hpipe', hend⟩ := run_settleUpload
    (w := { w₁ with disk := { w₁.disk.flush.settle with lost := false } }) context request hne hpipe hpart
    hdest₂ (w₁.disk.flush.faults.finish && !w₁.disk.flush.lost) outcome
  have hfinish : w₁.disk.flush.faults.finish = w.disk.faults.finish := by
    rw [hfaults, hleft.only.faults]
  have hrename : w₁.disk.flush.settle.faults.rename = w.disk.faults.rename := by rw [hfaults₂]
  show AllOrNothing _ dest part frames
    (UploadWorld.run _ { w₁ with disk := { w₁.disk.flush.settle with lost := false } }).2.disk.settle ↔ _
  rw [hw', Disk.settle_of_idle hpipe']
  rcases hend with ⟨hsome, hfin, hren, hput⟩ | ⟨hfailed, habsent⟩
  · -- the part file has taken its place
    obtain ⟨n, rfl⟩ := Option.isSome_iff_exists.mp hsome
    rw [Bool.and_eq_true, Bool.not_eq_true', hfinish] at hfin
    obtain ⟨hfin, hflushed⟩ := hfin
    obtain ⟨data, hwhole, hkept, hshort⟩ := hleft.whole n rfl
    rw [hempty, List.nil_append] at hkept
    rw [hempty, hlost] at hshort
    cases hl : w₁.disk.lost with
    | false =>
        refine iff_of_true (.inl ⟨data, ?_, ?_⟩) ?_
        · obtain ⟨chunks, complete, rest, hframes, hdata, hlen, hcomplete⟩ := hwhole
          exact ⟨chunks, complete, rest, hframes, hdata, by omega, hcomplete⟩
        · rw [hput, hcontent, (hkept hl).2]
        · rintro (⟨h, -⟩ | ⟨-, h⟩ | ⟨-, -, -, -, h⟩)
          · rw [hready] at h
            cases h
          · obtain ⟨e, he⟩ := hleft.error.mpr ⟨h.2, h.1⟩
            cases he
          · have := (hleft.tail.mp h).2
            rw [hl] at this
            cases this
    | true =>
        -- a write was lost, and the flush that knew of it was not asked
        have hhelper : w.disk.viaHelper = false := by
          cases hv : w.disk.viaHelper with
          | false => rfl
          | true =>
              rw [hv, if_pos rfl, hl] at hlostFlush
              rw [hlostFlush] at hflushed
              cases hflushed
        refine iff_of_false ?_ ?_
        · rintro (⟨data', hwhole', h⟩ | ⟨h, -⟩)
          · rw [hput] at h
            have hbytes := congrArg List.length (Option.some.inj h)
            rw [hcontent] at hbytes
            obtain ⟨_, _, _, _, _, hlen', _⟩ := hwhole'
            obtain ⟨_, _, _, _, _, hlen, _⟩ := hwhole
            rw [hl] at hshort
            simp only [Bool.toNat_true, Bool.toNat_false, List.length_nil] at hshort
            omega
          · rw [hput] at h
            cases h
        · intro h
          exact h (.inr (.inr ⟨hready, hhelper, hfin, by rw [← hrename]; exact hren,
            hleft.tail.mpr ⟨⟨n, rfl⟩, hl⟩⟩))
  · refine iff_of_true (.inr habsent) ?_
    rintro (⟨h, -⟩ | ⟨-, h⟩ | ⟨-, hhelper, hfin, hren, h⟩)
    · rw [hready] at h
      cases h
    · obtain ⟨e, he⟩ := hleft.error.mpr ⟨h.2, h.1⟩
      cases he
    · obtain ⟨⟨n, hn⟩, -⟩ := hleft.tail.mp h
      cases hn
      rw [hhelper, if_neg Bool.false_ne_true] at hlostFlush
      refine hfailed ⟨rfl, ?_, ?_⟩
      · rw [hlostFlush, hfinish, hfin]
        rfl
      · exact hrename.trans hren

/-- **What follows once the part file is open.** -/
theorem receiveUpload_iff (context : ShellContext) (request : PutRequest)
    (frames : List TransferFrame) (hne : part ≠ dest) (ho : w.disk.Opened part)
    (hempty : w.disk.content part = []) (hlost : w.disk.lost = false)
    (hdest : w.disk.files dest = none) :
    AllOrNothing request.size.toNat dest part frames
        (UploadWorld.run (receiveUpload debug context request ⟨dest, part⟩ frames) w).2.disk.settle
      ↔ ¬ Slips request frames w := by
  rw [receiveUpload, UploadWorld.run_stdin, if_pos rfl, UploadWorld.run_bind, UploadWorld.run_send]
  cases hready : w.ready with
  | false =>
      -- the part file is removed, unless a helper has yet to open it
      have hsends : w.sends (.putReady ⟨request.size, request.mode⟩) = false := hready
      rw [hsends, if_neg Bool.false_ne_true]
      dsimp only
      rw [UploadWorld.run_discard, UploadWorld.run_pure]
      show AllOrNothing _ dest part frames (w.disk.put part none).settle ↔ _
      rcases ho with ⟨hp, -⟩ | ⟨hv, bytes, hp⟩
      · have hp' : (w.disk.put part none).pipe = none := hp
        refine iff_of_true ?_ ?_
        · rw [Disk.settle_of_idle hp']
          exact .inr ⟨(Disk.put_files_ne _ (Ne.symm hne) _).trans hdest, Disk.put_files_self _ _ _⟩
        · rintro (⟨-, h⟩ | ⟨h, -⟩ | ⟨h, -⟩)
          · exact h hp
          · rw [hready] at h
            cases h
          · rw [hready] at h
            cases h
      · refine iff_of_false ?_ ?_
        · refine not_allOrNothing_of_part hne (.inr ⟨hv, bytes, hp⟩) ?_
          exact (Disk.put_files_ne _ (Ne.symm hne) _).trans hdest
        · intro h
          exact h (.inl ⟨hready, by rw [hp]; simp⟩)
  | true =>
      have hsends : w.sends (.putReady ⟨request.size, request.mode⟩) = true := hready
      rw [hsends, if_pos rfl]
      dsimp only
      rw [UploadWorld.run_bind]
      have hloop : ∃ result w', UploadWorld.run (uploadLoop debug part request.size.toNat 0 frames) w
          = (result, w') ∧ Left part request.size.toNat 0 frames w result w' := uploadLoop_left frames ho
      obtain ⟨result, w₁, hrun, hleft⟩ := hloop
      have hdest₁ : w₁.disk.files dest = none := (hleft.only.files dest (Ne.symm hne)).trans hdest
      rw [hrun]
      cases result with
      | error e =>
          -- the part file stays
          refine iff_of_false (not_allOrNothing_of_part hne (hleft.only.opened ho) hdest₁) ?_
          obtain ⟨hdis, hrefusal⟩ := hleft.error.mp ⟨e, rfl⟩
          intro h
          exact h (.inr (.inl ⟨hready, hrefusal, hdis⟩))
      | ok outcome => exact receiveUpload_end context request frames hne ho hempty hlost hdest hready hleft

end

/-! ## The request -/

/-- The surroundings before an upload to a destination that is not there. -/
structure UploadWorld.Fresh (context : ShellContext) (dest : Path) (w : UploadWorld) : Prop where
  viaHelper : w.disk.viaHelper = context.isLive
  mkdirs : w.disk.mkdirs = 0
  writes : w.disk.writes = 0
  lost : w.disk.lost = false
  pipe : w.disk.pipe = none
  absent : w.disk.files dest = none
  unused : w.disk.files (partOf dest w.disk.stamp) = none

/-- **What gets past the handler**: a late helper that is no longer wanted, sizes that disagree where
the error cannot be written, and a lost write that only the unread flush would report. -/
def Mishap (live : Bool) (size : Nat) (frames : List TransferFrame) (ready refusal : Bool)
    (faults : Faults) : Prop :=
  faults.probe = true ∧ faults.mkdir 0 = true ∧ faults.create ≠ .fails
    ∧ ((ready = false ∧ live = true ∧ faults.create = .late)
      ∨ (ready = true ∧ refusal = false ∧ Disagrees faults.write live size 0 false 0 frames)
      ∨ (ready = true ∧ live = false ∧ faults.finish = true ∧ faults.rename = true
        ∧ LosesTail faults.write live size 0 false 0 frames))

section

variable {context : ShellContext} {dest : Path} {w : UploadWorld}

/-- `prepare_put_destination` where the destination is not there. -/
theorem run_preparePutDestination {raw : List Char} {d : Disk}
    (hpath : context.resolvePath raw = .ok dest) (hmkdirs : d.mkdirs = 0)
    (habsent : d.files dest = none) :
    (d.faults.probe = true ∧ d.faults.mkdir 0 = true
        ∧ Disk.run (preparePutDestination context raw) d
          = (.ok (some ⟨dest, partOf dest d.stamp⟩), { d with mkdirs := 1 }))
      ∨ ¬ (d.faults.probe = true ∧ d.faults.mkdir 0 = true)
        ∧ ∃ e n, Disk.run (preparePutDestination context raw) d = (.error e, { d with mkdirs := n }) := by
  rw [preparePutDestination, hpath]
  dsimp only
  rw [Disk.run_pathMissing, habsent]
  cases hprobe : d.faults.probe with
  | false => exact .inr ⟨by simp, _, d.mkdirs, rfl⟩
  | true =>
      rw [if_pos rfl]
      have hmkdir : Disk.run (context.createDirAll (dest.parent.getD .dot)) d
          = (context.report "create_dir_all" (d.faults.mkdir 0), { d with mkdirs := 1 }) := by
        rw [ShellContext.createDirAll, Disk.run_createDirAll, hmkdirs]
        rfl
      dsimp only [Option.isNone_none]
      rw [Disk.run_bind, hmkdir]
      cases d.faults.mkdir 0 with
      | false => exact .inr ⟨by simp, by cases context <;> exact ⟨_, 1, rfl⟩⟩
      | true => exact .inl ⟨rfl, rfl, by cases context <;> rfl⟩

/-- A part file that has been created, or that a helper is going to create. -/
structure Creates (part : Path) (d d' : Disk) : Prop where
  opened : d'.Opened part
  empty : d'.content part = []
  files : ∀ p, p ≠ part → d'.files p = d.files p
  faults : d'.faults = d.faults
  viaHelper : d'.viaHelper = d.viaHelper
  writes : d'.writes = d.writes
  lost : d'.lost = d.lost
  late : d'.pipe ≠ none ↔ d.viaHelper = true ∧ d.faults.create = .late

/-- How the part file comes to be: not at all, at once, or when the helper gets to run. -/
theorem answer_createFile {d : Disk} (part : Path) (hpipe : d.pipe = none) :
    (d.faults.create = .fails ∧ Disk.answer (.createFile part) d = (false, d))
      ∨ d.faults.create ≠ .fails
        ∧ ∃ d', Disk.answer (.createFile part) d = (true, d') ∧ Creates part d d' := by
  have hnow (hlate : ¬ (d.viaHelper = true ∧ d.faults.create = .late)) :
      Creates part d (d.put part (some [])) := by
    have hp : (d.put part (some [])).pipe = none := hpipe
    refine ⟨.inl ⟨hp, by rw [Disk.put_files_self]; rfl⟩, ?_, fun p hp => Disk.put_files_ne _ hp _, rfl,
      rfl, rfl, rfl, iff_of_false (fun h => h hpipe) hlate⟩
    rw [Disk.content, hp, Disk.put_files_self]
    rfl
  simp only [Disk.answer]
  cases hc : d.faults.create with
  | fails => exact .inl ⟨rfl, rfl⟩
  | works =>
      rw [hc] at hnow
      exact .inr ⟨by simp, _, rfl, hnow (by simp)⟩
  | late =>
      refine .inr ⟨by simp, ?_⟩
      cases hv : d.viaHelper with
      | false =>
          rw [hv] at hnow
          exact ⟨_, rfl, hnow (by simp)⟩
      | true =>
          exact ⟨_, rfl, .inr ⟨rfl, [], rfl⟩, rfl, fun _ _ => rfl, rfl, hv.symm, rfl, rfl,
            by simp [hv, hc]⟩

/-- Nothing has happened. -/
theorem allOrNothing_of_same {size : Nat} {frames : List TransferFrame} {d d' : Disk} {part : Path}
    (hfiles : d'.files = d.files) (hpipe : d'.pipe = none) (hdest : d.files dest = none)
    (hpart : d.files part = none) : AllOrNothing size dest part frames d'.settle := by
  rw [Disk.settle_of_idle hpipe]
  exact .inr ⟨by rw [hfiles, hdest], by rw [hfiles, hpart]⟩

end

namespace Proof

/-- **An upload is all or nothing exactly if no mishap gets past the handler.** -/
theorem upload_all_or_nothing_iff (debug : TransferFrame → String) (context : ShellContext)
    (request : PutRequest) (frames : List TransferFrame) (dest : Path) (w : UploadWorld)
    (hpath : context.resolvePath request.path.toList = .ok dest) (hw : w.Fresh context dest) :
    AllOrNothing request.size.toNat dest (partOf dest w.disk.stamp) frames
        (UploadWorld.run (handleSinglePut debug context request frames) w).2.disk.settle
      ↔ ¬ Mishap context.isLive request.size.toNat frames w.ready w.refusal w.disk.faults := by
  rw [handleSinglePut, UploadWorld.run_bind, UploadWorld.run_serve]
  rcases run_preparePutDestination (d := w.disk) hpath hw.mkdirs hw.absent with
    ⟨hprobe, hmkdir, hrun⟩ | ⟨hnot, e, n, hrun⟩
  · rw [hrun]
    dsimp only
    rw [UploadWorld.run_createFile]
    rcases answer_createFile (d := { w.disk with mkdirs := 1 }) (partOf dest w.disk.stamp) hw.pipe with
      ⟨hcreate, hanswer⟩ | ⟨hcreate, d', hanswer, hd⟩
    · rw [hanswer, if_neg Bool.false_ne_true]
      refine iff_of_true (allOrNothing_of_same rfl hw.pipe hw.absent hw.unused) ?_
      rintro ⟨-, -, h, -⟩
      exact h hcreate
    · rw [hanswer, if_pos rfl]
      have hdest : d'.files dest = none :=
        (hd.files dest (Ne.symm (partOf_ne dest w.disk.stamp))).trans hw.absent
      have hlost : d'.lost = false := hd.lost.trans hw.lost
      have hwrites : d'.writes = 0 := hd.writes.trans hw.writes
      have hhelper : d'.viaHelper = context.isLive := hd.viaHelper.trans hw.viaHelper
      have hfaults : d'.faults = w.disk.faults := hd.faults
      have hlate : d'.pipe ≠ none ↔ context.isLive = true ∧ w.disk.faults.create = .late := by
        rw [← hw.viaHelper]
        exact hd.late
      refine (receiveUpload_iff (w := { w with disk := d' }) context request frames
        (partOf_ne dest w.disk.stamp) hd.opened hd.empty hlost hdest).trans (not_congr ?_)
      show (_ ∧ d'.pipe ≠ none) ∨ (_ ∧ _ ∧ Disagrees d'.faults.write d'.viaHelper _ d'.writes d'.lost 0 _)
        ∨ (_ ∧ d'.viaHelper = false ∧ d'.faults.finish = true ∧ d'.faults.rename = true
          ∧ LosesTail d'.faults.write d'.viaHelper _ d'.writes d'.lost 0 _) ↔ _
      rw [hlate, hlost, hwrites, hhelper, hfaults]
      exact ⟨fun h => ⟨hprobe, hmkdir, hcreate, h⟩, fun h => h.2.2.2⟩
  · rw [hrun]
    refine iff_of_true (allOrNothing_of_same rfl hw.pipe hw.absent hw.unused) ?_
    rintro ⟨hprobe, hmkdir, -⟩
    exact hnot ⟨hprobe, hmkdir⟩

/-- A one-byte upload to a fresh place, where writes go as given. -/
def oneByteUpload (fate : WriteFate) : Except String Unit × UploadWorld :=
  UploadWorld.run
    (handleSinglePut (fun _ => "") (.stateless none) ⟨"/f", 1, none, false⟩ [.putChunk [7], .putComplete ⟨1⟩])
    ⟨⟨fun _ => none, ⟨['1'], slash_notMem_one⟩, false, { noFaults with write := fun _ => fate }, 0,
      0, false, none⟩,
      true, true, true, ⟨.internal, ""⟩⟩

/-- The byte is there, and no mishap has happened. -/
theorem upload_all_or_nothing_one_byte :
    (oneByteUpload .works).2.disk.settle.files (parse ['/', 'f']) = some [7]
      ∧ (AllOrNothing 1 (parse ['/', 'f']) (partOf (parse ['/', 'f']) ⟨['1'], by decide⟩)
          [.putChunk [7], .putComplete ⟨1⟩] (oneByteUpload .works).2.disk.settle
        ↔ ¬ Mishap false 1 [.putChunk [7], .putComplete ⟨1⟩] true true
          { noFaults with write := fun _ => .works }) :=
  ⟨by rfl, upload_all_or_nothing_iff (fun _ => "") (.stateless none) ⟨"/f", 1, none, false⟩ _
    (parse ['/', 'f']) _ rfl ⟨rfl, rfl, rfl, rfl, rfl, rfl, rfl⟩⟩

/-- The byte is accepted and then lost. The flush that is told of it is not asked, the next one finds
nothing wrong, and the destination is an empty file. -/
theorem upload_loses_byte :
    (oneByteUpload .later).1 = .ok ()
      ∧ (oneByteUpload .later).2.disk.settle.files (parse ['/', 'f']) = some []
      ∧ ¬ AllOrNothing 1 (parse ['/', 'f']) (partOf (parse ['/', 'f']) ⟨['1'], by decide⟩)
        [.putChunk [7], .putComplete ⟨1⟩] (oneByteUpload .later).2.disk.settle := by
  have hempty : (oneByteUpload .later).2.disk.settle.files (parse ['/', 'f']) = some [] := by rfl
  refine ⟨by rfl, hempty, ?_⟩
  rintro (⟨data, ⟨_, _, _, _, _, hlen, _⟩, h⟩ | ⟨h, -⟩)
  · rw [hempty] at h
    cases h
    cases hlen
  · rw [hempty] at h
    cases h

end Proof

end Irosh
