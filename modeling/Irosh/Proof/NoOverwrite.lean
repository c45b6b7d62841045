import Mathlib.Tactic.IntervalCases
import Irosh.Transfer.Concurrent

/-!
# Uploads to one destination

A destination is checked before anything is received and renamed to after everything
has been. The check does not reserve it: whoever finds it missing in between goes on as
well, and the later rename replaces what the earlier one has put there. Where no check
falls between another handler's check and rename of the same destination, nothing is
ever replaced and a destination is reported at most once.
-/

namespace Irosh

open UnixPath Wire Serve

/-! ## What handlers do, in order -/

namespace PutView

/-- What a handler may do: it touches its own part file only, renames it to the destination it has
checked, and reports success when it has renamed to all it has asked for. -/
def Ok (view : PutView) : ServeOp → Prop
  | .blob (.fs (.pathMissing _)) => view.pending = none
  | .blob (.fs (.createFile p)) => view.part = some p
  | .blob (.fs (.writeAll p _)) => view.part = some p
  | .blob (.fs (.finish p)) => view.part = some p
  | .blob (.fs (.removeFile p)) => view.part = some p
  | .flush p => view.part = some p
  | .blob (.fs (.rename src dst)) => view.part = some src ∧ view.pending = some dst
  | .blob (.fs (.copy _ _)) => False
  | .blob (.fs (.exportBlob _ _)) => False
  | .blob (.send (.putComplete _)) => view.landed = view.asked
  | _ => True

/-- Between two files. -/
structure Idle (view : PutView) : Prop where
  pending : view.pending = none
  landed : view.landed = view.asked

/-- While a file is received. -/
structure Working (prepared : PreparedPutDestination) (view : PutView) : Prop where
  pending : view.pending = some prepared.final
  part : view.part = some prepared.part
  asked : view.asked = view.landed ++ [prepared.final]

end PutView

section

variable {α : Type} {debug : TransferFrame → String} {context : ShellContext} {view : PutView}
  {prepared : PreparedPutDestination} {P : α → PutView → Prop}

/-- A handler that keeps to it. -/
abbrev Follows (P : α → PutView → Prop) (view : PutView) (p : ServeProg α) : Prop :=
  p.Tracks PutView.next PutView.Ok P view

theorem follows_refuse (failure : TransferFailure) :
    Follows (fun _ view' => view' = view) view (refuse failure) := ⟨trivial, fun _ => rfl⟩

theorem follows_discard (hw : view.Working prepared) :
    Follows (fun _ view' => view' = view) view (discard prepared.part) := ⟨hw.part, fun _ => rfl⟩

theorem follows_chmod (p : Path) (mode : Option Nat) :
    Follows (fun _ view' => view' = view) view (FsProg.serve (chmod p mode)) := by
  cases mode with
  | none => exact rfl
  | some mode => exact ⟨trivial, fun _ => rfl⟩

theorem follows_createDirAll (p : Path) :
    Follows (fun _ view' => view' = view) view (FsProg.serve (context.createDirAll p)) :=
  ⟨trivial, fun _ => rfl⟩

/-- Where the result and the view at the end do not matter. -/
theorem Follows.any {p : ServeProg α} (h : Follows P view p) : Follows (fun _ _ => True) view p := by
  induction p generalizing view with
  | pure a => trivial
  | op o k ih => exact ⟨h.1, fun r => ih r (h.2 r)⟩

/-- Going on with the same view. -/
theorem Follows.then {β : Type} {Q : β → PutView → Prop} {p : ServeProg α} {k : α → ServeProg β}
    (h : Follows (fun _ view' => view' = view) view p) (hk : ∀ a, Follows Q view (k a)) :
    Follows Q view (p >>= k) := by
  refine Prog.Tracks.bind h fun a view' hv => ?_
  subst hv
  exact hk a

/-- The check of a destination and its part file's name. -/
theorem follows_prepare (raw : List Char) (hi : view.Idle) :
    Follows (fun result view' => ∀ prepared, result = .ok (some prepared) → view'.Working prepared)
      view (FsProg.serve (preparePutDestination context raw)) := by
  unfold preparePutDestination
  cases context.resolvePath raw with
  | error e =>
      intro prepared h
      cases h
  | ok dest =>
      refine ⟨hi.pending, ?_⟩
      intro (missing : Except Unit Bool)
      rcases missing with _ | _ | _
      · intro prepared h
        cases h
      · intro prepared h
        cases h
      · refine ⟨trivial, ?_⟩
        intro (made : Bool)
        have hasked : view.asked ++ [dest] = view.landed ++ [dest] := by rw [hi.landed]
        -- with the directory made, the part file gets its name
        have hnamed : ∀ stamp, PutView.Working ⟨dest, dest.setFileName (partName dest.fileName stamp)⟩
            ⟨view.asked ++ [dest], view.landed, some dest, some (partOf dest stamp)⟩ :=
          fun _ => ⟨rfl, rfl, hasked⟩
        cases made with
        | false =>
            cases context <;>
            · intro prepared h
              cases h
        | true =>
            cases context <;>
            · refine ⟨trivial, fun stamp prepared h => ?_⟩
              cases h
              exact hnamed stamp

theorem follows_uploadLoop (size received : Nat) (frames : List TransferFrame)
    (hw : view.Working prepared) :
    Follows (fun _ view' => view' = view) view (uploadLoop debug prepared.part size received frames) := by
  induction frames generalizing received with
  | nil => exact ⟨trivial, fun _ => rfl⟩
  | cons frame frames ih =>
      cases frame with
      | putChunk chunk =>
          refine ⟨trivial, fun _ => ?_⟩
          show Prog.Tracks _ _ _ view _
          by_cases hs : size < received + chunk.length
          · simp only [Prog.bind, if_pos hs]
            refine Follows.then (follows_refuse _) fun sent => ?_
            cases sent with
            | error e => exact rfl
            | ok u => exact rfl
          · simp only [Prog.bind, if_neg hs]
            refine ⟨hw.part, ?_⟩
            intro (written : Bool)
            cases written with
            | false => exact rfl
            | true => exact ih _
      | putComplete complete =>
          refine ⟨trivial, fun _ => ?_⟩
          show Prog.Tracks _ _ _ view _
          by_cases hs : complete.size.toNat ≠ received ∨ received ≠ size
          · simp only [Prog.bind, if_pos hs]
            refine Follows.then (follows_refuse _) fun sent => ?_
            cases sent with
            | error e => exact rfl
            | ok u => exact rfl
          · simp only [Prog.bind, if_neg hs]
            exact rfl
      | error failure => exact ⟨trivial, fun _ => rfl⟩
      | _ => exact ⟨trivial, fun _ => ⟨trivial, fun _ => rfl⟩⟩

/-- A rename: on success the file has landed. -/
theorem follows_rename (hw : view.Working prepared) :
    Follows (fun result view' => match result with
        | .ok true => view'.Idle
        | _ => view' = view) view (FsProg.serve (context.rename prepared.part prepared.final)) := by
  refine ⟨⟨hw.part, hw.pending⟩, ?_⟩
  intro (renamed : Bool)
  have hlanded : PutView.Idle ⟨view.asked, view.landed ++ [prepared.final], none, none⟩ :=
    ⟨rfl, hw.asked.symm⟩
  cases renamed with
  | false => cases context <;> exact rfl
  | true => cases context <;> exact hlanded

/-- Giving up. -/
theorem follows_giveUp (hw : view.Working prepared) (e : String) :
    Follows (fun _ _ => True) view (do
      Serve.discard prepared.part
      pure (.error e) : ServeProg (Except String Unit)) :=
  Follows.then (follows_discard hw) fun _ => trivial

theorem follows_send_complete (hi : view.Idle) (complete : TransferComplete) :
    Follows (fun _ _ => True) view (send (.putComplete complete)) := ⟨hi.landed, fun _ => trivial⟩

theorem follows_settleUpload (request : PutRequest) (finished : Bool) (outcome : Option Nat)
    (hw : view.Working prepared) :
    Follows (fun _ _ => True) view (settleUpload context request prepared finished outcome) := by
  cases outcome with
  | none => exact Follows.then (follows_discard hw) fun _ => trivial
  | some received =>
      cases finished with
      | false =>
          refine Follows.then (follows_discard hw) fun _ => ?_
          exact ⟨trivial, fun _ => (follows_refuse _).any⟩
      | true =>
          refine Prog.Tracks.bind (follows_rename hw) fun renamed view' hv => ?_
          rcases renamed with e | _ | _
          · subst hv
            exact Follows.then (follows_discard hw) fun _ => trivial
          · subst hv
            exact Follows.then (follows_discard hw) fun _ => (follows_refuse _).any
          · exact Follows.then (follows_chmod _ _) fun _ => follows_send_complete hv _

theorem follows_receiveUpload (request : PutRequest) (frames : List TransferFrame)
    (hw : view.Working prepared) :
    Follows (fun _ _ => True) view (receiveUpload debug context request prepared frames) := by
  refine ⟨trivial, ?_⟩
  intro (available : Bool)
  cases available with
  | false => exact follows_giveUp hw _
  | true =>
      refine ⟨trivial, ?_⟩
      intro (sent : Bool)
      cases sent with
      | false => exact follows_giveUp hw _
      | true =>
          show Follows _ _ (uploadLoop debug prepared.part request.size.toNat 0 frames >>= _)
          refine Follows.then (follows_uploadLoop _ _ frames hw) fun received => ?_
          cases received with
          | error e => trivial
          | ok outcome =>
              refine ⟨hw.part, fun _ => ⟨hw.part, fun finished => ?_⟩⟩
              exact follows_settleUpload request finished outcome hw

theorem follows_handleSinglePut (request : PutRequest) (frames : List TransferFrame)
    (hi : view.Idle) :
    Follows (fun _ _ => True) view (handleSinglePut debug context request frames) := by
  refine Prog.Tracks.bind (follows_prepare _ hi) fun result view' hv => ?_
  rcases result with e | _ | prepared
  · trivial
  · dsimp only
    cases context.resolvePath request.path.toList with
    | error e => trivial
    | ok dest => exact (follows_refuse _).any
  · have hw := hv prepared rfl
    refine ⟨hw.part, ?_⟩
    intro (created : Bool)
    cases created with
    | false => trivial
    | true => exact follows_receiveUpload request frames hw

theorem follows_dropEntry (mismatch : Option TransferFailure) (hw : view.Working prepared) :
    Follows (fun _ _ => True) view (Serve.dropEntry prepared mismatch) := by
  refine ⟨hw.part, fun _ => ⟨hw.part, fun _ => ⟨hw.part, fun _ => ?_⟩⟩⟩
  cases mismatch with
  | none => trivial
  | some failure => exact (follows_refuse failure).any

/-- Both loops of a recursive upload, by the frames that are left. -/
theorem follows_putLoops (root : Path) (frames : List TransferFrame) :
    (∀ total view, PutView.Idle view →
        Follows (fun _ _ => True) view (Serve.putLoop context root total frames))
      ∧ ∀ total header prepared received view, PutView.Working prepared view →
        Follows (fun _ _ => True) view
          (Serve.putEntry context root total header prepared received frames) := by
  induction frames with
  | nil =>
      refine ⟨fun total view hi => trivial, fun total header prepared received view hw => ?_⟩
      exact follows_dropEntry none hw
  | cons frame frames ih =>
      refine ⟨fun total view hi => ?_, fun total header prepared received view hw => ?_⟩
      · cases frame with
        | newEntry header =>
            unfold Serve.putLoop
            cases sanitizeRelativePath header.path.toList with
            | error reason => trivial
            | ok entryPath =>
                by_cases hd : header.isDir = true
                · simp only [if_pos hd]
                  refine Follows.then (follows_createDirAll _) fun made => ?_
                  cases made with
                  | error e => trivial
                  | ok made => exact Follows.then (follows_chmod _ _) fun _ => ih.1 total view hi
                · simp only [if_neg hd]
                  refine Prog.Tracks.bind (follows_prepare _ hi) fun result view' hv => ?_
                  rcases result with e | _ | prepared
                  · trivial
                  · exact (follows_refuse _).any
                  · have hw := hv prepared rfl
                    refine ⟨hw.part, ?_⟩
                    intro (created : Bool)
                    cases created with
                    | false => trivial
                    | true =>
                        refine ⟨trivial, ?_⟩
                        intro (available : Bool)
                        cases available with
                        | false => trivial
                        | true => exact ih.2 total header prepared 0 view' hw
        | putComplete complete => exact follows_send_complete hi _
        | _ => trivial
      · cases frame with
        | putChunk chunk =>
            unfold Serve.putEntry
            by_cases hs : header.size.toNat < received + chunk.length
            · simp only [if_pos hs]
              exact follows_dropEntry _ hw
            · simp only [if_neg hs]
              refine ⟨hw.part, ?_⟩
              intro (written : Bool)
              cases written with
              | false => exact follows_dropEntry none hw
              | true => exact ih.2 total header prepared _ view hw
        | entryComplete complete =>
            unfold Serve.putEntry
            by_cases hs : received ≠ header.size.toNat
            · simp only [if_pos hs]
              exact follows_dropEntry _ hw
            · simp only [if_neg hs]
              refine ⟨hw.part, fun _ => ⟨hw.part, ?_⟩⟩
              intro (finished : Bool)
              cases finished with
              | false => exact follows_giveUp hw _
              | true =>
                  show Follows _ _ (FsProg.serve (context.rename prepared.part prepared.final) >>= _)
                  refine Prog.Tracks.bind (follows_rename hw) fun renamed view' hv => ?_
                  rcases renamed with e | _ | _
                  · trivial
                  · trivial
                  · exact Follows.then (follows_chmod _ _) fun _ => ih.1 _ view' hv
        | _ => exact follows_dropEntry none hw

/-- **Every upload handler keeps to it.** -/
theorem follows_handlePutRequest (request : PutRequest) (frames : List TransferFrame) :
    Follows (fun _ _ => True) .new (handlePutRequest debug context request frames) := by
  have hnew : PutView.Idle .new := ⟨rfl, rfl⟩
  unfold handlePutRequest
  split
  · unfold handleRecursivePut
    cases context.resolvePath request.path.toList with
    | error e => trivial
    | ok root =>
        refine Follows.then (follows_createDirAll _) fun made => ?_
        cases made with
        | error e => trivial
        | ok made =>
            refine ⟨trivial, ?_⟩
            intro (ready : Bool)
            cases ready with
            | false => trivial
            | true => exact (follows_putLoops root frames).1 0 .new hnew
  · exact follows_handleSinglePut request frames hnew

end

/-! ## The site -/

namespace UploadSite

/-- **Uploads of one destination do not overlap**: when a handler finds a destination missing, no
other one is between its own check of it and the end of that upload. Destinations have no `..`. -/
def Apart (s : UploadSite) : PutAct → Prop
  | .advance who (.blob (.fs (.pathMissing p))) (.ok true : Except Unit Bool) =>
      Part.parent ∉ p.parts
        ∧ ∀ h ∈ s.handlers.eraseIdx who, ∀ q, h.view.pending = some q → q.parts ≠ p.parts
  | _ => True

/-- The destinations that have been renamed to, by handlers that run and in reports. -/
def landings (s : UploadSite) : List Place :=
  (s.reports ++ s.handlers.flatMap (·.view.landed)).map Path.parts

/-- What each handler has found missing and not renamed to yet. -/
def pendings (s : UploadSite) : List (Option Path) := s.handlers.map (·.view.pending)

/-- What happens to the files of others: nothing, but directories may be made. -/
def Gentle (t : UploadSite) (e e' : Entries) : Prop :=
  ∀ place, ¬ t.Scratch place → e' place = e place ∨ e place = none ∧ e' place = some .dir

/-- What is always so, where uploads do not overlap. `t` is how it all ends. -/
structure Sound (t s : UploadSite) : Prop where
  named : s.named ⊆ t.named
  parts : s.parts ⊆ t.parts
  follows : ∀ h ∈ s.handlers, Follows (fun _ _ => True) h.view h.prog
  /-- A part file is named after the destination it is for. -/
  part : ∀ h ∈ s.handlers, ∀ q, h.view.part = some q →
    q ∈ s.parts ∧ ∃ p stamp, h.view.pending = some p ∧ q = partOf p stamp
  plain : ∀ q ∈ s.parts, Part.parent ∉ q.parts ∧ ∃ n, q.fileName = some n ∧ Part.normal n ∈ q.parts
  /-- A destination that was found missing is still no file. -/
  pending : ∀ p, some p ∈ s.pendings →
    Part.parent ∉ p.parts ∧ p ∈ s.named ∧ p.parts ∉ s.landings
      ∧ ∀ data, s.entries p.parts ≠ some (.file data)
  apart : s.pendings.Pairwise fun a b => ∀ p q, a = some p → b = some q → p.parts ≠ q.parts
  landed : ∀ place ∈ s.landings, s.entries place ≠ none ∧ ¬ t.Scratch place
  once : s.landings.Nodup

section

variable {t s : UploadSite} {e e' : Entries}

theorem gentle_refl (e : Entries) : Gentle t e e := fun _ _ => .inl rfl

theorem Gentle.kept (hg : Gentle t e e') {place : Place} {node : FsNode} (hs : ¬ t.Scratch place)
    (h : e place = some node) : e' place = some node := by
  rcases hg place hs with heq | ⟨hnone, -⟩
  · rw [heq, h]
  · rw [h] at hnone
    cases hnone

/-- What a handler names is not a scratch place. -/
theorem not_scratch (ht : t.PartsDistinct) {p : Path} (hp : p ∈ t.named) : ¬ t.Scratch p.parts := by
  intro h
  obtain ⟨part, hpart, n, hn, hmem⟩ := h
  exact ht part hpart n hn p hp hmem

/-- The part file is a scratch place. -/
theorem Sound.scratch_part (h : Sound t s) {q : Path} (hq : q ∈ s.parts) :
    Part.parent ∉ q.parts ∧ t.Scratch q.parts := by
  obtain ⟨hplain, n, hn, hmem⟩ := h.plain q hq
  exact ⟨hplain, q, h.parts hq, n, hn, hmem⟩

theorem gentle_onlyAt {q : Path} (hq : Part.parent ∉ q.parts ∧ t.Scratch q.parts)
    (he : OnlyAt q e e') : Gentle t e e' := by
  intro place hs
  obtain ⟨at', hleads, hothers⟩ := he
  have hat := hleads hq.1
  subst hat
  refine .inl (hothers place ?_)
  intro heq
  rw [heq] at hs
  exact hs hq.2

theorem gentle_makesDirs {p : Path} (he : MakesDirs p e e') : Gentle t e e' := by
  intro place _
  rcases he place with heq | ⟨hnone, hdir, -⟩
  · exact .inl heq
  · exact .inr ⟨hnone, hdir⟩

/-- No file appears where uploads do not put one. -/
theorem Gentle.no_file (hg : Gentle t e e') {place : Place} (hs : ¬ t.Scratch place)
    (h : ∀ data, e place ≠ some (.file data)) : ∀ data, e' place ≠ some (.file data) := by
  intro data hfile
  rcases hg place hs with heq | ⟨-, hdir⟩
  · rw [heq] at hfile
    exact h data hfile
  · rw [hdir] at hfile
    cases hfile

/-- What is there stays there. -/
theorem Gentle.ne_none (hg : Gentle t e e') {place : Place} (hs : ¬ t.Scratch place)
    (h : e place ≠ none) : e' place ≠ none := by
  obtain ⟨node, hnode⟩ := Option.ne_none_iff_exists'.mp h
  rw [hg.kept hs hnode]
  simp

/-! ### One operation of one handler -/

variable {before after : List PutHandler} {h : PutHandler} {o : ServeOp} {answer : o.Answer}
  {k : o.Answer → ServeProg (Except String Unit)}

theorem pendings_eq (hs : s.handlers = before ++ h :: after) :
    s.pendings = before.map (·.view.pending) ++ h.view.pending :: after.map (·.view.pending) := by
  rw [pendings, hs, List.map_append, List.map_cons]

theorem landings_eq (hs : s.handlers = before ++ h :: after) :
    s.landings = (s.reports ++ (before.flatMap (·.view.landed)
      ++ (h.view.landed ++ after.flatMap (·.view.landed)))).map Path.parts := by
  rw [landings, hs, List.flatMap_append, List.flatMap_cons]

theorem pendings_advanced : (s.advanced e before after h o answer k).pendings
    = before.map (·.view.pending) ++ (h.view.next o answer).pending :: after.map (·.view.pending) := by
  simp only [pendings, advanced, List.map_append, List.map_cons]

theorem landings_advanced : (s.advanced e before after h o answer k).landings
    = (s.reports ++ h.view.reported o answer ++ (before.flatMap (·.view.landed)
      ++ ((h.view.next o answer).landed ++ after.flatMap (·.view.landed)))).map Path.parts := by
  simp only [landings, advanced, List.flatMap_append, List.flatMap_cons]

/-- A handler of the site after the operation is the one that performed it, or another. -/
theorem mem_advanced {g : PutHandler} (hs : s.handlers = before ++ h :: after)
    (hg : g ∈ (s.advanced e before after h o answer k).handlers) :
    g = ⟨h.live, k answer, h.view.next o answer⟩ ∨ g ∈ s.handlers := by
  have hmem : g ∈ before ++ ⟨h.live, k answer, h.view.next o answer⟩ :: after := hg
  rw [List.mem_append, List.mem_cons] at hmem
  rw [hs, List.mem_append, List.mem_cons]
  rcases hmem with hb | hself | ha
  · exact .inr (.inl hb)
  · exact .inl hself
  · exact .inr (.inr (.inr ha))

/-- The handlers still keep to it. -/
theorem Sound.follows_advanced (hsound : Sound t s) (hs : s.handlers = before ++ h :: after)
    (hp : h.prog = .op o k) :
    ∀ g ∈ (s.advanced e before after h o answer k).handlers, Follows (fun _ _ => True) g.view g.prog := by
  intro g hg
  rcases mem_advanced hs hg with hself | hother
  · subst hself
    have hh := hsound.follows h (hs ▸ List.mem_append_right _ List.mem_cons_self)
    rw [hp] at hh
    exact hh.2 answer
  · exact hsound.follows g hother

/-- An operation that is neither a check that finds nothing, nor a rename, nor a report. -/
theorem Sound.quiet (hsound : Sound t s) (ht : t.PartsDistinct) (hs : s.handlers = before ++ h :: after)
    (hp : h.prog = .op o k) (hlanded : (h.view.next o answer).landed = h.view.landed)
    (hpending : (h.view.next o answer).pending = h.view.pending)
    (hpart : (h.view.next o answer).part = h.view.part) (hreported : h.view.reported o answer = [])
    (hnamed : s.named ++ o.named ⊆ t.named) (hg : Gentle t s.entries e) :
    Sound t (s.advanced e before after h o answer k) := by
  have hh : h ∈ s.handlers := hs ▸ List.mem_append_right _ List.mem_cons_self
  have hpendings : (s.advanced e before after h o answer k).pendings = s.pendings := by
    rw [pendings_advanced, pendings_eq hs, hpending]
  have hlandings : (s.advanced e before after h o answer k).landings = s.landings := by
    rw [landings_advanced, landings_eq hs, hlanded, hreported, List.append_nil]
  have hparts : ∀ q, q ∈ (s.advanced e before after h o answer k).parts ↔ q ∈ s.parts := by
    intro q
    show q ∈ s.parts ++ (h.view.next o answer).part.toList ↔ _
    rw [hpart, List.mem_append, Option.mem_toList]
    exact ⟨fun hq => hq.elim id fun hq => (hsound.part h hh q hq).1, .inl⟩
  refine ⟨hnamed, fun q hq => hsound.parts ((hparts q).mp hq), hsound.follows_advanced hs hp, ?_,
    fun q hq => hsound.plain q ((hparts q).mp hq), ?_, hpendings ▸ hsound.apart, ?_,
    hlandings ▸ hsound.once⟩
  · intro g hmem q hq
    rw [hparts]
    rcases mem_advanced hs hmem with hself | hother
    · subst hself
      obtain ⟨hin, p, stamp, hpend, hq⟩ := hsound.part h hh q (hpart ▸ hq)
      exact ⟨hin, p, stamp, hpending.trans hpend, hq⟩
    · exact hsound.part g hother q hq
  · intro p hmem
    rw [hpendings] at hmem
    obtain ⟨hplain, hin, hfree, hfile⟩ := hsound.pending p hmem
    refine ⟨hplain, List.mem_append_left _ hin, hlandings ▸ hfree, ?_⟩
    exact hg.no_file (not_scratch ht (hsound.named hin)) hfile
  · intro place hmem
    rw [hlandings] at hmem
    obtain ⟨hthere, hclean⟩ := hsound.landed place hmem
    exact ⟨hg.ne_none hclean hthere, hclean⟩

/-- Pending destinations that differ, with one of them in front. -/
theorem apart_middle {pre post : List (Option Path)} {a : Option Path} :
    (pre ++ a :: post).Pairwise (fun a b => ∀ p q, a = some p → b = some q → p.parts ≠ q.parts)
      ↔ (∀ b ∈ pre ++ post, ∀ p q, a = some p → b = some q → p.parts ≠ q.parts)
        ∧ (pre ++ post).Pairwise fun a b => ∀ p q, a = some p → b = some q → p.parts ≠ q.parts := by
  rw [List.pairwise_middle, List.pairwise_cons]
  intro a b hab p q hp hq
  exact (hab q p hq hp).symm

/-- A check that finds nothing. -/
theorem Sound.checked {p : Path} (hsound : Sound t s) (hs : s.handlers = before ++ h :: after)
    (hp : h.prog = .op o k) (hlanded : (h.view.next o answer).landed = h.view.landed)
    (hpending : (h.view.next o answer).pending = some p) (hpart : (h.view.next o answer).part = none)
    (hreported : h.view.reported o answer = []) (hin : p ∈ o.named)
    (hnamed : s.named ++ o.named ⊆ t.named) (hplain : Part.parent ∉ p.parts)
    (hothers : ∀ g ∈ before ++ after, ∀ q, g.view.pending = some q → q.parts ≠ p.parts)
    (hmissing : s.entries p.parts = none) :
    Sound t (s.advanced s.entries before after h o answer k) := by
  have hlandings : (s.advanced s.entries before after h o answer k).landings = s.landings := by
    rw [landings_advanced, landings_eq hs, hlanded, hreported, List.append_nil]
  have hparts : (s.advanced s.entries before after h o answer k).parts = s.parts := by
    show s.parts ++ (h.view.next o answer).part.toList = s.parts
    rw [hpart, Option.toList_none, List.append_nil]
  refine ⟨hnamed, hparts ▸ hsound.parts, hsound.follows_advanced hs hp, ?_, hparts ▸ hsound.plain, ?_, ?_,
    ?_, hlandings ▸ hsound.once⟩
  · intro g hmem q hq
    rcases mem_advanced hs hmem with hself | hother
    · subst hself
      rw [hpart] at hq
      cases hq
    · rw [hparts]
      exact hsound.part g hother q hq
  · intro q hmem
    rw [pendings_advanced, hpending, List.mem_append, List.mem_cons] at hmem
    have hold : some q ∈ s.pendings → Part.parent ∉ q.parts ∧ q ∈ s.named ++ o.named
        ∧ q.parts ∉ s.landings ∧ ∀ data, s.entries q.parts ≠ some (.file data) := by
      intro hq
      obtain ⟨hplain, hin, hrest⟩ := hsound.pending q hq
      exact ⟨hplain, List.mem_append_left _ hin, hrest⟩
    rw [hlandings]
    rcases hmem with hb | hself | ha
    · exact hold (by rw [pendings_eq hs]; exact List.mem_append_left _ hb)
    · -- nothing is there, so nobody has renamed to it
      cases hself
      refine ⟨hplain, List.mem_append_right _ hin, fun hland => ?_, fun data hfile => ?_⟩
      · exact (hsound.landed _ hland).1 hmissing
      · rw [show (s.advanced s.entries before after h o answer k).entries = s.entries from rfl,
          hmissing] at hfile
        cases hfile
    · exact hold (by rw [pendings_eq hs]; exact List.mem_append_right _ (List.mem_cons_of_mem _ ha))
  · have hold := hsound.apart
    rw [pendings_eq hs, apart_middle] at hold
    rw [pendings_advanced, hpending, apart_middle]
    refine ⟨?_, hold.2⟩
    intro b hb p' q hp' hq
    cases hp'
    rw [← List.map_append, List.mem_map] at hb
    obtain ⟨g, hg, hb⟩ := hb
    exact (hothers g hg q (hb.trans hq)).symm
  · intro place hmem
    rw [hlandings] at hmem
    exact hsound.landed place hmem

/-- The part file's name: beside the destination. -/
theorem partOf_parts (p : Path) (stamp : Stamp) :
    (partOf p stamp).fileName = some (partName p.fileName stamp)
      ∧ Part.normal (partName p.fileName stamp) ∈ (partOf p stamp).parts
      ∧ (Part.parent ∉ p.parts → Part.parent ∉ (partOf p stamp).parts) := by
  have hchild : ∃ dir : Path, partOf p stamp = dir.child (partName p.fileName stamp)
      ∧ ∀ part ∈ dir.parts, part ∈ p.parts := by
    unfold partOf Path.setFileName
    split
    · refine ⟨p.parent.getD p, Path.join_ofName _ _, ?_⟩
      unfold Path.parent
      split
      · exact fun part hpart => List.mem_of_mem_dropLast hpart
      · exact fun part hpart => absurd hpart List.not_mem_nil
      · exact fun part hpart => hpart
    · exact ⟨p, Path.join_ofName _ _, fun part hpart => hpart⟩
  obtain ⟨dir, hdir, hsub⟩ := hchild
  rw [hdir]
  refine ⟨Path.fileName_child _ _, List.mem_append_right _ (List.mem_singleton.mpr rfl), ?_⟩
  intro hplain hmem
  rcases List.mem_append.mp hmem with hin | hlast
  · exact hplain (hsub _ hin)
  · cases List.mem_singleton.mp hlast

/-- The part file gets its name. -/
theorem Sound.timed {stamp : Stamp} (hsound : Sound t s) (hs : s.handlers = before ++ h :: after)
    (hp : h.prog = .op o k) (hlanded : (h.view.next o answer).landed = h.view.landed)
    (hpending : (h.view.next o answer).pending = h.view.pending)
    (hpart : (h.view.next o answer).part = h.view.pending.map (partOf · stamp))
    (hreported : h.view.reported o answer = []) (hnamed : s.named ++ o.named ⊆ t.named)
    (hparts : s.parts ++ (h.view.next o answer).part.toList ⊆ t.parts) :
    Sound t (s.advanced s.entries before after h o answer k) := by
  have hlandings : (s.advanced s.entries before after h o answer k).landings = s.landings := by
    rw [landings_advanced, landings_eq hs, hlanded, hreported, List.append_nil]
  have hpendings : (s.advanced s.entries before after h o answer k).pendings = s.pendings := by
    rw [pendings_advanced, pendings_eq hs, hpending]
  refine ⟨hnamed, hparts, hsound.follows_advanced hs hp, ?_, ?_, ?_, hpendings ▸ hsound.apart, ?_,
    hlandings ▸ hsound.once⟩
  · intro g hmem q hq
    rcases mem_advanced hs hmem with hself | hother
    · subst hself
      refine ⟨List.mem_append_right _ (Option.mem_toList.mpr hq), ?_⟩
      rw [hpart, Option.map_eq_some_iff] at hq
      obtain ⟨p, hpend, hq⟩ := hq
      exact ⟨p, stamp, hpending.trans hpend, hq.symm⟩
    · obtain ⟨hin, hrest⟩ := hsound.part g hother q hq
      exact ⟨List.mem_append_left _ hin, hrest⟩
  · intro q hq
    rcases List.mem_append.mp hq with hold | hnew
    · exact hsound.plain q hold
    · rw [Option.mem_toList, hpart, Option.map_eq_some_iff] at hnew
      obtain ⟨p, hpend, hq⟩ := hnew
      subst hq
      have hplain := (hsound.pending p (by rw [pendings_eq hs, hpend]; simp)).1
      obtain ⟨hname, hmem, hkeep⟩ := partOf_parts p stamp
      exact ⟨hkeep hplain, _, hname, hmem⟩
  · intro p hmem
    rw [hpendings] at hmem
    obtain ⟨hplain, hin, hrest⟩ := hsound.pending p hmem
    exact ⟨hplain, List.mem_append_left _ hin, hlandings ▸ hrest⟩
  · intro place hmem
    rw [hlandings] at hmem
    exact hsound.landed place hmem

/-- What a rename does to the places of others: nothing. What is at the destination stays there,
because it can only be a directory. -/
theorem Sound.renames {live : Bool} {src dst : Path} (hsound : Sound t s) (ht : t.PartsDistinct)
    (hh : h ∈ s.handlers) (hpart : h.view.part = some src) (hpending : h.view.pending = some dst)
    (hr : Renames live src dst s.entries e) :
    (∀ place, ¬ t.Scratch place → place ≠ dst.parts → e place = s.entries place)
      ∧ e dst.parts ≠ none
      ∧ ∀ node, s.entries dst.parts = some node → e dst.parts = some node := by
  obtain ⟨hsrc, hsrcScratch⟩ := hsound.scratch_part (hsound.part h hh src hpart).1
  obtain ⟨hdst, hdstNamed, -, hnofile⟩ :=
    hsound.pending dst (List.mem_map.mpr ⟨h, hh, hpending⟩)
  have hdstClean := not_scratch ht (hsound.named hdstNamed)
  have hne : dst.parts ≠ src.parts := by
    intro heq
    rw [heq] at hdstClean
    exact hdstClean hsrcScratch
  obtain ⟨src', dst', node, hsrc', hdst', -, hcase⟩ := hr
  have hs' := hsrc' hsrc
  have hd' := hdst' hdst
  subst hs' hd'
  have hnotSrc : ∀ place, ¬ t.Scratch place → place ≠ src.parts := by
    intro place hclean heq
    rw [heq] at hclean
    exact hclean hsrcScratch
  rcases hcase with ⟨hnotdir, heq⟩ | ⟨-, hdir, n, hn, heq⟩
  · -- there was nothing
    have hnothing : s.entries dst.parts = none := by
      cases hd : s.entries dst.parts with
      | none => rfl
      | some node =>
          cases node with
          | dir => exact absurd hd hnotdir
          | file data => exact absurd hd (hnofile data)
    subst heq
    refine ⟨fun place hclean hplace => ?_, ?_, fun node' hnode => ?_⟩
    · rw [Function.update_of_ne hplace, Function.update_of_ne (hnotSrc place hclean)]
    · rw [Function.update_self]
      simp
    · rw [hnothing] at hnode
      cases hnode
  · -- into a directory that has been made since, under the name of the part file
    have hinside : t.Scratch (dst.parts ++ [Part.normal n]) :=
      ⟨src, hsound.parts (hsound.part h hh src hpart).1, n, hn, by simp⟩
    have hnotInside : ∀ place, ¬ t.Scratch place → place ≠ dst.parts ++ [Part.normal n] := by
      intro place hclean heq
      rw [heq] at hclean
      exact hclean hinside
    have hsame : ∀ place, ¬ t.Scratch place → e place = s.entries place := by
      intro place hclean
      rw [heq, Function.update_of_ne (hnotInside place hclean),
        Function.update_of_ne (hnotSrc place hclean)]
    refine ⟨fun place hclean _ => hsame place hclean, ?_, fun node' hnode => ?_⟩
    · rw [hsame _ hdstClean, hdir]
      simp
    · rw [hsame _ hdstClean, hnode]

/-- A rename that succeeds. -/
theorem Sound.renamed {live : Bool} {src dst : Path} (hsound : Sound t s) (ht : t.PartsDistinct)
    (hs : s.handlers = before ++ h :: after) (hp : h.prog = .op o k)
    (hpart : h.view.part = some src) (hpending : h.view.pending = some dst)
    (hnext : h.view.next o answer = ⟨h.view.asked, h.view.landed ++ [dst], none, none⟩)
    (hreported : h.view.reported o answer = []) (hnamed : s.named ++ o.named ⊆ t.named)
    (hr : Renames live src dst s.entries e) :
    Sound t (s.advanced e before after h o answer k) := by
  have hh : h ∈ s.handlers := hs ▸ List.mem_append_right _ List.mem_cons_self
  obtain ⟨hothers, hthere, -⟩ := hsound.renames ht hh hpart hpending hr
  obtain ⟨-, hdstNamed, hfree, -⟩ := hsound.pending dst (List.mem_map.mpr ⟨h, hh, hpending⟩)
  have hdstClean := not_scratch ht (hsound.named hdstNamed)
  have hlandings : (s.advanced e before after h o answer k).landings.Perm (dst.parts :: s.landings) := by
    rw [landings_advanced, landings_eq hs, hnext, hreported, List.append_nil, ← List.map_cons]
    refine List.Perm.map _ ?_
    simp only [List.append_assoc, List.singleton_append]
    rw [← List.append_assoc, ← List.append_assoc, ← List.append_assoc s.reports, ← List.append_assoc]
    exact List.perm_middle
  have hapart := hsound.apart
  rw [pendings_eq hs, apart_middle, hpending] at hapart
  have hpendings : ∀ p, some p ∈ (s.advanced e before after h o answer k).pendings →
      some p ∈ s.pendings ∧ p.parts ≠ dst.parts := by
    intro p hmem
    rw [pendings_advanced, hnext, List.mem_append, List.mem_cons] at hmem
    have hmem' : some p ∈ before.map (·.view.pending) ++ after.map (·.view.pending) := by
      rcases hmem with hb | hself | ha
      · exact List.mem_append_left _ hb
      · cases hself
      · exact List.mem_append_right _ ha
    refine ⟨?_, (hapart.1 _ hmem' dst p rfl rfl).symm⟩
    rw [pendings_eq hs, List.mem_append, List.mem_cons]
    exact (List.mem_append.mp hmem').imp_right .inr
  have hparts : (s.advanced e before after h o answer k).parts = s.parts := by
    show s.parts ++ (h.view.next o answer).part.toList = s.parts
    rw [hnext, Option.toList_none, List.append_nil]
  refine ⟨hnamed, hparts ▸ hsound.parts, hsound.follows_advanced hs hp, ?_, hparts ▸ hsound.plain, ?_, ?_,
    ?_, ?_⟩
  · intro g hmem q hq
    rcases mem_advanced hs hmem with hself | hother
    · subst hself
      rw [hnext] at hq
      cases hq
    · rw [hparts]
      exact hsound.part g hother q hq
  · intro p hmem
    obtain ⟨hold, hne⟩ := hpendings p hmem
    obtain ⟨hplain, hin, hnot, hnofile⟩ := hsound.pending p hold
    refine ⟨hplain, List.mem_append_left _ hin, fun hland => ?_, fun data hfile => ?_⟩
    · rcases List.mem_cons.mp (hlandings.mem_iff.mp hland) with heq | hin
      · exact hne heq
      · exact hnot hin
    · have hsame := hothers p.parts (not_scratch ht (hsound.named hin)) hne
      exact hnofile data (hsame ▸ hfile)
  · rw [pendings_advanced, hnext, apart_middle]
    refine ⟨?_, hapart.2⟩
    intro b hb p q hp
    cases hp
  · intro place hmem
    rcases List.mem_cons.mp (hlandings.mem_iff.mp hmem) with heq | hin
    · subst heq
      exact ⟨hthere, hdstClean⟩
    · obtain ⟨hold, hclean⟩ := hsound.landed place hin
      refine ⟨?_, hclean⟩
      by_cases hplace : place = dst.parts
      · subst hplace
        exact hthere
      · show e place ≠ none
        rw [hothers place hclean hplace]
        exact hold
  · rw [hlandings.nodup_iff, List.nodup_cons]
    exact ⟨hfree, hsound.once⟩

/-- A report of success. -/
theorem Sound.completed (hsound : Sound t s) (hs : s.handlers = before ++ h :: after)
    (hp : h.prog = .op o k) (hlanded : h.view.landed = h.view.asked)
    (hnext : h.view.next o answer = { h.view with asked := [], landed := [] })
    (hreported : h.view.reported o answer = h.view.asked) (hnamed : s.named ++ o.named ⊆ t.named) :
    Sound t (s.advanced s.entries before after h o answer k) := by
  have hh : h ∈ s.handlers := hs ▸ List.mem_append_right _ List.mem_cons_self
  have hlandings : (s.advanced s.entries before after h o answer k).landings.Perm s.landings := by
    rw [landings_advanced, landings_eq hs, hnext, hreported, hlanded]
    refine List.Perm.map _ ?_
    simp only [List.nil_append, List.append_assoc]
    exact List.Perm.append_left _ (by
      rw [← List.append_assoc, ← List.append_assoc]
      exact List.Perm.append_right _ List.perm_append_comm)
  have hpendings : (s.advanced s.entries before after h o answer k).pendings = s.pendings := by
    rw [pendings_advanced, pendings_eq hs, hnext]
  have hparts : ∀ q, q ∈ (s.advanced s.entries before after h o answer k).parts ↔ q ∈ s.parts := by
    intro q
    show q ∈ s.parts ++ (h.view.next o answer).part.toList ↔ _
    rw [hnext, List.mem_append, Option.mem_toList]
    exact ⟨fun hq => hq.elim id fun hq => (hsound.part h hh q hq).1, .inl⟩
  refine ⟨hnamed, fun q hq => hsound.parts ((hparts q).mp hq), hsound.follows_advanced hs hp, ?_,
    fun q hq => hsound.plain q ((hparts q).mp hq), ?_, hpendings ▸ hsound.apart, ?_,
    hlandings.nodup_iff.mpr hsound.once⟩
  · intro g hmem q hq
    rw [hparts]
    rcases mem_advanced hs hmem with hself | hother
    · subst hself
      rw [hnext] at hq ⊢
      exact hsound.part h hh q hq
    · exact hsound.part g hother q hq
  · intro p hmem
    rw [hpendings] at hmem
    obtain ⟨hplain, hin, hfree, hfile⟩ := hsound.pending p hmem
    exact ⟨hplain, List.mem_append_left _ hin, fun hland => hfree (hlandings.mem_iff.mp hland), hfile⟩
  · intro place hmem
    exact hsound.landed place (hlandings.mem_iff.mp hmem)

/-- What is there and is not a part file stays as it is. -/
def Keeps (t : UploadSite) (e e' : Entries) : Prop :=
  ∀ place node, ¬ t.Scratch place → e place = some node → e' place = some node

theorem Gentle.keeps (hg : Gentle t e e') : Keeps t e e' := fun _ _ hs h => hg.kept hs h

/-- **One operation of one handler.** -/
theorem Sound.advance (hsound : Sound t s) (ht : t.PartsDistinct)
    (hs : s.handlers = before ++ h :: after) (hp : h.prog = .op o k)
    (ha : Answers h.live s.entries o answer e) (hapart : s.Apart (.advance before.length o answer))
    (hnamed : (s.advanced e before after h o answer k).named ⊆ t.named)
    (hparts : (s.advanced e before after h o answer k).parts ⊆ t.parts) :
    Sound t (s.advanced e before after h o answer k) ∧ Keeps t s.entries e := by
  have hh : h ∈ s.handlers := hs ▸ List.mem_append_right _ List.mem_cons_self
  have hok : h.view.Ok o := by
    have hfollows := hsound.follows h hh
    rw [hp] at hfollows
    exact hfollows.1
  -- what only touches the handler's own part file
  have hown : ∀ q, h.view.part = some q → OnlyAt q s.entries e → Gentle t s.entries e := by
    intro q hq he
    exact gentle_onlyAt (hsound.scratch_part (hsound.part h hh q hq).1) he
  have hquiet : (h.view.next o answer).landed = h.view.landed →
      (h.view.next o answer).pending = h.view.pending → (h.view.next o answer).part = h.view.part →
      h.view.reported o answer = [] → Gentle t s.entries e →
      Sound t (s.advanced e before after h o answer k) ∧ Keeps t s.entries e :=
    fun hl hpend hpart hrep hg => ⟨hsound.quiet ht hs hp hl hpend hpart hrep hnamed hg, hg.keeps⟩
  have hsame : e = s.entries → Gentle t s.entries e := by
    intro he
    subst he
    exact gentle_refl _
  cases o with
  | blob o =>
      cases o with
      | fs o =>
          cases o with
          | pathMissing p =>
              obtain ⟨he, place, hleads, hanswer⟩ := ha
              subst he
              rcases answer with _ | _ | _
              · exact hquiet rfl rfl rfl rfl (gentle_refl _)
              · exact hquiet rfl rfl rfl rfl (gentle_refl _)
              · obtain ⟨hplain, hothers⟩ := hapart
                have hplace := hleads hplain
                subst hplace
                have hmissing : s.entries p.parts = none := by
                  have := hanswer true rfl
                  rwa [eq_comm, Option.isNone_iff_eq_none] at this
                rw [hs, List.eraseIdx_append_of_length_le (Nat.le_refl _), Nat.sub_self,
                  List.eraseIdx_cons_zero] at hothers
                refine ⟨?_, (gentle_refl _).keeps⟩
                exact hsound.checked hs hp rfl rfl rfl rfl (List.mem_singleton.mpr rfl) hnamed hplain
                  hothers hmissing
          | createDirAll p => exact hquiet rfl rfl rfl rfl (gentle_makesDirs ha)
          | createFile p => exact hquiet rfl rfl rfl rfl (hown p hok ha)
          | writeAll p chunk => exact hquiet rfl rfl rfl rfl (hown p hok ha)
          | finish p => exact hquiet rfl rfl rfl rfl (hown p hok ha)
          | removeFile p => exact hquiet rfl rfl rfl rfl (hown p hok ha)
          | now =>
              cases (show e = s.entries from ha)
              exact ⟨hsound.timed hs hp rfl rfl rfl rfl hnamed hparts, (gentle_refl _).keeps⟩
          | rename src dst =>
              obtain ⟨hpart, hpending⟩ := hok
              rcases answer with _ | _
              · exact hquiet rfl rfl rfl rfl (hsame ha)
              · refine ⟨hsound.renamed ht hs hp hpart hpending rfl rfl hnamed ha, ?_⟩
                obtain ⟨hothers, -, hdst⟩ := hsound.renames ht hh hpart hpending ha
                intro place node hclean hnode
                by_cases hplace : place = dst.parts
                · subst hplace
                  exact hdst node hnode
                · rw [hothers place hclean hplace, hnode]
          | copy src dst => exact absurd hok id
          | exportBlob hash p => exact absurd hok id
          | _ => exact hquiet rfl rfl rfl rfl (hsame ha)
      | send frame =>
          cases frame with
          | putComplete complete =>
              cases (show e = s.entries from ha)
              rcases answer with _ | _
              · exact hquiet rfl rfl rfl rfl (gentle_refl _)
              · exact ⟨hsound.completed hs hp hok rfl rfl hnamed, (gentle_refl _).keeps⟩
          | _ => exact hquiet rfl rfl rfl rfl (hsame ha)
      | _ => exact hquiet rfl rfl rfl rfl (hsame ha)
  | flush p => exact hquiet rfl rfl rfl rfl (hown p hok ha)
  | _ => exact hquiet rfl rfl rfl rfl (hsame ha)

/-- **One step.** -/
theorem Sound.step {s' : UploadSite} {act : PutAct} (hsound : Sound t s) (ht : t.PartsDistinct)
    (hstep : Step s act s') (hapart : s.Apart act) (hnamed : s'.named ⊆ t.named)
    (hparts : s'.parts ⊆ t.parts) : Sound t s' ∧ Keeps t s.entries s'.entries := by
  cases hstep with
  | start debug context request frames =>
      refine ⟨?_, (gentle_refl _).keeps⟩
      have hpendings : ∀ p, some p ∈ pendings { s with handlers := s.handlers
          ++ [⟨context.isLive, handlePutRequest debug context request frames, .new⟩] } →
          some p ∈ s.pendings := by
        intro p hmem
        rw [pendings, List.map_append, List.mem_append] at hmem
        rcases hmem with hold | hnew
        · exact hold
        · cases List.mem_singleton.mp hnew
      have hlandings : landings { s with handlers := s.handlers
          ++ [⟨context.isLive, handlePutRequest debug context request frames, .new⟩] } = s.landings := by
        simp [landings, PutView.new]
      refine ⟨hnamed, hparts, fun g hg => ?_, fun g hg => ?_, hsound.plain,
        fun p hp => hlandings ▸ hsound.pending p (hpendings p hp), ?_, hlandings ▸ hsound.landed,
        hlandings ▸ hsound.once⟩
      · rcases List.mem_append.mp hg with hold | hnew
        · exact hsound.follows g hold
        · cases List.mem_singleton.mp hnew
          exact follows_handlePutRequest request frames
      · rcases List.mem_append.mp hg with hold | hnew
        · exact hsound.part g hold
        · cases List.mem_singleton.mp hnew
          intro q hq
          cases hq
      · rw [pendings, List.map_append, List.map_singleton, apart_middle, List.append_nil]
        refine ⟨?_, hsound.apart⟩
        intro b _ p q hp
        cases hp
  | advance o answer k hs hp ha => exact hsound.advance ht hs hp ha hapart hnamed hparts
  | helper hq he =>
      have hg := gentle_onlyAt (hsound.scratch_part hq) he
      refine ⟨⟨hnamed, hparts, hsound.follows, hsound.part, hsound.plain, fun p hp => ?_, hsound.apart,
        fun place hmem => ?_, hsound.once⟩, hg.keeps⟩
      · obtain ⟨hplain, hin, hfree, hfile⟩ := hsound.pending p hp
        exact ⟨hplain, hin, hfree, hg.no_file (not_scratch ht (hsound.named hin)) hfile⟩
      · obtain ⟨hthere, hclean⟩ := hsound.landed place hmem
        exact ⟨hg.ne_none hclean hthere, hclean⟩
  | stop h hs =>
      refine ⟨?_, (gentle_refl _).keeps⟩
      rename_i before after
      have hmem : ∀ g ∈ before ++ after, g ∈ s.handlers := by
        intro g hg
        rw [hs, List.mem_append, List.mem_cons]
        exact (List.mem_append.mp hg).imp_right .inr
      have hpendings : pendings { s with handlers := before ++ after }
          = before.map (·.view.pending) ++ after.map (·.view.pending) := List.map_append
      have hlandings : (landings { s with handlers := before ++ after }).Sublist s.landings := by
        rw [landings_eq hs, landings, List.flatMap_append]
        refine List.Sublist.map _ (List.Sublist.append_left (List.Sublist.append_left ?_ _) _)
        exact List.sublist_append_right _ _
      have hapart' := hsound.apart
      rw [pendings_eq hs, apart_middle] at hapart'
      refine ⟨hnamed, hparts, fun g hg => hsound.follows g (hmem g hg),
        fun g hg => hsound.part g (hmem g hg), hsound.plain, fun p hp => ?_, hpendings ▸ hapart'.2,
        fun place hin => hsound.landed place (hlandings.subset hin), hlandings.nodup hsound.once⟩
      obtain ⟨g, hg, hpend⟩ := List.mem_map.mp hp
      obtain ⟨hplain, hin, hfree, hfile⟩ :=
        hsound.pending p (List.mem_map.mpr ⟨g, hmem g hg, hpend⟩)
      exact ⟨hplain, hin, fun hland => hfree (hlandings.subset hland), hfile⟩

/-- What has been named and given out is not forgotten. -/
theorem Step.mono {s' : UploadSite} {act : PutAct} (hstep : Step s act s') :
    s.named ⊆ s'.named ∧ s.parts ⊆ s'.parts := by
  cases hstep with
  | advance o answer k hs hp ha => exact ⟨List.subset_append_left _ _, List.subset_append_left _ _⟩
  | _ => exact ⟨List.Subset.refl _, List.Subset.refl _⟩

theorem Runs.mono {P : UploadSite → PutAct → Prop} (h : Runs P s t) :
    s.named ⊆ t.named ∧ s.parts ⊆ t.parts := by
  induction h with
  | refl => exact ⟨List.Subset.refl _, List.Subset.refl _⟩
  | tail _ hstep ih =>
      obtain ⟨act, hstep, -⟩ := hstep
      exact ⟨List.Subset.trans ih.1 hstep.mono.1, List.Subset.trans ih.2 hstep.mono.2⟩

/-- **A whole run.** -/
theorem Sound.run {s' : UploadSite} (ht : t.PartsDistinct) (hrun : Runs Apart s s')
    (hend : Runs Apart s' t) (hsound : Sound t s) : Sound t s' ∧ Keeps t s.entries s'.entries := by
  induction hrun with
  | refl => exact ⟨hsound, fun _ _ _ h => h⟩
  | @tail b c hrun hstep ih =>
      have hrest : Runs Apart b t := Relation.ReflTransGen.head hstep hend
      obtain ⟨hb, hkeeps⟩ := ih hrest
      obtain ⟨act, hstep, hapart⟩ := hstep
      obtain ⟨hc, hkeeps'⟩ := hb.step ht hstep hapart (Runs.mono hend).1 (Runs.mono hend).2
      exact ⟨hc, fun place node hclean h => hkeeps' place node hclean (hkeeps place node hclean h)⟩

theorem sound_new {entries : Entries} : Sound t (.new entries) where
  named := List.nil_subset _
  parts := List.nil_subset _
  follows := fun _ h => absurd h List.not_mem_nil
  part := fun _ h => absurd h List.not_mem_nil
  plain := fun _ h => absurd h List.not_mem_nil
  pending := fun _ h => absurd h List.not_mem_nil
  apart := List.Pairwise.nil
  landed := fun _ h => absurd h List.not_mem_nil
  once := List.nodup_nil

end

end UploadSite

/-! ## Runs in which everything works -/

/-- A file system on which everything works. -/
def obedient (stamp : Stamp) (e : Entries) : (o : ServeOp) → o.Answer × Entries
  | .blob (.fs .now) => (stamp, e)
  | .blob (.fs (.pathMissing p)) => (.ok (e p.parts).isNone, e)
  | .blob (.fs (.createFile p)) => (true, Function.update e p.parts (some (.file [])))
  | .blob (.fs (.writeAll p chunk)) =>
      match e p.parts with
      | some (.file data) => (true, Function.update e p.parts (some (.file (data ++ chunk))))
      | _ => (false, e)
  | .blob (.fs (.removeFile p)) => (true, Function.update e p.parts none)
  | .blob (.fs (.rename src dst)) =>
      match e src.parts, e dst.parts with
      | none, _ => (false, e)
      | _, some .dir => (false, e)
      | some node, _ =>
          (true, Function.update (Function.update e src.parts none) dst.parts (some node))
  | o => (o.idle, e)

theorem onlyAt_update (p : Path) (e : Entries) (node : Option FsNode) :
    OnlyAt p e (Function.update e p.parts node) :=
  ⟨p.parts, fun _ => rfl, fun _ hq => Function.update_of_ne hq _ _⟩

theorem onlyAt_refl (p : Path) (e : Entries) : OnlyAt p e e := ⟨p.parts, fun _ => rfl, fun _ _ => rfl⟩

theorem obedient_answers (live : Bool) (stamp : Stamp) (e : Entries) (o : ServeOp) :
    Answers live e o (obedient stamp e o).1 (obedient stamp e o).2 := by
  cases o with
  | blob o =>
      cases o with
      | fs o =>
          cases o with
          | pathMissing p =>
              refine ⟨rfl, p.parts, fun _ => rfl, fun missing h => ?_⟩
              exact (Except.ok.inj h).symm
          | createDirAll p => exact fun q => .inl rfl
          | createFile p => exact onlyAt_update p e _
          | writeAll p chunk =>
              simp only [obedient]
              split
              · exact onlyAt_update p e _
              · exact onlyAt_refl p e
          | finish p => exact onlyAt_refl p e
          | removeFile p => exact onlyAt_update p e _
          | rename src dst =>
              simp only [obedient]
              split
              · exact rfl
              · exact rfl
              · rename_i node hsrc hdst
                refine ⟨src.parts, dst.parts, node, fun _ => rfl, fun _ => rfl, ‹_›, .inl ⟨?_, rfl⟩⟩
                intro hdir
                exact hdst hdir
          | _ => exact rfl
      | _ => exact rfl
  | flush p => exact onlyAt_refl p e
  | _ => exact rfl

namespace UploadSite

/-- The next operation of a handler, on such a file system. -/
def actAt (stamp : Stamp) (who : Nat) (s : UploadSite) : PutAct :=
  match s.handlers[who]? with
  | none => .stop
  | some h =>
      match h.prog with
      | .pure _ => .stop
      | .op o _ => .advance who o (obedient stamp s.entries o).1

/-- After so many of them. -/
def play (stamp : Stamp) (who : Nat) : Nat → UploadSite → UploadSite
  | 0, s => s
  | n + 1, s =>
      match s.handlers[who]? with
      | none => s
      | some h =>
          match h.prog with
          | .pure _ => s
          | .op o k =>
              play stamp who n (s.advanced (obedient stamp s.entries o).2 (s.handlers.take who)
                (s.handlers.drop (who + 1)) h o (obedient stamp s.entries o).1 k)

theorem runs_play {P : UploadSite → PutAct → Prop} (stamp : Stamp) (who n : Nat) (s : UploadSite)
    (hP : ∀ i < n, P (play stamp who i s) (actAt stamp who (play stamp who i s))) :
    Runs P s (play stamp who n s) := by
  induction n generalizing s with
  | zero => exact .refl
  | succ n ih =>
      have hfirst := hP 0 (Nat.zero_lt_succ n)
      have hrest : ∀ i < n, P (play stamp who (i + 1) s) (actAt stamp who (play stamp who (i + 1) s)) :=
        fun i hi => hP (i + 1) (Nat.succ_lt_succ hi)
      simp only [play, actAt] at hfirst hrest ⊢
      cases hh : s.handlers[who]? with
      | none => exact .refl
      | some h =>
          cases hp : h.prog with
          | pure a =>
              simp only [hp]
              exact .refl
          | op o k =>
              simp only [hh, hp] at hfirst hrest ⊢
              obtain ⟨hlt, hget⟩ := List.getElem?_eq_some_iff.mp hh
              have hs : s.handlers = s.handlers.take who ++ h :: s.handlers.drop (who + 1) := by
                rw [← hget, ← List.drop_eq_getElem_cons hlt, List.take_append_drop]
              have hlen : (s.handlers.take who).length = who := by
                rw [List.length_take]
                omega
              refine Relation.ReflTransGen.head ⟨.advance who o (obedient stamp s.entries o).1, ?_, hfirst⟩
                (ih _ hrest)
              have hstep := Step.advance o _ k hs hp (obedient_answers h.live stamp s.entries o)
              rw [hlen] at hstep
              exact hstep

theorem partsDistinct_of_all {s : UploadSite} (h : ∀ part ∈ s.parts, part.fileName.all fun n =>
    s.named.all fun p => decide (Part.normal n ∉ p.parts)) : s.PartsDistinct := by
  intro part hpart n hn p hp
  have hname := h part hpart
  rw [hn, Option.all_some, List.all_eq_true] at hname
  exact of_decide_eq_true (hname p hp)

/-- A handler of a one-byte upload to `/f` is started. -/
def begin (s : UploadSite) (byte : UInt8) : UploadSite :=
  { s with handlers := s.handlers ++ [⟨ShellContext.isLive (.stateless none),
    handlePutRequest (fun _ => "") (.stateless none) ⟨"/f", 1, none, false⟩
      [.putChunk [byte], .putComplete ⟨1⟩], .new⟩] }

theorem runs_begin {P : UploadSite → PutAct → Prop} (s : UploadSite) (byte : UInt8) (hP : P s .start) :
    Runs P s (s.begin byte) := .single ⟨_, .start s _ _ _ _, hP⟩

/-- Two uploads of `/f`: the first has checked it when the second does all its work. -/
def overtaken : UploadSite :=
  play ⟨['2'], by decide⟩ 1 20
    (play ⟨['1'], slash_notMem_one⟩ 0 1 (((new fun _ => none).begin 1).begin 2))

/-- Then the first goes on. -/
def overwritten : UploadSite := play ⟨['1'], slash_notMem_one⟩ 0 20 overtaken

end UploadSite

namespace Proof

/-- **Uploads never overwrite, where uploads of one destination do not overlap.** Whatever is at a
place at some time of a run (and is no part file) is there at every later time, and every destination
is reported as a success at most once. -/
theorem uploads_never_overwrite (entries : Entries) (s t : UploadSite)
    (hrun : UploadSite.Runs UploadSite.Apart (.new entries) s)
    (hend : UploadSite.Runs UploadSite.Apart s t) (ht : t.PartsDistinct) :
    (∀ place node, ¬ t.Scratch place → s.entries place = some node → t.entries place = some node)
      ∧ (t.reports.map Path.parts).Nodup := by
  obtain ⟨hs, -⟩ := UploadSite.sound_new.run ht hrun hend
  obtain ⟨hsound, hkeeps⟩ := hs.run ht hend .refl
  refine ⟨hkeeps, ?_⟩
  have honce := hsound.once
  rw [UploadSite.landings, List.map_append] at honce
  exact (List.nodup_append.mp honce).1

/-- One upload, to its end: the file is there, and it has been reported. -/
theorem uploads_never_overwrite_one :
    let t := UploadSite.play ⟨['1'], by decide⟩ 0 14 ((UploadSite.new fun _ => none).begin 7)
    t.entries (parse ['/', 'f']).parts = some (.file [7]) ∧ t.reports = [parse ['/', 'f']]
      ∧ (t.reports.map Path.parts).Nodup := by
  intro t
  have hruns : UploadSite.Runs UploadSite.Apart ((UploadSite.new fun _ => none).begin 7) t := by
    refine UploadSite.runs_play _ 0 14 _ ?_
    intro i hi
    interval_cases i
    · exact ⟨by decide, fun h hmem => absurd hmem List.not_mem_nil⟩
    all_goals exact trivial
  have ht : t.PartsDistinct := UploadSite.partsDistinct_of_all (by decide)
  exact ⟨by decide, by rfl, (uploads_never_overwrite _ _ t (UploadSite.runs_begin _ 7 trivial) hruns ht).2⟩

/-- Both handlers find `/f` missing. The second puts its byte there and reports success, then the first
replaces it and reports success as well. -/
theorem uploads_overwrite :
    UploadSite.Runs (fun _ _ => True) (.new fun _ => none) UploadSite.overtaken
      ∧ UploadSite.Runs (fun _ _ => True) UploadSite.overtaken UploadSite.overwritten
      ∧ UploadSite.overwritten.PartsDistinct
      ∧ UploadSite.overtaken.entries (parse ['/', 'f']).parts = some (.file [2])
      ∧ UploadSite.overwritten.entries (parse ['/', 'f']).parts = some (.file [1])
      ∧ UploadSite.overwritten.reports = [parse ['/', 'f'], parse ['/', 'f']] := by
  refine ⟨?_, ?_, UploadSite.partsDistinct_of_all (by decide), by decide, by decide, by rfl⟩
  · have hstart := (UploadSite.runs_begin (P := fun _ _ => True) (.new fun _ => none) 1 trivial).trans
      (UploadSite.runs_begin _ 2 trivial)
    have hcheck := hstart.trans (UploadSite.runs_play ⟨['1'], by decide⟩ 0 1 _ fun _ _ => trivial)
    exact hcheck.trans (UploadSite.runs_play ⟨['2'], by decide⟩ 1 20 _ fun _ _ => trivial)
  · exact UploadSite.runs_play ⟨['1'], by decide⟩ 0 20 _ fun _ _ => trivial

end Proof

end Irosh
