import Irosh.Transfer.Receive

/-!
# What a recursive download places

A download is followed with its temporary file and the files it has placed, whatever the
disk answers and whatever the server sends. A temporary file takes its place only if
every write to it and the flush were acknowledged, so that what is placed is always what
was sent for the entries so far, each of them whole.

Three things may be left behind besides. A temporary file stays where its removal is
refused, which nobody looks at. It stays, whole, where `persist_temp_file` can neither
rename nor copy it. And a copy that breaks off leaves something of its own in the place.
-/

namespace Irosh

open UnixPath

/-- What has become of the temporary file. -/
inductive TempState where
  | absent
  /-- Every write so far has been acknowledged. -/
  | open (p : Path) (data : List UInt8)
  /-- A write or the flush has failed. -/
  | broken (p : Path)
  | flushed (p : Path) (data : List UInt8)
  /-- Its contents have been copied to their place. -/
  | copied (p : Path)

/-- A download as its disk sees it. -/
structure Placement where
  temp : TempState
  placed : List (Path × List UInt8)
  /-- The temporary files whose removal was refused. -/
  stuck : List Path
  /-- The places in which a copy has broken off. -/
  torn : List Path

namespace Placement

def start : Placement := ⟨.absent, [], [], []⟩

/-- The temporary file takes its place, or its contents do. -/
def place (g : Placement) (temp : TempState) (dst : Path) (data : List UInt8) : Placement :=
  { g with temp := temp, placed := g.placed ++ [(dst, data)] }

/-- An operation on the disk, and its answer. -/
def next (g : Placement) : (o : FsOp) → o.Answer → Placement
  | .createFile p, created =>
      match (created : Bool) with
      | true => { g with temp := .open p [] }
      | false => g
  | .writeAll p chunk, written =>
      match g.temp, (written : Bool) with
      | .open _ data, true => { g with temp := .open p (data ++ chunk) }
      | _, _ => { g with temp := .broken p }
  | .finish p, finished =>
      match g.temp, (finished : Bool) with
      | .open _ data, true => { g with temp := .flushed p data }
      | _, _ => { g with temp := .broken p }
  | .rename _ dst, renamed =>
      match g.temp, (renamed : Bool) with
      | .flushed _ data, true => g.place .absent dst data
      | _, _ => g
  | .copy src dst, copied =>
      match g.temp, (copied : Bool) with
      | .flushed _ data, true => g.place (.copied src) dst data
      | _, _ => { g with torn := g.torn ++ [dst] }
  | .removeFile p, removed =>
      match (removed : Bool) with
      | true => { g with temp := .absent }
      | false => { g with temp := .absent, stuck := g.stuck ++ [p] }
  | _, _ => g

/-- What a download may do. -/
def Ok (g : Placement) : FsOp → Prop
  | .now | .createDirAll _ => True
  | .createFile p => g.temp = .absent ∧ ∃ final stamp, p = tempTransferPath final stamp
  | .writeAll p _ | .finish p => ∃ data, g.temp = .open p data
  | .rename src _ | .copy src _ => ∃ data, g.temp = .flushed src data
  | .removeFile p => g.temp = .broken p ∨ g.temp = .copied p ∨ ∃ data, g.temp = .open p data
  | .setMode p _ => g.temp = .absent ∧ ∃ data, (p, data) ∈ g.placed
  | _ => False

/-- Only temporary files are left where they are. -/
def Tidy (g : Placement) : Prop := ∀ p ∈ g.stuck, ∃ final stamp, p = tempTransferPath final stamp

theorem Tidy.snoc {g : Placement} (h : g.Tidy) {temp : Path}
    (htemp : ∃ final stamp, temp = tempTransferPath final stamp) {p : Path} (hp : p ∈ g.stuck ++ [temp]) :
    ∃ final stamp, p = tempTransferPath final stamp := by
  rcases List.mem_append.mp hp with hold | hnew
  · exact h p hold
  · rw [List.mem_singleton.mp hnew]
    exact htemp

end Placement

/-- Frames that tell of whole entries, and the files among these. -/
inductive Tells (root : Path) : List Frame → List (Path × List UInt8) → Prop
  | none : Tells root [] []
  | dir {frames files header rel} : Tells root frames files → header.isDir = true →
      sanitizeRemotePath header.path = .ok rel → Tells root (frames ++ [.newEntry header]) files
  | file {frames files header rel} (chunks : List (List UInt8)) : Tells root frames files →
      header.isDir = false → sanitizeRemotePath header.path = .ok rel →
      Tells root (frames ++ (.newEntry header :: (chunks.map .getChunk ++ [.entryComplete])))
        (files ++ [(root.join rel, chunks.flatten)])

/-- The next file has been received, and has not been put in its place: it is whole in its temporary
file, and a copy may have broken off in the place. -/
def Unplaced (root : Path) (rest : List Frame) (g : Placement) : Prop :=
  ∃ (header : EntryHeader) (rel temp : Path) (chunks : List (List UInt8)) (after : List Frame),
    rest = .newEntry header :: (chunks.map .getChunk ++ .entryComplete :: after)
    ∧ sanitizeRemotePath header.path = .ok rel
    ∧ (∃ final stamp, temp = tempTransferPath final stamp) ∧ g.temp = .flushed temp chunks.flatten
    ∧ (g.torn = [] ∨ g.torn = [root.join rel])

/-- How a download of these frames ends: what is placed is what the first of them tell of, all of it
if it ends well, and nothing else is left, save for what the disk has refused to take or to remove. -/
def Ends (root : Path) (frames : List Frame) (result : Except String Unit) (g : Placement) : Prop :=
  ∃ told rest, frames = told ++ rest ∧ Tells root told g.placed ∧ g.Tidy
    ∧ (g.temp = .absent ∧ g.torn = [] ∨ Unplaced root rest g)
    ∧ (result = .ok () → g.temp = .absent ∧ g.torn = [] ∧ ∃ after, rest = .getComplete :: after)

section

variable {α : Type} {g : Placement} {root temp final : Path} {P : α → Placement → Prop}

/-- A download that keeps to it. -/
abbrev Places (P : α → Placement → Prop) (g : Placement) (p : FsProg α) : Prop :=
  p.Tracks Placement.next Placement.Ok P g

theorem ends_early {told rest : List Frame} {e : String} (htold : Tells root told g.placed) (htidy : g.Tidy)
    (hleft : g.temp = .absent ∧ g.torn = [] ∨ Unplaced root rest g) :
    Ends root (told ++ rest) (.error e) g :=
  ⟨told, rest, rfl, htold, htidy, hleft, fun h => by cases h⟩

/-! ## Operations that do not matter -/

theorem places_createParent (p : Path) : Places (fun _ g' => g' = g) g (createParent p) := by
  unfold createParent
  cases p.parent with
  | none => exact rfl
  | some parent => exact ⟨trivial, fun _ => rfl⟩

theorem places_chmod (mode : Option Nat) (habs : g.temp = .absent)
    (hplaced : ∃ data, (final, data) ∈ g.placed) :
    Places (fun _ g' => g' = g) g (chmod final mode) := by
  cases mode with
  | none => exact rfl
  | some mode => exact ⟨⟨habs, hplaced⟩, fun _ => rfl⟩

/-- Going on with the same view. -/
theorem Places.then {β : Type} {Q : β → Placement → Prop} {p : FsProg α} {k : α → FsProg β}
    (h : Places (fun _ g' => g' = g) g p) (hk : ∀ a, Places Q g (k a)) : Places Q g (p >>= k) := by
  refine Prog.Tracks.bind h fun a g' hg => ?_
  rw [hg]
  exact hk a

/-! ## The temporary file -/

/-- An entry that does not go well. -/
theorem places_dropTemp {told rest : List Frame} {message : String} (htold : Tells root told g.placed)
    (htidy : g.Tidy) (htorn : g.torn = []) (htemp : ∃ final stamp, temp = tempTransferPath final stamp)
    (hremove : g.Ok (.removeFile temp)) :
    Places (Ends root (told ++ rest)) g (dropTemp temp message) := by
  refine ⟨hremove, ?_⟩
  intro (removed : Bool)
  cases removed with
  | true => exact ends_early htold htidy (.inl ⟨rfl, htorn⟩)
  | false => exact ends_early htold (fun _ hp => htidy.snoc htemp hp) (.inl ⟨rfl, htorn⟩)

theorem next_writeAll {p : Path} {data : List UInt8} (h : g.temp = .open p data) (chunk : List UInt8) :
    g.next (.writeAll p chunk) true = { g with temp := .open p (data ++ chunk) } := by
  simp only [Placement.next, h]

theorem next_writeAll_failed (g : Placement) (p : Path) (chunk : List UInt8) :
    g.next (.writeAll p chunk) false = { g with temp := .broken p } := by
  unfold Placement.next
  cases g.temp <;> rfl

theorem next_finish {p : Path} {data : List UInt8} (h : g.temp = .open p data) :
    g.next (.finish p) true = { g with temp := .flushed p data } := by
  simp only [Placement.next, h]

theorem next_finish_failed (g : Placement) (p : Path) :
    g.next (.finish p) false = { g with temp := .broken p } := by
  unfold Placement.next
  cases g.temp <;> rfl

theorem next_rename {data : List UInt8} (h : g.temp = .flushed temp data) (dst : Path) :
    g.next (.rename temp dst) true = g.place .absent dst data := by
  simp only [Placement.next, h]

theorem next_rename_failed (g : Placement) (src dst : Path) : g.next (.rename src dst) false = g := by
  unfold Placement.next
  cases g.temp <;> rfl

theorem next_copy {data : List UInt8} (h : g.temp = .flushed temp data) (dst : Path) :
    g.next (.copy temp dst) true = g.place (.copied temp) dst data := by
  simp only [Placement.next, h]

theorem next_copy_failed (g : Placement) (src dst : Path) :
    g.next (.copy src dst) false = { g with torn := g.torn ++ [dst] } := by
  unfold Placement.next
  cases g.temp <;> rfl

/-- `persist_temp_file`: the file is in its place, or it is still there and a copy may have broken off
in the place. -/
theorem places_persist {data : List UInt8} (hwhole : g.temp = .flushed temp data) (htidy : g.Tidy)
    (htemp : ∃ final stamp, temp = tempTransferPath final stamp) :
    Places (fun result g' => g'.Tidy ∧ match result with
        | .ok _ => g'.temp = .absent ∧ g'.placed = g.placed ++ [(final, data)] ∧ g'.torn = g.torn
        | .error _ => g'.temp = g.temp ∧ g'.placed = g.placed
            ∧ (g'.torn = g.torn ∨ g'.torn = g.torn ++ [final])) g (persistTempFile temp final) := by
  unfold persistTempFile
  refine Places.then (places_createParent final) fun made => ?_
  cases made with
  | false => exact ⟨htidy, rfl, rfl, .inl rfl⟩
  | true =>
      rw [if_pos rfl]
      refine ⟨⟨data, hwhole⟩, ?_⟩
      intro (renamed : Bool)
      cases renamed with
      | true =>
          rw [next_rename hwhole]
          exact ⟨htidy, rfl, rfl, rfl⟩
      | false =>
          rw [next_rename_failed]
          refine ⟨⟨data, hwhole⟩, ?_⟩
          intro (copied : Bool)
          cases copied with
          | true =>
              rw [next_copy hwhole]
              refine ⟨.inr (.inl rfl), ?_⟩
              intro (removed : Bool)
              cases removed with
              | true => exact ⟨htidy, rfl, rfl, rfl⟩
              | false => exact ⟨fun _ hp => htidy.snoc htemp hp, rfl, rfl, rfl⟩
          | false =>
              rw [next_copy_failed]
              exact ⟨htidy, rfl, rfl, .inr rfl⟩

/-! ## The loops -/

/-- Both loops, by the frames that are left. Between entries the temporary file is absent and what
has been told is placed; within one the temporary file has the chunks so far. -/
theorem places_loops (root : Path) (frames : List Frame) :
    (∀ (g : Placement) (told : List Frame), g.temp = .absent → g.torn = [] → g.Tidy →
        Tells root told g.placed → Places (Ends root (told ++ frames)) g (dirLoop root frames))
      ∧ ∀ (g : Placement) (told : List Frame) (header : EntryHeader) (rel temp : Path)
        (chunks : List (List UInt8)), g.temp = .open temp chunks.flatten → g.torn = [] → g.Tidy →
        Tells root told g.placed → (∃ final stamp, temp = tempTransferPath final stamp) →
        header.isDir = false → sanitizeRemotePath header.path = .ok rel →
        Places (Ends root (told ++ (.newEntry header :: (chunks.map .getChunk ++ frames)))) g
          (dirEntry root header (root.join rel) temp frames) := by
  induction frames with
  | nil =>
      refine ⟨fun g told habs htorn htidy htold => ends_early htold htidy (.inl ⟨habs, htorn⟩), ?_⟩
      intro g told header rel temp chunks hopen htorn htidy htold htemp hfile hrel
      exact places_dropTemp htold htidy htorn htemp (.inr (.inr ⟨_, hopen⟩))
  | cons frame frames ih =>
      constructor
      · intro g told habs htorn htidy htold
        have hearly : ∀ e, Ends root (told ++ frame :: frames) (.error e) g :=
          fun e => ends_early htold htidy (.inl ⟨habs, htorn⟩)
        cases frame with
        | newEntry header =>
            unfold dirLoop
            cases hrel : sanitizeRemotePath header.path with
            | error e => exact hearly _
            | ok rel =>
                dsimp only
                cases hdir : header.isDir with
                | true =>
                    rw [if_pos rfl]
                    refine ⟨trivial, ?_⟩
                    intro (made : Bool)
                    cases made with
                    | false => exact hearly _
                    | true =>
                        have hnext := ih.1 g (told ++ [.newEntry header]) habs htorn htidy
                          (.dir htold hdir hrel)
                        rw [List.append_assoc] at hnext
                        exact hnext
                | false =>
                    rw [if_neg Bool.false_ne_true]
                    refine Places.then (places_createParent _) fun _ => ?_
                    refine ⟨trivial, fun stamp => ⟨⟨habs, _, stamp, rfl⟩, ?_⟩⟩
                    intro (created : Bool)
                    cases created with
                    | false => exact hearly _
                    | true =>
                        exact ih.2 { g with temp := .open _ [] } told header rel _ [] rfl htorn htidy htold
                          ⟨_, stamp, rfl⟩ hdir hrel
        | getComplete =>
            exact ⟨told, _, rfl, htold, htidy, .inl ⟨habs, htorn⟩, fun _ => ⟨habs, htorn, frames, rfl⟩⟩
        | _ => exact hearly _
      · intro g told header rel temp chunks hopen htorn htidy htold htemp hfile hrel
        have hdrop : ∀ message, Places (Ends root (told ++ (.newEntry header :: (chunks.map .getChunk
            ++ frame :: frames)))) g (dropTemp temp message) :=
          fun _ => places_dropTemp htold htidy htorn htemp (.inr (.inr ⟨_, hopen⟩))
        have hbroken : ∀ message, Places (Ends root (told ++ (.newEntry header :: (chunks.map .getChunk
            ++ frame :: frames)))) { g with temp := .broken temp } (dropTemp temp message) :=
          fun _ => places_dropTemp (g := { g with temp := .broken temp }) htold htidy htorn htemp (.inl rfl)
        cases frame with
        | getChunk chunk =>
            unfold dirEntry
            refine ⟨⟨_, hopen⟩, ?_⟩
            intro (written : Bool)
            cases written with
            | false =>
                rw [next_writeAll_failed]
                exact hbroken _
            | true =>
                rw [next_writeAll hopen]
                have hnext :=
                  ih.2 { g with temp := .open temp (chunks.flatten ++ chunk) } told header rel temp
                  (chunks ++ [chunk]) (by simp) htorn htidy htold htemp hfile hrel
                rw [List.map_append, List.append_assoc] at hnext
                exact hnext
        | entryComplete =>
            unfold dirEntry
            refine ⟨⟨_, hopen⟩, ?_⟩
            intro (flushed : Bool)
            cases flushed with
            | false =>
                rw [next_finish_failed]
                exact hbroken _
            | true =>
                rw [next_finish hopen]
                show Places _ _ (persistTempFile temp (root.join rel) >>= _)
                refine Prog.Tracks.bind (places_persist (g := { g with temp := .flushed temp chunks.flatten })
                  rfl htidy htemp) fun result g' hg => ?_
                cases result with
                | error e =>
                    obtain ⟨htidy', htemp', hplaced, htorn'⟩ := hg
                    rw [htorn, List.nil_append] at htorn'
                    exact ends_early (hplaced ▸ htold) htidy'
                      (.inr ⟨header, rel, temp, chunks, frames, rfl, hrel, htemp, htemp', htorn'⟩)
                | ok u =>
                    obtain ⟨htidy', habs, hplaced, htorn'⟩ := hg
                    have hmem : ∃ data, (root.join rel, data) ∈ g'.placed := by
                      rw [hplaced]
                      exact ⟨_, List.mem_append_right _ List.mem_cons_self⟩
                    refine Places.then (places_chmod _ habs hmem) fun _ => ?_
                    have hnext := ih.1 g'
                      (told ++ (.newEntry header :: (chunks.map .getChunk ++ [.entryComplete]))) habs
                      (htorn'.trans htorn) htidy' (hplaced ▸ .file chunks htold hfile hrel)
                    simp only [List.append_assoc, List.cons_append, List.nil_append] at hnext
                    exact hnext
        | putChunk chunk => exact hdrop _
        | _ => exact hdrop _

end

namespace Proof

/-- **What is placed is what was sent, entry by entry.** -/
theorem recursive_download_places (root : Path) (frames : List Frame) :
    Places (fun result g => Ends root frames.tail result g
      ∧ (result = .ok () → frames.head? = some .getReady))
      .start (downloadDirWithProgress root frames) := by
  have hnothing : Tells root [] Placement.start.placed := .none
  have hrefused : ∀ e, Ends root frames.tail (.error e) .start := fun e =>
    ends_early hnothing (fun _ hp => absurd hp List.not_mem_nil) (.inl ⟨rfl, rfl⟩)
  have hfailed : ∀ e : String, (Except.error e : Except String Unit) = .ok () →
      frames.head? = some .getReady := fun e h => by cases h
  cases frames with
  | nil => exact ⟨hrefused _, hfailed _⟩
  | cons frame frames =>
      cases frame with
      | getReady =>
          have hloop := (places_loops root frames).1 .start [] rfl rfl
            (fun _ hp => absurd hp List.not_mem_nil) .none
          exact hloop.mono fun _ _ hends => ⟨hends, fun _ => rfl⟩
      | _ => exact ⟨hrefused _, hfailed _⟩

end Proof

end Irosh
