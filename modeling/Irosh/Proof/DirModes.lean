import Irosh.Proof.RecursiveUpload
import Irosh.Transfer.Guarded

/-!
# Directory modes and later entries

The server gives a directory its mode as soon as it has made it, and the entries of the
directory come after it. An operation is looked up along the places that its path goes
through, and these are the root's and those above an entry; so only a directory with
something in it, or one the root's own path passes, can bar anything.

The converse needs a run that gets as far as the entry in question. As long as nothing has
been barred, the guarded file system answers as the one without permissions does, where
it is known what is there after so many entries.
-/

namespace Irosh

open UnixPath Wire FileTree

namespace TreeWorld

variable {w : TreeWorld} {s s' : Spot} {node : Option FileNode} {p : Path}

theorem nodes_of_find (h : w.find p = some (s, node)) : w.nodes s = node := by
  unfold find at h
  split at h
  · cases h
    rfl
  · cases h
  · cases h

theorem spot_of_find (h : w.find p = some (s, node)) : s = spot p.parts := by
  unfold find at h
  split at h
  · rename_i s' hlook
    cases h
    exact lead_at hlook
  · cases h
  · cases h

/-- Where something that is no directory takes the place of something that is none. -/
theorem set_dirs (hs : ¬ IsDir w.nodes s') (hnode : ∀ mode, node ≠ some (.dir mode)) (mode : UInt32) :
    (w.set s' node).nodes s = some (.dir mode) ↔ w.nodes s = some (.dir mode) := by
  by_cases he : s = s'
  · rw [he, set_nodes_self]
    exact ⟨fun h => absurd h (hnode mode), fun h => absurd ⟨mode, h⟩ hs⟩
  · rw [set_nodes_ne he]

theorem not_isDir_of_find (h : w.find p = some (s, node)) (hnode : ∀ mode, node ≠ some (.dir mode)) :
    ¬ IsDir w.nodes s := by
  intro hdir
  obtain ⟨mode, hmode⟩ := hdir
  rw [nodes_of_find h] at hmode
  exact hnode mode hmode

/-- **What an operation does to the directories**: it leaves them as they are, makes one that was
missing, or sets the mode of one. -/
theorem dirs_after (o : FsOp) (w : TreeWorld) (s : Spot) :
    (∀ mode, (fsAnswer o w).2.nodes s = some (.dir mode) ↔ w.nodes s = some (.dir mode))
      ∨ w.nodes s = none ∧ (fsAnswer o w).2.nodes s = some (.dir w.dirMode)
      ∨ ∃ p m old, o = .setMode p m ∧ w.find p = some (s, some (.dir old))
          ∧ (fsAnswer o w).2.nodes s = some (.dir (UInt32.ofNat m)) := by
  cases o with
  | now => exact .inl fun _ => Iff.rfl
  | pathMissing p => exact .inl fun _ => Iff.rfl
  | finish p => exact .inl fun _ => Iff.rfl
  | readBlob hash => exact .inl fun _ => Iff.rfl
  | loadCollection hash => exact .inl fun _ => Iff.rfl
  | exportBlob hash p => exact .inl fun _ => Iff.rfl
  | reply => exact .inl fun _ => Iff.rfl
  | createDirAll p =>
      rcases makeDirs_kept w.dirMode w.nodes [] p.parts s with hkept | ⟨hnone, hnew, -⟩
      · refine .inl fun mode => ?_
        show (makeDirs w.dirMode w.nodes [] p.parts).2 s = _ ↔ _
        rw [hkept]
      · exact .inr (.inl ⟨hnone, hnew⟩)
  | createFile p =>
      refine .inl fun mode => ?_
      cases hfind : w.find p with
      | none => simp only [fsAnswer, hfind]
      | some found =>
          obtain ⟨s', old⟩ := found
          rcases old with _ | ⟨m⟩ | ⟨m, data⟩
          · simp only [fsAnswer, hfind]
            exact set_dirs (not_isDir_of_find hfind fun m h => by cases h) (fun m h => by cases h) mode
          · simp only [fsAnswer, hfind]
          · simp only [fsAnswer, hfind]
            exact set_dirs (not_isDir_of_find hfind fun m h => by cases h) (fun m h => by cases h) mode
  | writeAll p chunk =>
      refine .inl fun mode => ?_
      cases hfind : w.find p with
      | none => simp only [fsAnswer, hfind]
      | some found =>
          obtain ⟨s', old⟩ := found
          rcases old with _ | ⟨m⟩ | ⟨m, data⟩
          · simp only [fsAnswer, hfind]
          · simp only [fsAnswer, hfind]
          · simp only [fsAnswer, hfind]
            exact set_dirs (not_isDir_of_find hfind fun m h => by cases h) (fun m h => by cases h) mode
  | rename src dst =>
      refine .inl fun mode => ?_
      cases hsrc : w.find src with
      | none => simp only [fsAnswer, hsrc]
      | some found =>
          obtain ⟨s₁, old⟩ := found
          cases hdst : w.find dst with
          | none => simp only [fsAnswer, hsrc, hdst]
          | some found =>
              obtain ⟨s₂, new⟩ := found
              rcases old with _ | ⟨m⟩ | ⟨m, data⟩ <;> rcases new with _ | ⟨m'⟩ | ⟨m', data'⟩ <;>
                simp only [fsAnswer, hsrc, hdst]
              all_goals
                have hfree := not_isDir_of_find hsrc fun m h => by cases h
                have htaken := not_isDir_of_find hdst fun m h => by cases h
                have hmoved : ∀ m, (w.set s₁ none).nodes s₂ = some (.dir m) ↔ w.nodes s₂ = some (.dir m) :=
                  set_dirs hfree fun m h => by cases h
                rw [set_dirs (fun h => htaken (h.imp fun m hm => (hmoved m).mp hm))
                  (fun m h => by cases h) mode]
                exact set_dirs hfree (fun m h => by cases h) mode
  | copy src dst =>
      refine .inl fun mode => ?_
      cases hsrc : w.find src with
      | none => simp only [fsAnswer, hsrc]
      | some found =>
          obtain ⟨s₁, old⟩ := found
          cases hdst : w.find dst with
          | none => simp only [fsAnswer, hsrc, hdst]
          | some found =>
              obtain ⟨s₂, new⟩ := found
              rcases old with _ | ⟨m⟩ | ⟨m, data⟩ <;> rcases new with _ | ⟨m'⟩ | ⟨m', data'⟩ <;>
                simp only [fsAnswer, hsrc, hdst]
              all_goals
                exact set_dirs (not_isDir_of_find hdst fun m h => by cases h) (fun m h => by cases h) mode
  | removeFile p =>
      refine .inl fun mode => ?_
      cases hfind : w.find p with
      | none => simp only [fsAnswer, hfind]
      | some found =>
          obtain ⟨s', old⟩ := found
          rcases old with _ | ⟨m⟩ | ⟨m, data⟩
          · simp only [fsAnswer, hfind]
          · simp only [fsAnswer, hfind]
          · simp only [fsAnswer, hfind]
            exact set_dirs (not_isDir_of_find hfind fun m h => by cases h) (fun m h => by cases h) mode
  | setMode p m =>
      cases hfind : w.find p with
      | none => exact .inl fun mode => by simp only [fsAnswer, hfind]
      | some found =>
          obtain ⟨s', old⟩ := found
          rcases old with _ | ⟨m'⟩ | ⟨m', data⟩
          · exact .inl fun mode => by simp only [fsAnswer, hfind]
          · by_cases he : s = s'
            · refine .inr (.inr ⟨p, m, m', rfl, by rw [he]; exact hfind, ?_⟩)
              simp only [fsAnswer, hfind]
              rw [he]
              exact set_nodes_self _ _
            · refine .inl fun mode => ?_
              simp only [fsAnswer, hfind]
              rw [set_nodes_ne he]
          · refine .inl fun mode => ?_
            simp only [fsAnswer, hfind]
            exact set_dirs (not_isDir_of_find hfind fun m h => by cases h) (fun m h => by cases h) mode

theorem dirMode_after (o : FsOp) (w : TreeWorld) : (fsAnswer o w).2.dirMode = w.dirMode := by
  cases o <;> simp only [fsAnswer]
  all_goals
    split
    all_goals rfl

end TreeWorld

/-! ## Where an operation is looked up -/

/-- The paths that an operation looks up. -/
def FsOp.paths : FsOp → List Path
  | .pathMissing p => [p]
  | .createDirAll p => [p]
  | .createFile p => [p]
  | .rename src dst => [src, dst]
  | .copy src dst => [src, dst]
  | .removeFile p => [p]
  | .setMode p _ => [p]
  | .now | .writeAll _ _ | .finish _ | .readBlob _ | .loadCollection _ | .exportBlob _ _ | .reply => []

/-- **What bars an operation** is on the way of one of its paths, or has just been made. -/
theorem GuardedWorld.bar_paths {w : TreeWorld} {o : FsOp} {u : Spot} (h : bar w o = some u) :
    ∃ p ∈ o.paths, Bars w.nodes [] p.parts u ∨ w.nodes u = none ∧ grants w.dirMode = false := by
  cases o with
  | now => cases h
  | writeAll p chunk => cases h
  | finish p => cases h
  | readBlob hash => cases h
  | loadCollection hash => cases h
  | exportBlob hash p => cases h
  | reply => cases h
  | pathMissing p => exact ⟨p, List.mem_cons_self, .inl (searchBar_bars h)⟩
  | createDirAll p => exact ⟨p, List.mem_cons_self, makeBar_bars h⟩
  | setMode p mode => exact ⟨p, List.mem_cons_self, .inl (searchBar_bars h)⟩
  | createFile p =>
      refine ⟨p, List.mem_cons_self, .inl ?_⟩
      simp only [bar] at h
      split at h
      · rename_i hsearch
        cases h
        exact searchBar_bars hsearch
      · split at h
        · exact writeBar_bars h
        · cases h
  | removeFile p =>
      refine ⟨p, List.mem_cons_self, .inl ?_⟩
      simp only [bar] at h
      split at h
      · rename_i hsearch
        cases h
        exact searchBar_bars hsearch
      · split at h
        · exact writeBar_bars h
        · cases h
  | rename src dst =>
      simp only [bar] at h
      split at h
      · rename_i hsrc
        cases h
        exact ⟨src, List.mem_cons_self, .inl (searchBar_bars hsrc)⟩
      · rename_i hdst
        cases h
        exact ⟨dst, List.mem_cons_of_mem _ List.mem_cons_self, .inl (searchBar_bars hdst)⟩
      · rename_i hsrc
        cases h
        exact ⟨src, List.mem_cons_self, .inl (writeBar_bars hsrc)⟩
      · exact ⟨dst, List.mem_cons_of_mem _ List.mem_cons_self, .inl (writeBar_bars h)⟩
  | copy src dst =>
      simp only [bar] at h
      split at h
      · rename_i hsrc
        cases h
        exact ⟨src, List.mem_cons_self, .inl (searchBar_bars hsrc)⟩
      · rename_i hdst
        cases h
        exact ⟨dst, List.mem_cons_of_mem _ List.mem_cons_self, .inl (searchBar_bars hdst)⟩
      · split at h
        · exact ⟨dst, List.mem_cons_of_mem _ List.mem_cons_self, .inl (writeBar_bars h)⟩
        · cases h

/-! ## What the transfer looks up -/

section

variable {root : Path} {t : Tree} {q : Spot} {n m : Name} {context : ShellContext}

/-- A place that the root's path goes through, or that has an entry in it. -/
def Passed (root : Path) (t : Tree) (u : Spot) : Prop :=
  u ∈ visits [] root.parts ∨ ∃ r n, u = spot root.parts ++ r ∧ t.nodes (r ++ [n]) ≠ none

/-- Nothing else is on the way of a path. -/
def Along (root : Path) (t : Tree) (p : Path) : Prop :=
  ∀ u ∈ (visits [] p.parts).dropLast, Passed root t u

theorem passed_dirOf (hq : t.nodes (q ++ [n]) ≠ none) {u : Spot}
    (hu : u ∈ visits [] (dirOf root q).parts) : Passed root t u := by
  rcases mem_visits_names hu with hroot | ⟨r, ⟨rest, hsplit⟩, -, hr⟩
  · exact .inl hroot
  · cases rest with
    | nil =>
        rw [List.append_nil] at hsplit
        rw [← hsplit] at hq
        exact .inr ⟨r, n, hr, hq⟩
    | cons x rest =>
        refine .inr ⟨r, x, hr, fun hnone => hq ?_⟩
        have hbelow := t.none_below hnone (rest ++ [n])
        rw [← hsplit]
        rw [List.append_assoc, List.singleton_append] at hbelow
        rwa [List.append_assoc, List.cons_append]

theorem along_dirOf (hq : t.nodes (q ++ [n]) ≠ none) : Along root t (dirOf root q) :=
  fun _ hu => passed_dirOf hq (List.dropLast_subset _ hu)

theorem along_child (hq : t.nodes (q ++ [n]) ≠ none) (m : Name) : Along root t ((dirOf root q).child m) := by
  intro u hu
  have hvisits : visits [] ((dirOf root q).child m).parts
      = visits [] (dirOf root q).parts ++ [goTo (spot (dirOf root q).parts) (.normal m)] := visits_snoc _ _ _
  rw [hvisits, List.dropLast_concat] at hu
  exact passed_dirOf hq hu

theorem along_root (root : Path) (t : Tree) : Along root t root :=
  fun _ hu => .inl (List.dropLast_subset _ hu)

/-- What an operation of the transfer may look up, and where it sets which mode. -/
def FitsTree (root : Path) (t : Tree) : ServeOp → Prop
  | .blob (.fs o) => (∀ p ∈ o.paths, Along root t p) ∧
      ∀ p mode, o = .setMode p mode → ∃ q node, q ≠ [] ∧ t.nodes q = some node
        ∧ spot p.parts = spot root.parts ++ q ∧ UInt32.ofNat mode = node.mode &&& 0o777
  | _ => True

/-- An operation that sets no mode. -/
theorem fits_of_along {o : FsOp} (h : ∀ p ∈ o.paths, Along root t p)
    (hmode : ∀ p mode, o ≠ .setMode p mode) : FitsTree root t (.blob (.fs o)) :=
  ⟨h, fun p mode he => absurd he (hmode p mode)⟩

theorem fits_fs {o : FsOp} {p : Path} (hpaths : o.paths = [p]) (hp : Along root t p)
    (hmode : ∀ p mode, o ≠ .setMode p mode) : FitsTree root t (.blob (.fs o)) := by
  refine fits_of_along (fun p' hp' => ?_) hmode
  rw [hpaths, List.mem_singleton] at hp'
  rw [hp']
  exact hp

/-- File system programs among the handlers. -/
theorem serve_fits {α : Type} {p : FsProg α} {Q : α → Prop}
    (hp : p.Ensures (fun o => FitsTree root t (.blob (.fs o))) Q) :
    (FsProg.serve p).Ensures (FitsTree root t) Q := hp.lift fun _ ho => ho

theorem createDirAll_fits {p : Path} (h : Along root t p) :
    (context.createDirAll p).Always fun o => FitsTree root t (.blob (.fs o)) :=
  ⟨fits_fs rfl h (by simp), fun _ => trivial⟩

theorem rename_fits {src dst : Path} (hsrc : Along root t src) (hdst : Along root t dst) :
    (FsProg.serve (context.rename src dst)).Always (FitsTree root t) := by
  refine serve_fits ⟨fits_of_along (fun p hp => ?_) (by simp), fun _ => trivial⟩
  rcases List.mem_cons.mp hp with hp | hp
  · rw [hp]
    exact hsrc
  · rw [List.mem_singleton.mp hp]
    exact hdst

/-- The mode of an entry, at its place. -/
theorem chmod_fits {node : FileNode} {mode : UInt32} (hn : t.nodes (q ++ [n]) = some node)
    (hmode : mode = node.mode &&& 0o777) :
    (FsProg.serve (chmod ((dirOf root q).child n) (some mode.toNat))).Always (FitsTree root t) := by
  have hsome : t.nodes (q ++ [n]) ≠ none := by
    rw [hn]
    exact Option.some_ne_none node
  refine serve_fits ⟨⟨fun p hp => ?_, fun p m he => ?_⟩, fun _ => trivial⟩
  · rw [List.mem_singleton.mp hp]
    exact along_child hsome n
  · cases he
    refine ⟨q ++ [n], node, by simp, hn, ?_, ?_⟩
    · have hspot : spot ((dirOf root q).child n).parts = spot (dirOf root q).parts ++ [n] :=
        spotFrom_append [] (dirOf root q).parts [.normal n]
      rw [hspot, spot_dirOf, List.append_assoc]
    · rw [UInt32.ofNat_toNat, hmode]

theorem discard_fits (hq : t.nodes (q ++ [n]) ≠ none) (m : Name) :
    (Serve.discard ((dirOf root q).child m)).Always (FitsTree root t) :=
  ⟨fits_fs rfl (along_child hq m) (by simp), fun _ => trivial⟩

theorem refuse_fits (failure : TransferFailure) : (Serve.refuse failure).Always (FitsTree root t) :=
  ⟨trivial, fun _ => trivial⟩

/-- The file and its part file are in the directory of the entry. -/
def PreparedIn (root : Path) (q : Spot) (n : Name) : Except String (Option PreparedPutDestination) → Prop
  | .ok (some prepared) =>
      prepared.final = (dirOf root q).child n ∧ ∃ m, prepared.part = (dirOf root q).child m
  | _ => True

theorem prepare_fits (habs : root.head = .rootDir) (hq : t.nodes (q ++ [n]) ≠ none) :
    (preparePutDestination context ((dirOf root q).child n).display).Ensures
      (fun o => FitsTree root t (.blob (.fs o))) (PreparedIn root q n) := by
  have hresolve := @resolvePath_display context ((dirOf root q).child n) habs
  unfold preparePutDestination
  rw [hresolve]
  refine Prog.ensures_perform (fits_fs rfl (along_child hq n) (by simp)) fun missing => ?_
  cases missing with
  | error _ => trivial
  | ok missing =>
      cases missing with
      | false => trivial
      | true =>
          rw [Path.parent_child, Option.getD_some]
          refine Prog.Always.bind (createDirAll_fits (along_dirOf hq)) fun made => ?_
          rcases made with _ | _ | _
          · trivial
          · trivial
          · refine Prog.ensures_perform (fits_of_along (fun p hp => by cases hp) (by simp)) fun stamp => ?_
            rw [Path.setFileName_child]
            exact ⟨rfl, _, rfl⟩

theorem dropEntry_fits {prepared : PreparedPutDestination} (hq : t.nodes (q ++ [n]) ≠ none)
    (hpart : prepared.part = (dirOf root q).child m) (mismatch : Option TransferFailure) :
    (Serve.dropEntry prepared mismatch).Always (FitsTree root t) := by
  unfold Serve.dropEntry
  rw [hpart]
  refine Prog.ensures_perform trivial fun _ => ?_
  refine Prog.ensures_perform (fits_of_along (fun p hp => by cases hp) (by simp)) fun _ => ?_
  refine Prog.Always.bind (discard_fits hq m) fun _ => ?_
  cases mismatch with
  | none => trivial
  | some failure => exact refuse_fits failure

/-! ## The two loops -/

/-- Every header in a stream is one for an entry of the tree, with its mode. -/
def HeadersOf (t : Tree) (frames : List TransferFrame) : Prop :=
  ∀ header, TransferFrame.newEntry header ∈ frames → ∃ q node, q ≠ [] ∧ t.nodes q = some node
    ∧ header.path.toList = (relPath q).display ∧ header.mode = some (node.mode &&& 0o777)

theorem HeadersOf.tail {frame : TransferFrame} {rest : List TransferFrame} (h : HeadersOf t (frame :: rest)) :
    HeadersOf t rest := fun header hmem => h header (List.mem_cons_of_mem _ hmem)

theorem headersOf_treeFrames (reads : Spot → List (List UInt8)) {walk : List Spot} (hwalks : Walks t walk)
    (complete : TransferComplete) : HeadersOf t (treeFrames t reads walk ++ [.putComplete complete]) := by
  intro header hmem
  rcases List.mem_append.mp hmem with hmem | hlast
  · obtain ⟨q, hq, hframe⟩ := List.mem_flatMap.mp hmem
    obtain ⟨hne, -⟩ := (hwalks.mem q).mp hq
    cases hn : t.nodes q with
    | none =>
        rw [entryFrames, hn] at hframe
        cases hframe
    | some node =>
        refine ⟨q, node, hne, hn, ?_⟩
        cases node with
        | dir mode =>
            rw [entryFrames, hn] at hframe
            cases List.mem_singleton.mp hframe
            exact ⟨String.toList_ofList, rfl⟩
        | file mode data =>
            simp only [entryFrames, hn, List.mem_cons, List.mem_append, List.mem_map] at hframe
            rcases hframe with hhead | ⟨chunk, -, hchunk⟩ | hend | hnil
            · cases hhead
              exact ⟨String.toList_ofList, rfl⟩
            · cases hchunk
            · cases hend
            · cases hnil
  · cases List.mem_singleton.mp hlast

/-- What the loop has in hand while it reads a file. -/
structure Upload (root : Path) (t : Tree) (header : Wire.EntryHeader) (prepared : PreparedPutDestination)
    (q : Spot) (n : Name) : Prop where
  node : ∃ node, t.nodes (q ++ [n]) = some node ∧ header.mode = some (node.mode &&& 0o777)
  final : prepared.final = (dirOf root q).child n
  part : ∃ m, prepared.part = (dirOf root q).child m

theorem Upload.there {header : Wire.EntryHeader} {prepared : PreparedPutDestination}
    (h : Upload root t header prepared q n) : t.nodes (q ++ [n]) ≠ none := by
  obtain ⟨node, hn, -⟩ := h.node
  rw [hn]
  exact Option.some_ne_none node

/-- **One header.** -/
theorem newEntry_fits {header : Wire.EntryHeader} {rest : List TransferFrame} {total : Nat}
    (habs : root.head = .rootDir) (h : HeadersOf t (.newEntry header :: rest))
    (hloop : (Serve.putLoop context root total rest).Always (FitsTree root t))
    (hentry : ∀ prepared q n, Upload root t header prepared q n →
      (Serve.putEntry context root total header prepared 0 rest).Always (FitsTree root t)) :
    (Serve.putLoop context root total (.newEntry header :: rest)).Always (FitsTree root t) := by
  obtain ⟨q, node, hne, hn, hpath, hmode⟩ := h header List.mem_cons_self
  obtain ⟨dir, n, rfl⟩ : ∃ dir n, q = dir ++ [n] :=
    ⟨q.dropLast, q.getLast hne, (List.dropLast_append_getLast hne).symm⟩
  have hsome : t.nodes (dir ++ [n]) ≠ none := by
    rw [hn]
    exact Option.some_ne_none node
  rw [Serve.putLoop]
  split
  · trivial
  · rename_i entryPath hok
    obtain ⟨rfl, -, -⟩ := sanitizeRelativePath_ok hok
    rw [hpath, join_relPath habs dir n]
    split
    · refine Prog.Always.bind (serve_fits (createDirAll_fits (along_child hsome n))) fun made => ?_
      cases made with
      | error e => trivial
      | ok made =>
          rw [hmode, Option.map_some]
          exact Prog.Always.bind (chmod_fits hn rfl) fun _ => hloop
    · refine (serve_fits (prepare_fits habs hsome)).bind fun prepared hprepared => ?_
      rcases prepared with e | _ | prepared
      · trivial
      · exact refuse_fits _
      · obtain ⟨hfinal, m, hpart⟩ := hprepared
        refine Prog.ensures_perform (fits_fs (p := prepared.part) rfl ?_ (by simp)) fun created => ?_
        · rw [hpart]
          exact along_child hsome m
        · refine Prog.always_guard (Prog.ensures_perform trivial fun available => Prog.always_guard ?_)
          exact hentry prepared dir n ⟨⟨node, hn, hmode⟩, hfinal, m, hpart⟩

/-- **Every operation of the loops fits.** -/
theorem putLoop_putEntry_fits (habs : root.head = .rootDir) (frames : List TransferFrame)
    (h : HeadersOf t frames) :
    (∀ total, (Serve.putLoop context root total frames).Always (FitsTree root t))
      ∧ ∀ total header prepared received q n, Upload root t header prepared q n →
        (Serve.putEntry context root total header prepared received frames).Always (FitsTree root t) := by
  induction frames with
  | nil =>
      refine ⟨fun _ => trivial, fun total header prepared received q n hup => ?_⟩
      obtain ⟨m, hpart⟩ := hup.part
      exact dropEntry_fits hup.there hpart none
  | cons frame rest ih =>
      obtain ⟨hloop, hentry⟩ := ih h.tail
      refine ⟨fun total => ?_, fun total header prepared received q n hup => ?_⟩
      · cases frame with
        | newEntry header =>
            exact newEntry_fits habs h (hloop total) fun prepared => hentry total header prepared 0
        | putComplete complete => exact ⟨trivial, fun _ => trivial⟩
        | _ => trivial
      · obtain ⟨m, hpart⟩ := hup.part
        have hdrop := dropEntry_fits hup.there hpart
        cases frame with
        | putChunk chunk =>
            rw [Serve.putEntry]
            split
            · exact hdrop _
            · refine Prog.ensures_perform
                (fits_of_along (fun p hp => by cases hp) (by simp)) fun written => ?_
              cases written with
              | true => exact hentry total header prepared _ q n hup
              | false => exact hdrop none
        | entryComplete complete =>
            rw [Serve.putEntry]
            split
            · exact hdrop _
            · refine Prog.ensures_perform trivial fun _ => ?_
              refine Prog.ensures_perform
                (fits_of_along (fun p hp => by cases hp) (by simp)) fun finished => ?_
              cases finished with
              | false =>
                  rw [hpart]
                  exact Prog.Always.bind (discard_fits hup.there m) fun _ => trivial
              | true =>
                  obtain ⟨node, hn, hmode⟩ := hup.node
                  have hrename := @rename_fits root t context prepared.part prepared.final
                    (by rw [hpart]; exact along_child hup.there m)
                    (by rw [hup.final]; exact along_child hup.there n)
                  refine Prog.Always.bind hrename fun renamed => ?_
                  rcases renamed with _ | _ | _
                  · trivial
                  · trivial
                  · rw [hup.final, hmode, Option.map_some]
                    exact Prog.Always.bind (chmod_fits hn rfl) fun _ => hloop _
        | _ => exact hdrop none

theorem handleRecursivePut_fits {request : PutRequest} {frames : List TransferFrame}
    (hroot : context.resolvePath request.path.toList = .ok root) (h : HeadersOf t frames) :
    (Serve.handleRecursivePut context request frames).Always (FitsTree root t) := by
  rw [Serve.handleRecursivePut, hroot]
  refine Prog.Always.bind (serve_fits (createDirAll_fits (along_root root t))) fun made => ?_
  cases made with
  | error e => trivial
  | ok made =>
      refine Prog.Always.bind ⟨trivial, fun _ => trivial⟩ fun sent => ?_
      cases sent with
      | error e => trivial
      | ok _ => exact (putLoop_putEntry_fits (resolvePath_absolute hroot) frames h).1 0

/-! ## Nothing is barred -/

/-- An entry that lacks a bit has nothing in it, and the root's path does not go through it. -/
def Harmless (root : Path) (t : Tree) : Prop :=
  ∀ q node, q ≠ [] → t.nodes q = some node → grants node.mode = false →
    (∀ n, t.nodes (q ++ [n]) = none) ∧ spot root.parts ++ q ∉ visits [] root.parts

/-- The directories whose mode has been set have the mode of their entry, and none of them has barred
anything. -/
structure Unbarred (root : Path) (t : Tree) (w : GuardedWorld) : Prop where
  applied : ∀ s ∈ w.applied, ∃ q node, q ≠ [] ∧ t.nodes q = some node ∧ s = spot root.parts ++ q
    ∧ w.tree.nodes s = some (.dir (node.mode &&& 0o777))
  barred : w.barred = []

/-- What bars an operation is none of those directories. -/
theorem Unbarred.bar_notMem {w : GuardedWorld} (h : Unbarred root t w) (hharm : Harmless root t) {o : FsOp}
    (ho : FitsTree root t (.blob (.fs o))) {u : Spot} (hbar : GuardedWorld.bar w.tree o = some u) :
    u ∉ w.applied := by
  intro hu
  obtain ⟨q, node, hne, hn, rfl, hdir⟩ := h.applied u hu
  obtain ⟨p, hp, hbars⟩ := GuardedWorld.bar_paths hbar
  rcases hbars with ⟨hvisit, mode, hmode, hlacks⟩ | ⟨hnone, -⟩
  · rw [hdir] at hmode
    cases hmode
    rw [grants_masked] at hlacks
    obtain ⟨hleaf, haway⟩ := hharm q node hne hn hlacks
    rcases ho.1 p hp _ hvisit with hroot | ⟨r, n, hr, hbelow⟩
    · exact haway hroot
    · rw [← List.append_cancel_left hr] at hbelow
      exact hbelow (hleaf n)
  · rw [hdir] at hnone
    cases hnone

/-- **One operation.** -/
theorem Unbarred.fsAnswer {w : GuardedWorld} (h : Unbarred root t w) (hharm : Harmless root t) {o : FsOp}
    (ho : FitsTree root t (.blob (.fs o))) : Unbarred root t (GuardedWorld.fsAnswer o w).2 := by
  unfold GuardedWorld.fsAnswer
  split
  · rename_i u hbar
    rw [if_neg (h.bar_notMem hharm ho hbar)]
    exact h
  · refine ⟨fun s hs => ?_, h.barred⟩
    have hold : s ∈ w.applied ∨ ∃ p mode old, o = .setMode p mode
        ∧ w.tree.find p = some (s, some (.dir old)) := by
      cases o with
      | setMode p mode =>
          simp only [GuardedWorld.marks] at hs
          split at hs
          · rename_i s' old hfind
            rcases List.mem_cons.mp hs with heq | hs
            · rw [heq]
              exact .inr ⟨p, mode, old, rfl, hfind⟩
            · exact .inl hs
          · exact .inl hs
      | _ => exact .inl hs
    have hset : ∀ p mode old, o = .setMode p mode → w.tree.find p = some (s, some (.dir old)) →
        (TreeWorld.fsAnswer o w.tree).2.nodes s = some (.dir (UInt32.ofNat mode)) →
        ∃ q node, q ≠ [] ∧ t.nodes q = some node ∧ s = spot root.parts ++ q
          ∧ (TreeWorld.fsAnswer o w.tree).2.nodes s = some (.dir (node.mode &&& 0o777)) := by
      intro p mode old he hfind hnew
      obtain ⟨q, node, hne, hn, hspot, hmode⟩ := ho.2 p mode he
      refine ⟨q, node, hne, hn, ?_, by rw [hnew, hmode]⟩
      rw [← hspot]
      exact TreeWorld.spot_of_find hfind
    rcases hold with hs | ⟨p, mode, old, he, hfind⟩
    · obtain ⟨q, node, hne, hn, hspot, hdir⟩ := h.applied s hs
      rcases TreeWorld.dirs_after o w.tree s with hkept | ⟨hnone, -⟩ | ⟨p, mode, old, he, hfind, hnew⟩
      · exact ⟨q, node, hne, hn, hspot, (hkept _).mpr hdir⟩
      · rw [hdir] at hnone
        cases hnone
      · exact hset p mode old he hfind hnew
    · refine hset p mode old he hfind ?_
      rw [he]
      simp only [TreeWorld.fsAnswer, hfind]
      exact TreeWorld.set_nodes_self _ _

/-- Everything that is no operation on files. -/
theorem GuardedWorld.answer_other {o : ServeOp} (h : ∀ fs, o ≠ .blob (.fs fs)) (w : GuardedWorld) :
    ((answer o w).2.applied = w.applied ∧ (answer o w).2.barred = w.barred)
      ∧ (answer o w).2.tree.nodes = w.tree.nodes := by
  cases o with
  | blob b =>
      cases b with
      | fs fs => exact absurd rfl (h fs)
      | send frame =>
          refine ⟨⟨rfl, rfl⟩, ?_⟩
          show (if w.tree.writes frame then _ else w.tree).nodes = _
          split <;> rfl
      | _ => exact ⟨⟨rfl, rfl⟩, rfl⟩
  | _ => exact ⟨⟨rfl, rfl⟩, rfl⟩

theorem Unbarred.answer {w : GuardedWorld} (h : Unbarred root t w) (hharm : Harmless root t) {o : ServeOp}
    (ho : FitsTree root t o) : Unbarred root t (GuardedWorld.answer o w).2 := by
  by_cases hfs : ∃ fs, o = .blob (.fs fs)
  · obtain ⟨fs, rfl⟩ := hfs
    exact h.fsAnswer hharm ho
  · obtain ⟨⟨happlied, hbarred⟩, hnodes⟩ := GuardedWorld.answer_other (fun fs he => hfs ⟨fs, he⟩) w
    exact ⟨by rw [happlied, hnodes]; exact h.applied, hbarred.trans h.barred⟩

/-- **A whole transfer.** -/
theorem handleRecursivePut_unbarred {request : PutRequest} {frames : List TransferFrame} {v : GuardedWorld}
    (hroot : context.resolvePath request.path.toList = .ok root) (h : HeadersOf t frames)
    (hharm : Harmless root t) (hv : v.applied = [] ∧ v.barred = []) :
    (GuardedWorld.run (Serve.handleRecursivePut context request frames) v).2.barred = [] := by
  have hstart : Unbarred root t v := by
    refine ⟨fun s hs => ?_, hv.2⟩
    rw [hv.1] at hs
    cases hs
  have hstep : ∀ o w, FitsTree root t o → Unbarred root t w → Unbarred root t (GuardedWorld.answer o w).2 :=
    fun o w ho hw => hw.answer hharm ho
  exact ((handleRecursivePut_fits hroot h).eval_invariant hstep hstart).barred

end

end Irosh
