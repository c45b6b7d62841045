import Irosh.Transfer.Receive

/-!
# Names from a peer stay below the root

A function that receives files is safe for a root when every path it creates or
writes leads, read lexically, to the root or below it. Making a directory also
makes the ones on the way to it: those that are on the way to the root itself do
not come from the peer and are not counted.

Three of the four functions check the names they are given, and one joins them as
they are. The first section is about paths, the next about each function in turn.
`putLoop` and `putEntry` call each other, and so do `dirLoop` and `dirEntry`, so
each pair is one induction on the frames that are left.
-/

namespace Irosh.Proof

open UnixPath

/-- `p` leads to `root` or below it. -/
def Contained (root p : Path) : Prop := root.normalize.Inside p.normalize

instance (root p : Path) : Decidable (Contained root p) :=
  inferInstanceAs (Decidable (root.normalize.Inside _))

/-- `p` is one of the directories on the way to `root`, as `root` is written. -/
def OnTheWay (root p : Path) : Prop := p.isAbsolute = root.isAbsolute ∧ p.parts <+: root.parts

/-- What making the directory `p` can make is on the way to the root, or contained. -/
def DirContained (root p : Path) : Prop := ∀ q ∈ p.ancestors, OnTheWay root q ∨ Contained root q

/-- An operation that creates or writes nothing outside `root`. -/
def Safe (root : Path) : FsOp → Prop
  | .createDirAll p => DirContained root p
  | .createFile p => Contained root p
  | .writeAll p _ => Contained root p
  | .finish p => Contained root p
  | .rename _ dst => Contained root dst
  | .copy _ dst => Contained root dst
  | .setMode p _ => Contained root p
  | .exportBlob _ p => Contained root p
  | .now => True
  | .pathMissing _ => True
  | .removeFile _ => True
  | .readBlob _ => True
  | .loadCollection _ => True
  | .reply => True

/-! ## Paths -/

variable {root : Path}

theorem contained_self (root : Path) : Contained root root := Place.Inside.refl _

theorem dirContained_self (root : Path) : DirContained root root := by
  intro q hq
  obtain ⟨hhead, hpre⟩ := Path.mem_ancestors.mp hq
  exact .inl ⟨by rw [Path.isAbsolute, hhead]; rfl, hpre⟩

/-- **What stays below can be joined.** -/
theorem contained_join {b : Path} (hb : b.head ≠ .rootDir) (hs : staysBelow 0 b.parts = true) :
    Contained root (root.join b) := by
  rw [Contained, Path.normalize_join hb]
  exact inside_of_staysBelow hs (Place.Inside.refl _) rfl

theorem Contained.child {p : Path} (h : Contained root p) (n : Name) :
    Contained root (p.child n) := by
  rw [Contained, Path.normalize_child]
  exact Place.Inside.down h n

theorem dirContained_join {b : Path} (hb : b.head ≠ .rootDir)
    (hs : staysBelow 0 b.parts = true) : DirContained root (root.join b) := by
  intro q hq
  obtain ⟨hhead, hpre⟩ := Path.mem_ancestors.mp hq
  rcases Path.join_eq (a := root) hb with ⟨h, hroot⟩ | h
  · -- an empty root: `q` is the start of `b` itself
    rw [h] at hhead hpre
    have hq' : q.head ≠ .rootDir := by
      rw [hhead]
      exact hb
    have hjoin : root.join q = q := by
      rw [hroot]
      exact Path.empty_join q
    rw [← hjoin]
    exact .inr (contained_join hq' (staysBelow_initial hpre hs))
  · rw [h] at hhead hpre
    rcases List.prefix_or_prefix_of_prefix hpre (List.prefix_append root.parts b.parts) with
      hway | ⟨rest, hrest⟩
    · exact .inl ⟨by rw [Path.isAbsolute, hhead]; rfl, hway⟩
    · -- past the root: what is left of `q` is the start of `b`
      right
      have hpre' : rest <+: b.parts := by
        rw [← hrest] at hpre
        exact (List.prefix_append_right_inj _).mp hpre
      have hnorm : q.normalize = rest.foldl Place.step root.normalize := by
        simp only [Path.normalize, ← hrest, hhead, List.foldl_append]
      rw [Contained, hnorm]
      exact inside_of_staysBelow (staysBelow_initial hpre' hs) (Place.Inside.refl _) rfl

theorem DirContained.parent {p q : Path} (h : DirContained root p) (hq : p.parent = some q) :
    DirContained root q := by
  intro r hr
  obtain ⟨hhead, hpre⟩ := Path.mem_ancestors.mp hr
  unfold Path.parent at hq
  split at hq
  · cases hq
    exact h r (Path.mem_ancestors.mpr ⟨hhead, hpre.trans (List.dropLast_prefix _)⟩)
  · -- the parent of `.` is the empty path, which leads to the same place
    rename_i hparts hcur
    cases hq
    have hr' : r = ⟨.plain, []⟩ := by
      obtain ⟨head, parts⟩ := r
      cases hhead
      cases List.prefix_nil.mp hpre
      rfl
    have hp : p = ⟨.curDir, []⟩ := by
      obtain ⟨head, parts⟩ := p
      cases hcur
      cases hparts
      rfl
    rw [hr']
    rw [hp] at h
    exact h ⟨.curDir, []⟩ (Path.self_mem_ancestors _)
  · cases hq

/-- `dest` is a file in a directory that can be made. -/
def FileBelow (root dest : Path) : Prop :=
  ∃ (dir : Path) (n : Name), dest = dir.child n ∧ Contained root dir ∧ DirContained root dir

theorem fileBelow_join {b : Path} (hb : b.head ≠ .rootDir) (hne : b.parts ≠ [])
    (hp : Part.parent ∉ b.parts) : FileBelow root (root.join b) := by
  obtain ⟨dir, n, rfl, hhead, hpar⟩ := Path.exists_child hne hp
  have hdir : dir.head ≠ .rootDir := by
    rw [hhead]
    exact hb
  have hs := staysBelow_of_no_parent hpar 0
  exact ⟨root.join dir, n, Path.join_child hdir n, contained_join hdir hs,
    dirContained_join hdir hs⟩

theorem FileBelow.contained {dest : Path} (h : FileBelow root dest) : Contained root dest := by
  obtain ⟨dir, n, rfl, hc, _⟩ := h
  exact hc.child n

theorem FileBelow.parent {dest : Path} (h : FileBelow root dest) :
    DirContained root (dest.parent.getD .dot) := by
  obtain ⟨dir, n, rfl, _, hd⟩ := h
  rw [Path.parent_child]
  exact hd

/-- **A part file is beside the file it becomes.** -/
theorem FileBelow.setFileName {dest : Path} (h : FileBelow root dest) (m : Name) :
    Contained root (dest.setFileName m) := by
  obtain ⟨dir, n, rfl, hc, _⟩ := h
  rw [Path.setFileName_child]
  exact hc.child m

theorem FileBelow.tempTransferPath {dest : Path} (h : FileBelow root dest) (stamp : Stamp) :
    Contained root (tempTransferPath dest stamp) := by
  obtain ⟨dir, n, rfl, hc, _⟩ := h
  rw [Irosh.tempTransferPath, Path.parent_child, Option.getD_some, Path.join_ofName]
  exact hc.child _

/-! ## What the functions share -/

theorem sendReply_safe : sendReply.Always (Safe root) :=
  ⟨trivial, fun _ => trivial⟩

theorem createDirAll_safe {context : ShellContext} {p : Path} (h : DirContained root p) :
    (context.createDirAll p).Always (Safe root) :=
  ⟨h, fun _ => trivial⟩

theorem rename_safe {context : ShellContext} {src dst : Path} (h : Contained root dst) :
    (context.rename src dst).Always (Safe root) :=
  ⟨h, fun _ => trivial⟩

theorem chmod_safe {p : Path} (h : Contained root p) (mode : Option Nat) :
    (chmod p mode).Always (Safe root) := by
  cases mode with
  | none => trivial
  | some mode => exact ⟨h, fun _ => trivial⟩

theorem createParent_safe {p : Path} (h : DirContained root p) :
    (createParent p).Always (Safe root) := by
  unfold createParent
  split
  · rename_i parent hp
    exact Prog.always_perform (h.parent hp)
  · trivial

/-! ## The recursive upload -/

/-- What `preparePutDestination` hands on. -/
def PreparedBelow (root : Path) : Except String (Option PreparedPutDestination) → Prop
  | .ok (some prepared) => Contained root prepared.final ∧ Contained root prepared.part
  | _ => True

theorem preparePutDestination_safe (context : ShellContext) {dest : Path}
    (habs : dest.head = .rootDir) (h : FileBelow root dest) :
    (preparePutDestination context dest.display).Ensures (Safe root) (PreparedBelow root) := by
  unfold preparePutDestination
  rw [resolvePath_display context habs]
  refine Prog.ensures_perform trivial ?_
  intro missing
  cases missing with
  | error _ => trivial
  | ok missing =>
      cases missing with
      | false => trivial
      | true =>
          refine Prog.Always.bind (createDirAll_safe h.parent) ?_
          intro made
          cases made with
          | error e => trivial
          | ok made =>
              cases made with
              | false => trivial
              | true =>
                  refine Prog.ensures_perform trivial ?_
                  intro stamp
                  exact ⟨h.contained, h.setFileName _⟩

theorem dropEntry_safe {prepared : PreparedPutDestination} (h : Contained root prepared.part)
    (sizeMismatch : Bool) : (dropEntry prepared sizeMismatch).Always (Safe root) := by
  refine ⟨h, fun _ => ⟨trivial, fun _ => ?_⟩⟩
  cases sizeMismatch with
  | true => exact sendReply_safe
  | false => trivial

/-- `sanitize_relative_path` lets the name through. -/
def accepted (n : List Char) : Bool := (sanitizeRelativePath n).isOk

/-- No name that the upload gets to see is made of `.` components alone. -/
def NoDots (entries : List (List Char)) : Prop :=
  ∀ n ∈ entries.takeWhile accepted, (parse n).parts ≠ []

theorem accepted_of_ok {n p : List Char} (hok : sanitizeRelativePath n = .ok p) :
    accepted n = true := by
  rw [accepted, hok]
  rfl

theorem noDots_cons {n p : List Char} {ns : List (List Char)} (h : NoDots (n :: ns))
    (hok : sanitizeRelativePath n = .ok p) : (parse n).parts ≠ [] ∧ NoDots ns := by
  rw [NoDots, List.takeWhile_cons_of_pos (accepted_of_ok hok)] at h
  exact ⟨h n List.mem_cons_self, fun m hm => h m (List.mem_cons_of_mem _ hm)⟩

/-- One file entry, up to its first chunk. -/
theorem newEntry_safe (context : ShellContext) (habs : root.head = .rootDir) {header : EntryHeader}
    {rest : List Frame} (hdots : NoDots (header.path :: entryPaths rest))
    (hloop : NoDots (entryPaths rest) → (putLoop context root rest).Always (Safe root))
    (hentry : ∀ prepared : PreparedPutDestination, NoDots (entryPaths rest) →
      Contained root prepared.final → Contained root prepared.part →
      (putEntry context root header prepared 0 rest).Always (Safe root)) :
    (putLoop context root (.newEntry header :: rest)).Always (Safe root) := by
  rw [putLoop]
  split
  · trivial
  rename_i entryPath hok
  obtain ⟨hne, hrest⟩ := noDots_cons hdots hok
  obtain ⟨rfl, hhead, hpar⟩ := sanitizeRelativePath_ok hok
  have hs := staysBelow_of_no_parent hpar 0
  split
  · refine Prog.Always.bind (createDirAll_safe (dirContained_join hhead hs)) ?_
    intro made
    cases made with
    | error e => trivial
    | ok made =>
        refine Prog.Always.bind (chmod_safe (contained_join hhead hs) _) ?_
        intro _
        exact hloop hrest
  · have hfile : FileBelow root (root.join (parse header.path)) := fileBelow_join hhead hne hpar
    refine (preparePutDestination_safe context (join_head_of_absolute habs) hfile).bind ?_
    intro prepared hprep
    match prepared, hprep with
    | .error e, _ => trivial
    | .ok none, _ => exact sendReply_safe
    | .ok (some prepared), ⟨hfinal, hpart⟩ =>
        refine Prog.ensures_perform hpart ?_
        intro created
        cases created with
        | true => exact hentry prepared hrest hfinal hpart
        | false => trivial

/-- **The two loops of the recursive upload.** -/
theorem put_safe (context : ShellContext) (habs : root.head = .rootDir) (frames : List Frame) :
    (NoDots (entryPaths frames) → (putLoop context root frames).Always (Safe root))
      ∧ ∀ (header : EntryHeader) (prepared : PreparedPutDestination) (received : Nat),
        NoDots (entryPaths frames) → Contained root prepared.final → Contained root prepared.part →
        (putEntry context root header prepared received frames).Always (Safe root) := by
  induction frames with
  | nil =>
      refine ⟨fun _ => ?_, fun header prepared received _ _ hpart => ?_⟩
      · trivial
      · exact dropEntry_safe hpart false
  | cons frame rest ih =>
      obtain ⟨hloop, hentry⟩ := ih
      refine ⟨?_, ?_⟩
      · intro hdots
        cases frame with
        | newEntry header =>
            exact newEntry_safe context habs hdots hloop
              fun prepared => hentry header prepared 0
        | putComplete => exact sendReply_safe
        | _ => trivial
      · intro header prepared received hdots hfinal hpart
        cases frame with
        | putChunk chunk =>
            rw [putEntry]
            split
            · exact dropEntry_safe hpart true
            · refine Prog.ensures_perform hpart ?_
              intro written
              cases written with
              | true => exact hentry header prepared _ hdots hfinal hpart
              | false => exact dropEntry_safe hpart false
        | entryComplete =>
            rw [putEntry]
            split
            · exact dropEntry_safe hpart true
            · refine Prog.ensures_perform hpart ?_
              intro finished
              cases finished with
              | false => exact ⟨trivial, fun _ => trivial⟩
              | true =>
                  refine Prog.Always.bind (rename_safe hfinal) ?_
                  intro renamed
                  match renamed with
                  | .error e => trivial
                  | .ok false => trivial
                  | .ok true =>
                      refine Prog.Always.bind (chmod_safe hfinal _) ?_
                      intro _
                      exact hloop hdots
        | _ => exact dropEntry_safe hpart false

theorem handleRecursivePutRequest_safe {context : ShellContext} {path : List Char}
    {frames : List Frame} (hroot : context.resolvePath path = .ok root)
    (hdots : NoDots (entryPaths frames)) :
    (handleRecursivePutRequest context path frames).Always (Safe root) := by
  unfold handleRecursivePutRequest
  rw [hroot]
  refine Prog.Always.bind (createDirAll_safe (dirContained_self root)) ?_
  intro made
  cases made with
  | error e => trivial
  | ok made =>
      refine Prog.ensures_perform trivial fun ready => Prog.always_guard ?_
      exact (put_safe context (resolvePath_absolute hroot) frames).1 hdots

/-! ## The collection export -/

theorem exportItems_safe (target : Path) (collection : Collection) :
    (exportItems target collection).Always (Safe target) := by
  induction collection with
  | nil => trivial
  | cons item rest ih =>
      obtain ⟨name, hash⟩ := item
      rw [exportItems]
      split
      · trivial
      rename_i safeName hok
      obtain ⟨rfl, hhead, hpar⟩ := sanitizeRelativePath_ok hok
      have hs := staysBelow_of_no_parent hpar 0
      refine Prog.Always.bind (createParent_safe (dirContained_join hhead hs)) fun made =>
        Prog.always_guard ?_
      refine Prog.ensures_perform (contained_join hhead hs) fun exported =>
        Prog.always_guard ?_
      exact ih

theorem exportCollection_safe (hash : Hash) (target : Path) (collection : Collection) :
    (exportCollection hash target collection).Always (Safe target) := by
  refine Prog.ensures_perform (dirContained_self target) fun made => Prog.always_guard ?_
  refine Prog.ensures_perform trivial fun read => Prog.always_guard ?_
  refine Prog.ensures_perform trivial fun loaded => Prog.always_guard ?_
  exact exportItems_safe target collection

/-! ## The recursive download -/

theorem persistTempFile_safe {temp final : Path} (hd : DirContained root final)
    (hf : Contained root final) : (persistTempFile temp final).Always (Safe root) := by
  refine Prog.Always.bind (createParent_safe hd) fun made => Prog.always_guard ?_
  refine Prog.ensures_perform hf ?_
  intro renamed
  cases renamed with
  | true => trivial
  | false =>
      refine Prog.ensures_perform hf fun copied => Prog.always_guard ?_
      exact ⟨trivial, fun _ => trivial⟩

theorem dropTemp_safe (temp : Path) (message : String) :
    (dropTemp temp message).Always (Safe root) := ⟨trivial, fun _ => trivial⟩

/-- **The two loops of the recursive download.** -/
theorem dir_safe (root : Path) (frames : List Frame) :
    (dirLoop root frames).Always (Safe root)
      ∧ ∀ (header : EntryHeader) (final temp : Path),
        DirContained root final → Contained root final → Contained root temp →
        (dirEntry root header final temp frames).Always (Safe root) := by
  induction frames with
  | nil => exact ⟨trivial, fun header final temp _ _ _ => dropTemp_safe temp _⟩
  | cons frame rest ih =>
      obtain ⟨hloop, hentry⟩ := ih
      refine ⟨?_, ?_⟩
      · cases frame with
        | newEntry header =>
            rw [dirLoop]
            split
            · trivial
            rename_i rel hok
            obtain ⟨names, hne, rfl⟩ := sanitizeRemotePath_ok hok
            have hpar : Part.parent ∉ names.map Part.normal := by simp
            have hs := staysBelow_of_no_parent hpar 0
            have hhead : Head.plain ≠ .rootDir := by decide
            have hdir : DirContained root (root.join ⟨.plain, names.map .normal⟩) :=
              dirContained_join hhead hs
            have hfile : FileBelow root (root.join ⟨.plain, names.map .normal⟩) :=
              fileBelow_join hhead (by simpa using hne) hpar
            split
            · refine Prog.ensures_perform hdir fun made => Prog.always_guard ?_
              exact hloop
            · refine Prog.Always.bind (createParent_safe hdir) ?_
              intro _
              refine Prog.ensures_perform trivial ?_
              intro stamp
              have htemp := hfile.tempTransferPath stamp
              refine Prog.ensures_perform htemp fun created => Prog.always_guard ?_
              exact hentry header _ _ hdir hfile.contained htemp
        | _ => trivial
      · intro header final temp hdir hfinal htemp
        cases frame with
        | getChunk chunk =>
            refine Prog.ensures_perform htemp ?_
            intro written
            cases written with
            | true => exact hentry header final temp hdir hfinal htemp
            | false => exact dropTemp_safe temp _
        | entryComplete =>
            refine Prog.ensures_perform htemp ?_
            intro flushed
            cases flushed with
            | false => exact dropTemp_safe temp _
            | true =>
                refine Prog.Always.bind (persistTempFile_safe hdir hfinal) ?_
                intro persisted
                cases persisted with
                | error e => trivial
                | ok _ =>
                    refine Prog.Always.bind (chmod_safe hfinal _) ?_
                    intro _
                    exact hloop
        | _ => exact dropTemp_safe temp _

theorem downloadDirWithProgress_safe (root : Path) (frames : List Frame) :
    (downloadDirWithProgress root frames).Always (Safe root) := by
  unfold downloadDirWithProgress
  split
  · exact (dir_safe root _).1
  · trivial
  · trivial

/-! ## The blob download -/

/-- A name that can be joined as it is. -/
def JoinsBelow (n : List Char) : Prop :=
  (parse n).head ≠ .rootDir ∧ staysBelow 0 (parse n).parts = true

theorem downloadItems_safe (root : Path) {collection : Collection}
    (h : ∀ n ∈ collection.map Prod.fst, JoinsBelow n) :
    (downloadItems root collection).Always (Safe root) := by
  induction collection with
  | nil => trivial
  | cons item rest ih =>
      obtain ⟨hhead, hs⟩ := h item.1 List.mem_cons_self
      refine Prog.Always.bind (createParent_safe (dirContained_join hhead hs)) fun made =>
        Prog.always_guard ?_
      refine Prog.ensures_perform (contained_join hhead hs) fun exported =>
        Prog.always_guard ?_
      exact ih fun n hn => h n (List.mem_cons_of_mem _ hn)

theorem downloadBlob_safe (hash : Hash) (hashSeq : Bool) (root : Path) {collection : Collection}
    (h : ∀ n ∈ collection.map Prod.fst, JoinsBelow n) :
    (downloadBlob hash hashSeq root collection).Always (Safe root) := by
  unfold downloadBlob
  split
  · refine Prog.ensures_perform (dirContained_self root) fun made => Prog.always_guard ?_
    refine Prog.ensures_perform trivial fun loaded => Prog.always_guard ?_
    exact downloadItems_safe root h
  · exact Prog.ensures_perform (contained_self root) fun exported =>
      Prog.always_guard (Prog.always_pure _)

/-! ## Names that escape -/

/-- Every item of a collection is exported, when nothing fails. -/
theorem downloadItems_exports {φ : FsOp → Prop} {collection : Collection}
    (h : (downloadItems root collection).Always φ) {n : List Char}
    (hn : n ∈ collection.map Prod.fst) : ∃ hash, φ (.exportBlob hash (root.join (parse n))) := by
  induction collection with
  | nil => cases hn
  | cons item rest ih =>
      obtain ⟨name, hash⟩ := item
      have hitem : φ (.exportBlob hash (root.join (parse name)))
          ∧ (downloadItems root rest).Always φ := by
        rw [downloadItems, createParent] at h
        split at h
        · exact ⟨(h.2 true).1, (h.2 true).2 true⟩
        · exact ⟨h.1, h.2 true⟩
      rcases List.mem_cons.mp hn with rfl | hn
      · exact ⟨hash, hitem.1⟩
      · exact ih hitem.2 hn

/-- **A name that cannot be joined as it is escapes some root**: one whose name it does not
mention. -/
theorem exists_escape {n : List Char} (h : ¬ JoinsBelow n) :
    ∃ root : Path, ¬ Contained root (root.join (parse n)) := by
  obtain ⟨fresh, hfresh⟩ := exists_fresh (namesOf (parse n).parts)
  refine ⟨⟨.rootDir, [.normal fresh]⟩, ?_⟩
  intro hc
  have hmem : fresh ∈ (Path.join ⟨.rootDir, [.normal fresh]⟩ (parse n)).normalize.names :=
    hc.2.2.subset List.mem_cons_self
  by_cases hhead : (parse n).head = .rootDir
  · have hjoin : Path.join ⟨.rootDir, [.normal fresh]⟩ (parse n) = parse n := by
      unfold Path.join
      rw [hhead]
    rw [hjoin] at hmem
    rcases mem_names_foldl hmem with hm | hm
    · cases hm
    · exact hfresh hm
  · rw [Path.normalize_join hhead] at hmem
    have hclimbs : staysBelow 0 (parse n).parts = false := by
      by_contra hs
      exact h ⟨hhead, by simpa using hs⟩
    exact fresh_notMem_of_climbs (l := []) hclimbs rfl rfl List.not_mem_nil hfresh hmem

/-- The frames that name these entries: a name without parts is sent as an empty file, every other
one as a directory. -/
def dotFrames (entries : List (List Char)) : List Frame :=
  entries.map fun n => .newEntry ⟨n, decide ((parse n).parts ≠ []), 0, none⟩

theorem entryPaths_dotFrames (entries : List (List Char)) :
    entryPaths (dotFrames entries) = entries := by
  induction entries with
  | nil => rfl
  | cons n ns ih =>
      show n :: entryPaths (dotFrames ns) = n :: ns
      rw [ih]

/-- A root with one name. -/
def aRoot : Path := ⟨.rootDir, [.normal ⟨['x'], by decide⟩]⟩

/-- The part file of the root itself is beside the root. -/
theorem part_beside_root (stamp : Stamp) :
    ¬ Contained aRoot (aRoot.setFileName (partName aRoot.fileName stamp)) := by
  intro hc
  have hpre : [(⟨['x'], by decide⟩ : Name)] <+: [partName (some ⟨['x'], by decide⟩) stamp] := hc.2.2
  rw [List.cons_prefix_cons] at hpre
  exact partName_ne _ stamp hpre.1.symm

theorem aRoot_join {b : Path} (hb : b.head ≠ .rootDir) (hp : b.parts = []) :
    aRoot.join b = aRoot := by
  rcases Path.join_eq (a := aRoot) hb with ⟨_, h⟩ | h
  · cases h
  · rw [h, hp]
    rfl

/-- **An upload that is safe has seen no such name.** The shell is a live one, where nothing stops
the upload when its root is a file that exists: the root followed by `.` is then missing. -/
theorem noDots_of_putLoop {entries : List (List Char)}
    (h : (putLoop (.live 1 none none) aRoot (dotFrames entries)).Always (Safe aRoot)) :
    NoDots entries := by
  induction entries with
  | nil => exact fun n hn => absurd hn List.not_mem_nil
  | cons n ns ih =>
      cases hok : sanitizeRelativePath n with
      | error reason =>
          have ha : ¬ accepted n = true := by
            rw [accepted, hok]
            exact Bool.false_ne_true
          rw [NoDots, List.takeWhile_cons_of_neg ha]
          exact fun m hm => absurd hm List.not_mem_nil
      | ok p =>
          have ha := accepted_of_ok hok
          obtain ⟨rfl, hhead, hpar⟩ := sanitizeRelativePath_ok hok
          rw [dotFrames, List.map_cons, putLoop] at h
          simp only [hok] at h
          rw [NoDots, List.takeWhile_cons_of_pos ha]
          by_cases hp : (parse p).parts = []
          · -- a file that is the root: its part file is created beside the root
            exfalso
            rw [if_neg (by simp [hp]), aRoot_join hhead hp, preparePutDestination,
              resolvePath_display _ rfl] at h
            have stamp : Stamp := ⟨[], List.not_mem_nil⟩
            exact part_beside_root stamp (((h.2 (.ok true)).2 true).2 stamp).1
          · rw [if_pos (by simp [hp])] at h
            intro m hm
            rcases List.mem_cons.mp hm with rfl | hm
            · exact hp
            · exact ih (h.2 true) m hm

/-! ## The exact condition -/

/-- Whatever a peer does with these names, nothing is created or written outside the root. Everything
else is arbitrary: the context and the request, what kind of entry a name is sent for and what comes
between the entries, the root on either side, and the answers of the file system. -/
structure AllContained (entries items : List (List Char)) : Prop where
  recursivePut : ∀ (context : ShellContext) (path : List Char) (root : Path) (frames : List Frame),
    context.resolvePath path = .ok root → entryPaths frames = entries →
    (handleRecursivePutRequest context path frames).Always (Safe root)
  collection : ∀ (hash : Hash) (target : Path) (collection : Collection),
    collection.map Prod.fst = items →
    (exportCollection hash target collection).Always (Safe target)
  recursiveDownload : ∀ (localRoot : Path) (frames : List Frame), entryPaths frames = entries →
    (downloadDirWithProgress localRoot frames).Always (Safe localRoot)
  blob : ∀ (hash : Hash) (hashSeq : Bool) (localRoot : Path) (collection : Collection),
    collection.map Prod.fst = items →
    (downloadBlob hash hashSeq localRoot collection).Always (Safe localRoot)

theorem AllContained.noDots {entries items : List (List Char)} (h : AllContained entries items) :
    NoDots entries := by
  have hput := h.recursivePut (.live 1 none none) aRoot.display aRoot (dotFrames entries)
    (resolvePath_display _ rfl) (entryPaths_dotFrames entries)
  rw [handleRecursivePutRequest, resolvePath_display _ rfl] at hput
  -- `mkdir` fails, and the upload goes on
  exact noDots_of_putLoop ((hput.2 false).2 true)

theorem AllContained.joinsBelow {entries items : List (List Char)} (h : AllContained entries items)
    {n : List Char} (hn : n ∈ items) : JoinsBelow n := by
  by_contra hbelow
  obtain ⟨root, hescape⟩ := exists_escape hbelow
  have hnames : (items.map fun m => (m, ([] : Hash))).map Prod.fst = items := by
    simp [Function.comp_def]
  have hblob := h.blob [] true root _ hnames
  obtain ⟨hash, hexport⟩ := downloadItems_exports ((hblob.2 true).2 true) (by rw [hnames]; exact hn)
  exact hescape hexport

/-- **Containment holds exactly when** no upload gets to see a name made of `.` components alone,
and every name of a collection is relative and never climbs above where it starts. -/
theorem all_contained_iff (entries items : List (List Char)) :
    AllContained entries items ↔ NoDots entries ∧ ∀ n ∈ items, JoinsBelow n := by
  refine ⟨fun h => ⟨h.noDots, fun n hn => h.joinsBelow hn⟩, ?_⟩
  rintro ⟨hdots, hbelow⟩
  refine ⟨?_, ?_, ?_, ?_⟩
  · rintro context path root frames hroot rfl
    exact handleRecursivePutRequest_safe hroot hdots
  · intro hash target collection _
    exact exportCollection_safe hash target collection
  · intro localRoot frames _
    exact downloadDirWithProgress_safe localRoot frames
  · rintro hash hashSeq localRoot collection rfl
    exact downloadBlob_safe hash hashSeq localRoot hbelow

/-- `/srv/out`. -/
def srvOut : List Char := ['/', 's', 'r', 'v', '/', 'o', 'u', 't']

/-- A collection with the single entry `../evil`, downloaded to `/srv/out`, writes `/srv/evil`; and an
upload to `/srv/out` of the single file `.` creates its part file in `/srv`. -/
theorem names_escape_root :
    ¬ (downloadBlob [] true (parse srvOut)
        [(['.', '.', '/', 'e', 'v', 'i', 'l'], [])]).Always (Safe (parse srvOut))
      ∧ ¬ (handleRecursivePutRequest (.live 1 none none) srvOut
        [.newEntry ⟨['.'], false, 0, none⟩]).Always (Safe (parse srvOut)) := by
  refine ⟨?_, ?_⟩
  · intro h
    obtain ⟨_, hc⟩ := downloadItems_exports ((h.2 true).2 true) List.mem_cons_self
    have hout : ¬ Contained (parse srvOut)
        ((parse srvOut).join (parse ['.', '.', '/', 'e', 'v', 'i', 'l'])) := by decide
    exact hout hc
  · intro h
    let stamp : Stamp := ⟨['1'], by decide⟩
    have hpart : Contained (parse srvOut)
        ((parse srvOut).setFileName (partName (parse srvOut).fileName stamp)) :=
      (((((h.2 false).2 true).2 (.ok true)).2 true).2 stamp).1
    have hout : ¬ Contained (parse srvOut)
        ((parse srvOut).setFileName (partName (parse srvOut).fileName stamp)) := by decide
    exact hout hpart

end Irosh.Proof
