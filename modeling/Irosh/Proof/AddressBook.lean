import Mathlib.Data.List.Find
import Mathlib.Data.List.Forall2
import Irosh.Lib.BigEndian
import Irosh.Proof.PeerPaths

/-!
# The address book is a map, as long as nobody renames onto a name

`Book` is what the address book is for: names with tickets, and renaming moves a
ticket. The operations on files refine it call by call (`Shows`): the files of the
peers directory are the entries of the book, each under the path of its name.

Renaming is loading, saving and deleting. Onto a name that is in use it overwrites
that name's ticket, and onto the same name it deletes what it has just saved. Where
neither happens every answer is the book's.
-/

namespace Irosh

open UnixPath PeerWorld

variable {T : Type}

/-! ## The book -/

/-- Names and tickets, latest first. -/
abbrev Book (T : Type) := List (PeerProfile T)

namespace Book

def find (book : Book T) (name : List Char) : Option (PeerProfile T) :=
  List.find? (fun profile => profile.name = name) book

def remove (book : Book T) (name : List Char) : Book T :=
  book.filter fun profile => profile.name ≠ name

def save (book : Book T) (profile : PeerProfile T) : Book T :=
  profile :: book.remove profile.name

/-- What a call answers and leaves. Renaming onto a name in use is an error. -/
def call (book : Book T) : PeerCall T → PeerAnswer T × Book T
  | .save profile => (.saved (.ok ()), book.save profile)
  | .load name => (.loaded (.ok (book.find name)), book)
  | .list => (.listed (.ok book), book)
  | .delete name => (.deleted (.ok (book.find name).isSome), book.remove name)
  | .rename oldName newName =>
      match book.find oldName with
      | none => (.renamed (.ok false), book)
      | some profile =>
          if newName = oldName then (.renamed (.ok true), book)
          else if (book.find newName).isSome then (.renamed (.error (.nameInvalid newName)), book)
          else (.renamed (.ok true), (book.save ⟨newName, profile.ticket⟩).remove oldName)

/-- A call that does not rename onto a name in use, its own included. -/
def Clear (book : Book T) : PeerCall T → Prop
  | .rename oldName newName =>
      (book.find oldName).isSome → newName ≠ oldName ∧ book.find newName = none
  | _ => True

end Book

/-- The same answer, lists in any order. -/
def SameAnswer : PeerAnswer T → PeerAnswer T → Prop
  | .listed (.ok ps), .listed (.ok qs) => ps.Perm qs
  | a, b => a = b

/-- Every name of a call is valid. -/
def PeerCall.Valid : PeerCall T → Prop
  | .save profile => validatePeerName profile.name = .ok ()
  | .load name => validatePeerName name = .ok ()
  | .list => True
  | .delete name => validatePeerName name = .ok ()
  | .rename oldName newName =>
      validatePeerName oldName = .ok () ∧ validatePeerName newName = .ok ()

/-- What is relied on: every profile is written, and read back as it was. -/
def PeerJson.RoundTrips (json : PeerJson T) : Prop :=
  ∀ profile, ∃ data, json.toVecPretty profile = some data ∧ json.fromStr data = some profile

/-! ## What the files show -/

/-- A profile as a file. -/
def PeerJson.file (json : PeerJson T) (root : Path) (profile : PeerProfile T) :
    Place × List UInt8 :=
  ((peerPath root profile.name).normalize, (json.toVecPretty profile).getD [])

/-- The files of the state directory. -/
def PeerWorld.below (w : PeerWorld) (root : Path) : List (Place × List UInt8) :=
  w.files.filter fun file => root.normalize.Inside file.1

/-- The files of the state directory are the entries of the book, and there is no directory in it
but `peers`. -/
structure Shows (json : PeerJson T) (root : Path) (book : Book T) (w : PeerWorld) : Prop where
  files : w.below root = book.map (json.file root)
  valid : ∀ profile ∈ book, validatePeerName profile.name = .ok ()
  names : (book.map PeerProfile.name).Nodup
  dirs : ∀ d ∈ w.dirs, root.normalize.Inside d → d = root.normalize ∨ d = (peersDir root).normalize
  ancestors : ∀ a ∈ root.ancestors, a.normalize ∈ w.dirs
  works : ∀ n, w.fails n = false

/-! ## Paths of valid names -/

section

variable {json : PeerJson T} {root : Path} {book : Book T} {w : PeerWorld}

theorem peerPath_place (root : Path) {name : List Char} (h : '/' ∉ name) :
    (peerPath root name).normalize = (peersDir root).normalize.down (jsonName name h) := by
  rw [peerPath_eq root h, Path.normalize_child]

theorem down_inj {pl : Place} {n m : Name} (h : pl.down n = pl.down m) : n = m := by
  have hnames := congrArg Place.names h
  simpa [Place.down] using hnames

/-- Different names have different files. -/
theorem peerPath_inj {a b : List Char} (ha : validatePeerName a = .ok ())
    (hb : validatePeerName b = .ok ())
    (h : (peerPath root a).normalize = (peerPath root b).normalize) : a = b := by
  rw [peerPath_place root (no_slash_of_validate ha), peerPath_place root (no_slash_of_validate hb)] at h
  have hname := congrArg Subtype.val (down_inj h)
  exact List.append_cancel_right hname

/-- A file of the book is the file of this name exactly if the name is this one. -/
theorem Shows.file_iff (h : Shows json root book w) {name : List Char}
    (hv : validatePeerName name = .ok ()) {profile : PeerProfile T} (hp : profile ∈ book) :
    (json.file root profile).1 = (peerPath root name).normalize ↔ profile.name = name :=
  ⟨peerPath_inj (h.valid profile hp) hv, fun he => by rw [PeerJson.file, he]⟩

theorem inside_peersDir (root : Path) (n : Name) :
    root.normalize.Inside ((peersDir root).normalize.down n) := by
  rw [peersDir_eq, Path.normalize_child]
  exact ((Place.Inside.refl _).down _).down _

theorem inside_peerPath (root : Path) {name : List Char} (hv : validatePeerName name = .ok ()) :
    root.normalize.Inside (peerPath root name).normalize := by
  rw [peerPath_place root (no_slash_of_validate hv)]
  exact inside_peersDir root _

/-- A file below the state directory is looked for there only. -/
theorem find_below {pl : Place} (h : root.normalize.Inside pl) :
    w.find pl = ((w.below root).find? fun file => file.1 = pl).map Prod.snd := by
  rw [PeerWorld.find, PeerWorld.below, List.find?_filter]
  congr 2
  funext file
  by_cases hf : file.1 = pl
  · simp [hf, h]
  · simp [hf]

theorem Shows.find (h : Shows json root book w) {name : List Char}
    (hv : validatePeerName name = .ok ()) :
    w.find (peerPath root name).normalize = (book.find name).map fun p => (json.file root p).2 := by
  rw [find_below (inside_peerPath root hv), h.files, List.find?_map, Option.map_map, Book.find]
  congr 1
  apply List.find?_congr
  intro profile hp
  exact decide_eq_decide.mpr (h.file_iff hv hp)

theorem Shows.filter_ne (h : Shows json root book w) {name : List Char}
    (hv : validatePeerName name = .ok ()) :
    (w.below root).filter (fun file => file.1 ≠ (peerPath root name).normalize)
      = (book.remove name).map (json.file root) := by
  rw [h.files, List.filter_map, Book.remove]
  congr 1
  apply List.filter_congr
  intro profile hp
  exact decide_eq_decide.mpr (not_congr (h.file_iff hv hp))

/-- No file of the book is a temporary one. -/
theorem Shows.filter_tmp (h : Shows json root book w) {tmp : Place}
    (htmp : ∀ profile ∈ book, (json.file root profile).1 ≠ tmp) :
    (w.below root).filter (fun file => file.1 ≠ tmp) = w.below root := by
  rw [List.filter_eq_self, h.files]
  intro file hfile
  obtain ⟨profile, hp, rfl⟩ := List.mem_map.mp hfile
  exact decide_eq_true (htmp profile hp)

/-! ## Operations on directories -/

/-- Nothing changes but that directories on the way to `peers` may be there now. -/
structure OnlyDirs (root : Path) (w w' : PeerWorld) : Prop where
  files : w'.files = w.files
  fails : w'.fails = w.fails
  old : ∀ d ∈ w.dirs, d ∈ w'.dirs
  new : ∀ d ∈ w'.dirs, d ∈ w.dirs ∨ ∃ a ∈ (peersDir root).ancestors, d = a.normalize

theorem OnlyDirs.trans {w₁ w₂ w₃ : PeerWorld} (h : OnlyDirs root w₁ w₂) (h' : OnlyDirs root w₂ w₃) :
    OnlyDirs root w₁ w₃ where
  files := h'.files.trans h.files
  fails := h'.fails.trans h.fails
  old := fun d hd => h'.old d (h.old d hd)
  new := by
    intro d hd
    rcases h'.new d hd with hd | hd
    · exact h.new d hd
    · exact .inr hd

theorem mem_ancestors_peersDir {a : Path} (h : a ∈ (peersDir root).ancestors) :
    a = peersDir root ∨ a ∈ root.ancestors := by
  obtain ⟨hhead, hpre⟩ := Path.mem_ancestors.mp h
  rw [peersDir_eq] at hhead hpre ⊢
  rcases List.prefix_concat_iff.mp hpre with hparts | hparts
  · left
    obtain ⟨head, parts⟩ := a
    simp only at hhead hparts
    rw [hhead, hparts]
    rfl
  · exact .inr (Path.mem_ancestors.mpr ⟨hhead, hparts⟩)

theorem Shows.of_onlyDirs (h : Shows json root book w) {w' : PeerWorld} (ho : OnlyDirs root w w') :
    Shows json root book w' where
  files := by
    rw [PeerWorld.below, ho.files]
    exact h.files
  valid := h.valid
  names := h.names
  dirs := by
    intro d hd hin
    rcases ho.new d hd with hd | ⟨a, ha, rfl⟩
    · exact h.dirs d hd hin
    · rcases mem_ancestors_peersDir ha with rfl | ha
      · exact .inr rfl
      · exact h.dirs _ (h.ancestors a ha) hin
  ancestors := fun a ha => ho.old _ (h.ancestors a ha)
  works := by
    intro n
    rw [ho.fails]
    exact h.works n

theorem works_of {w w' : PeerWorld} (hw : ∀ n, w.fails n = false) (h : w'.fails = w.fails) :
    w'.works = true := by
  simp [works, h, hw]

theorem run_ensureDirSecureTighten (root : Path) (hw : ∀ n, w.fails n = false) {p : Path}
    (hp : ∀ a ∈ p.ancestors, a ∈ (peersDir root).ancestors) :
    ∃ w', run (ensureDirSecureTighten p) w = (.ok (), w') ∧ OnlyDirs root w w' := by
  unfold ensureDirSecureTighten
  rw [run_createDirAll (works_of hw rfl), if_pos rfl, run_secure]
  · refine ⟨_, rfl, rfl, rfl, fun d hd => List.mem_append_left _ hd, ?_⟩
    intro d hd
    rcases List.mem_append.mp hd with hd | hd
    · exact .inl hd
    · obtain ⟨a, ha, rfl⟩ := List.mem_map.mp hd
      exact .inr ⟨a, hp a ha, rfl⟩
  · exact works_of hw rfl

theorem ancestors_peersDir_of_root {a : Path} (h : a ∈ root.ancestors) :
    a ∈ (peersDir root).ancestors := by
  obtain ⟨hhead, hparts⟩ := Path.mem_ancestors.mp h
  rw [peersDir_eq]
  exact Path.mem_ancestors.mpr ⟨hhead, hparts.trans (List.prefix_append _ _)⟩

theorem run_ensurePeersDir (root : Path) (hw : ∀ n, w.fails n = false) :
    ∃ w', run (ensurePeersDir root) w = (.ok (peersDir root), w') ∧ OnlyDirs root w w' := by
  obtain ⟨w₁, he₁, hd₁⟩ := run_ensureDirSecureTighten root hw
    (fun a ha => ancestors_peersDir_of_root ha)
  have hw₁ : ∀ n, w₁.fails n = false := fun n => by rw [hd₁.fails, hw]
  obtain ⟨w₂, he₂, hd₂⟩ := run_ensureDirSecureTighten root hw₁ (fun a ha => ha)
  refine ⟨w₂, ?_, hd₁.trans hd₂⟩
  unfold ensurePeersDir
  rw [run_bind, he₁]
  dsimp only
  rw [run_bind, he₂]
  rfl

theorem run_ensureDirSecure (root : Path) (hw : ∀ n, w.fails n = false) :
    ∃ w', run (ensureDirSecure (peersDir root)) w = (.ok (), w') ∧ OnlyDirs root w w' := by
  unfold ensureDirSecure
  rw [run_pathExists]
  split_ifs
  · exact ⟨_, rfl, rfl, rfl, fun d hd => hd, fun d hd => .inl hd⟩
  · obtain ⟨w', he, hd⟩ := run_ensureDirSecureTighten root (w := w.after) hw
      (fun a ha => ha)
    exact ⟨w', he, hd.files, hd.fails, hd.old, hd.new⟩

/-! ## Saving -/

/-- Through the temporary file: afterwards the file is there and the temporary one is not. -/
theorem run_writeTmp (hw : ∀ n, w.fails n = false) (tmp p : Path) (data : List UInt8) :
    ∃ w', run (writeTmp tmp p data) w = (.ok (), w')
      ∧ w'.files = (p.normalize, data) ::
        (w.without tmp.normalize).filter (fun file => file.1 ≠ p.normalize)
      ∧ w'.dirs = w.dirs ∧ w'.fails = w.fails := by
  unfold writeTmp
  rw [run_createFile (works_of hw rfl), if_pos rfl, run_secure, if_pos rfl, run_writeAll, if_pos rfl,
    run_syncAll, if_pos rfl, run_rename data]
  · refine ⟨_, rfl, ?_, rfl, rfl⟩
    simp [PeerWorld.without, PeerWorld.after]
  · exact works_of hw rfl
  · simp [PeerWorld.find, PeerWorld.after]
  · exact works_of hw rfl
  · exact works_of hw rfl
  · exact works_of hw rfl

/-- A temporary name is not the name of a peer's file: it ends differently. -/
theorem tmpName_ne (base : Option Name) (suffix : { s : List Char // '/' ∉ s }) {name : List Char}
    (h : '/' ∉ name) : jsonName name h ≠ tmpName base suffix := by
  have hend : ∃ cs, (tmpName base suffix).1 = cs ++ ['p'] := by
    cases base with
    | none => exact ⟨_, (List.append_assoc _ ['.', 't', 'm'] ['p']).symm⟩
    | some n => exact ⟨_, (List.append_assoc _ ['.', 't', 'm'] ['p']).symm⟩
  obtain ⟨cs, hcs⟩ := hend
  intro he
  have hlast := congrArg List.getLast? ((congrArg Subtype.val he).trans hcs)
  have hjson : (jsonName name h).1.getLast? = some 'n' := by simp [jsonName, jsonSuffix]
  rw [hjson, List.getLast?_concat] at hlast
  exact absurd hlast (by decide)

theorem Shows.below_after_write (h : Shows json root book w) {profile : PeerProfile T}
    (hv : validatePeerName profile.name = .ok ()) {tmp : Place} {data : List UInt8}
    (htmp : ∀ p ∈ book, (json.file root p).1 ≠ tmp)
    (hdata : json.toVecPretty profile = some data) :
    (((peerPath root profile.name).normalize, data) :: (w.without tmp).filter
        (fun file => file.1 ≠ (peerPath root profile.name).normalize)).filter
        (fun file => root.normalize.Inside file.1)
      = (book.save profile).map (json.file root) := by
  have hfile : json.file root profile = ((peerPath root profile.name).normalize, data) := by
    rw [PeerJson.file, hdata]
    rfl
  have hin := inside_peerPath root hv
  rw [List.filter_cons, if_pos (decide_eq_true hin), Book.save, List.map_cons, hfile]
  congr 1
  rw [← h.filter_ne hv, ← h.filter_tmp htmp, PeerWorld.without, PeerWorld.below]
  simp only [List.filter_filter, Bool.and_comm, Bool.and_left_comm, Bool.and_assoc]

theorem Book.mem_of_mem_remove {name : List Char} {profile : PeerProfile T}
    (h : profile ∈ book.remove name) : profile ∈ book ∧ profile.name ≠ name := by
  obtain ⟨hm, hne⟩ := List.mem_filter.mp h
  exact ⟨hm, of_decide_eq_true hne⟩

theorem Book.names_remove (h : (book.map PeerProfile.name).Nodup) (name : List Char) :
    ((book.remove name).map PeerProfile.name).Nodup :=
  h.sublist (List.filter_sublist.map _)

theorem Book.names_save (h : (book.map PeerProfile.name).Nodup) (profile : PeerProfile T) :
    ((book.save profile).map PeerProfile.name).Nodup := by
  rw [Book.save, List.map_cons, List.nodup_cons]
  refine ⟨?_, Book.names_remove h _⟩
  intro hm
  obtain ⟨other, hother, he⟩ := List.mem_map.mp hm
  exact (Book.mem_of_mem_remove hother).2 he

/-- Whatever happened to the files, the directories and the way they work have not changed. -/
theorem Shows.with_files (h : Shows json root book w) {book' : Book T} {w' : PeerWorld}
    (hfiles : w'.below root = book'.map (json.file root))
    (hvalid : ∀ profile ∈ book', validatePeerName profile.name = .ok ())
    (hnames : (book'.map PeerProfile.name).Nodup) (hdirs : w'.dirs = w.dirs)
    (hfails : w'.fails = w.fails) : Shows json root book' w' where
  files := hfiles
  valid := hvalid
  names := hnames
  dirs := by
    rw [hdirs]
    exact h.dirs
  ancestors := by
    rw [hdirs]
    exact h.ancestors
  works := by
    rw [hfails]
    exact h.works

theorem Shows.after (h : Shows json root book w) : Shows json root book w.after :=
  h.with_files h.files h.valid h.names rfl rfl

/-- **Saving puts the profile into the book.** -/
theorem run_savePeer (hj : json.RoundTrips) (h : Shows json root book w) (profile : PeerProfile T)
    (hv : validatePeerName profile.name = .ok ()) :
    ∃ w', run (savePeer json root profile) w = (.ok (), w')
      ∧ Shows json root (book.save profile) w' := by
  obtain ⟨data, hdata, -⟩ := hj profile
  obtain ⟨w₁, he₁, hd₁⟩ := run_ensurePeersDir root h.works
  have h₁ := h.of_onlyDirs hd₁
  obtain ⟨w₂, he₂, hd₂⟩ := run_ensureDirSecure root h₁.works
  have h₂ := h₁.of_onlyDirs hd₂
  have hslash := no_slash_of_validate hv
  have hpath := peerPath_eq root hslash
  let tmp := (peersDir root).child (tmpName (some (jsonName profile.name hslash)) (w₂.random w₂.tick))
  obtain ⟨w₃, he₃, hfiles, hdirs, hfails⟩ :=
    run_writeTmp (w := w₂.after) h₂.works tmp (peerPath root profile.name) data
  refine ⟨w₃, ?_, ?_⟩
  · unfold savePeer
    rw [run_bind, he₁]
    simp only [hv, hdata]
    unfold atomicWriteSecure
    rw [hpath, Path.parent_child]
    simp only [Path.fileName_child, Path.setFileName_child]
    rw [run_bind, he₂]
    dsimp only
    rw [run_random, run_bind, ← hpath, he₃]
    rfl
  · refine h₂.with_files ?_ ?_ (Book.names_save h.names profile) hdirs hfails
    · rw [PeerWorld.below, hfiles]
      refine h₂.after.below_after_write hv (fun p hp he => ?_) hdata
      have hslash' := no_slash_of_validate (h.valid p hp)
      rw [PeerJson.file, peerPath_place root hslash', Path.normalize_child] at he
      exact tmpName_ne _ _ hslash' (down_inj he)
    · intro p hp
      rcases List.mem_cons.mp hp with rfl | hp
      · exact hv
      · exact h.valid p (Book.mem_of_mem_remove hp).1

/-! ## Loading and deleting -/

/-- The path of a peer is not a directory. -/
theorem Shows.not_dir (h : Shows json root book w) {name : List Char}
    (hv : validatePeerName name = .ok ()) : (peerPath root name).normalize ∉ w.dirs := by
  intro hd
  have hplace := peerPath_place root (no_slash_of_validate hv)
  have hpeers : (peersDir root).normalize.names.length = root.normalize.names.length + 1 := by
    rw [peersDir_eq, Path.normalize_child, Place.down, List.length_append, List.length_singleton]
  have hlen : (peerPath root name).normalize.names.length = root.normalize.names.length + 2 := by
    rw [hplace, Place.down, List.length_append, List.length_singleton, hpeers]
  rcases h.dirs _ hd (inside_peerPath root hv) with he | he
  · rw [he] at hlen
    omega
  · rw [he] at hlen
    omega

/-- What is in the book reads back. -/
theorem fromStr_file (hj : json.RoundTrips) (profile : PeerProfile T) :
    json.fromStr (json.file root profile).2 = some profile := by
  obtain ⟨data, hdata, hback⟩ := hj profile
  rw [PeerJson.file, hdata]
  exact hback

/-- **Loading looks the name up.** -/
theorem run_loadPeer (hj : json.RoundTrips) (h : Shows json root book w) {name : List Char}
    (hv : validatePeerName name = .ok ()) :
    ∃ w', run (loadPeer json root name) w = (.ok (book.find name), w') ∧ Shows json root book w' := by
  unfold loadPeer
  rw [run_pathExists, h.find hv, decide_eq_false (h.not_dir hv), Bool.or_false]
  cases hf : book.find name with
  | none => exact ⟨w.after, rfl, h.after⟩
  | some profile =>
      have hread : w.after.find (peerPath root name).normalize = some (json.file root profile).2 := by
        rw [h.after.find hv, hf]
        rfl
      refine ⟨w.after.after, ?_, h.after.after⟩
      simp only [Option.map_some, Option.isSome_some, if_true]
      rw [run_readToString (works_of h.after.works rfl), hread]
      simp only [fromStr_file hj profile]
      rfl

theorem Book.remove_of_find_none {name : List Char} (h : book.find name = none) :
    book.remove name = book := by
  rw [Book.remove, List.filter_eq_self]
  intro profile hp
  simpa using List.find?_eq_none.mp h profile hp

/-- **Deleting takes the name out.** -/
theorem run_deletePeer (h : Shows json root book w) {name : List Char}
    (hv : validatePeerName name = .ok ()) :
    ∃ w', run (deletePeer root name) w = (.ok (book.find name).isSome, w')
      ∧ Shows json root (book.remove name) w' := by
  unfold deletePeer
  rw [run_removeFile (works_of h.works rfl), h.find hv]
  cases hf : book.find name with
  | none =>
      rw [Book.remove_of_find_none hf]
      exact ⟨w.after, rfl, h.after⟩
  | some profile =>
      refine ⟨_, rfl, h.with_files ?_ ?_ (Book.names_remove h.names name) rfl rfl⟩
      · rw [PeerWorld.below, PeerWorld.without, List.filter_comm]
        exact h.filter_ne hv
      · exact fun p hp => h.valid p (Book.mem_of_mem_remove hp).1

/-! ## Listing -/

/-- The files of peers are listed as JSON. -/
theorem extension_jsonName {name : List Char} (h : '/' ∉ name) (hne : name ≠ []) :
    extension (jsonName name h).1 = some ['j', 's', 'o', 'n'] := by
  have hdots : (jsonName name h).1 ≠ ['.', '.'] := (jsonName name h).2.2.2.1
  have hrev : (jsonName name h).1.reverse = 'n' :: 'o' :: 's' :: 'j' :: '.' :: name.reverse := by
    simp [jsonName, jsonSuffix]
  have hnn : name.reverse ≠ [] := by simpa using hne
  unfold extension rsplitFileAtDot
  rw [if_neg hdots, hrev]
  simp [hnn]

theorem ne_nil_of_validate {name : List Char} (h : validatePeerName name = .ok ()) : name ≠ [] := by
  intro he
  rw [he] at h
  exact absurd h (by simp [validatePeerName])

theorem entryName_down (dir : Place) (n : Name) : entryName dir (dir.down n) = some n := by
  rw [entryName, Place.down, List.getLast?_concat, Option.bind_some]
  exact if_pos rfl

/-- What is listed in a directory is in it. -/
theorem of_entryName {dir pl : Place} {n : Name} (h : entryName dir pl = some n) :
    pl = dir.down n := by
  unfold entryName at h
  obtain ⟨m, -, hm⟩ := Option.bind_eq_some_iff.mp h
  split at hm
  · rename_i hpl
    rw [hpl, Option.some.inj hm]
  · cases hm

/-- What is listed in the peers directory are the files of the book and no other regular file. -/
theorem Shows.entries (h : Shows json root book w) :
    ∃ others : List (Name × Bool), (∀ entry ∈ others, entry.2 = false) ∧
      w.entries (peersDir root).normalize
        = (book.map (json.file root)).filterMap
            (fun file => (entryName (peersDir root).normalize file.1).map fun n => (n, true)) ++ others := by
  refine ⟨w.dirs.filterMap fun d => (entryName (peersDir root).normalize d).map fun n => (n, false),
    ?_, ?_⟩
  · intro entry hentry
    obtain ⟨d, -, hd⟩ := List.mem_filterMap.mp hentry
    obtain ⟨n, -, rfl⟩ := Option.map_eq_some_iff.mp hd
    rfl
  · rw [PeerWorld.entries, ← h.files, PeerWorld.below, List.filterMap_filter]
    congr 2
    funext file
    split_ifs with hin
    · rfl
    · -- a file outside the state directory is not listed
      cases hn : entryName (peersDir root).normalize file.1 with
      | none => rfl
      | some n =>
          rw [of_entryName hn] at hin
          exact absurd (decide_eq_true (inside_peersDir root n)) hin

theorem Book.find_of_mem (hnames : (book.map PeerProfile.name).Nodup) {profile : PeerProfile T}
    (h : profile ∈ book) : book.find profile.name = some profile := by
  obtain ⟨before, after, rfl⟩ := List.append_of_mem h
  rw [List.map_append, List.map_cons] at hnames
  have hfresh : ∀ p ∈ before, p.name ≠ profile.name := by
    intro p hp he
    exact (List.nodup_append.mp hnames).2.2 _ (List.mem_map_of_mem hp) _ List.mem_cons_self he
  rw [Book.find, List.find?_append, List.find?_eq_none.mpr, Option.none_or, List.find?_cons,
    decide_eq_true rfl]
  intro p hp
  simpa using hfresh p hp

/-- Directories are passed over. -/
theorem run_listEntries_others (profiles : List (PeerProfile T)) {others : List (Name × Bool)}
    (h : ∀ entry ∈ others, entry.2 = false) (w : PeerWorld) :
    run (listEntries json (peersDir root) profiles others) w = (.ok profiles, w) := by
  induction others with
  | nil => rfl
  | cons entry others ih =>
      obtain ⟨file, isFile⟩ := entry
      have hfalse : isFile = false := h _ List.mem_cons_self
      rw [listEntries, if_neg]
      · exact ih fun entry' hentry' => h entry' (List.mem_cons_of_mem _ hentry')
      · rw [hfalse]
        simp

/-- The loop reads one profile after the other. `sub` is what is still to be read. -/
theorem run_listEntries (hj : json.RoundTrips) (h : Shows json root book w)
    (sub : List (PeerProfile T)) (hsub : ∀ profile ∈ sub, profile ∈ book)
    (profiles : List (PeerProfile T)) (others : List (Name × Bool)) :
    ∃ w', run (listEntries json (peersDir root) profiles
          ((sub.map (json.file root)).filterMap
            (fun file => (entryName (peersDir root).normalize file.1).map fun n => (n, true))
            ++ others)) w
        = run (listEntries json (peersDir root) (profiles ++ sub) others) w'
      ∧ Shows json root book w' := by
  induction sub generalizing profiles w with
  | nil => exact ⟨w, by simp, h⟩
  | cons profile sub ih =>
      have hmem : profile ∈ book := hsub profile List.mem_cons_self
      have hv := h.valid profile hmem
      have hslash := no_slash_of_validate hv
      have hname : entryName (peersDir root).normalize (json.file root profile).1
          = some (jsonName profile.name hslash) := by
        rw [PeerJson.file, peerPath_place root hslash]
        exact entryName_down _ _
      have hread : w.find ((peersDir root).child (jsonName profile.name hslash)).normalize
          = some (json.file root profile).2 := by
        rw [← peerPath_eq, h.find hv, Book.find_of_mem h.names hmem]
        rfl
      obtain ⟨w', he, hw'⟩ := ih h.after (fun p hp => hsub p (List.mem_cons_of_mem _ hp))
        (profiles ++ [profile])
      refine ⟨w', ?_, hw'⟩
      rw [List.map_cons, List.filterMap_cons_some (b := (jsonName profile.name hslash, true))
        (by rw [hname]; rfl), List.cons_append, listEntries,
        if_pos ⟨rfl, extension_jsonName hslash (ne_nil_of_validate hv)⟩,
        run_readToString (works_of h.works rfl), hread]
      simp only [fromStr_file hj profile]
      rw [he, List.append_assoc]
      rfl

/-- **Listing gives the book.** -/
theorem run_listPeers (hj : json.RoundTrips) (h : Shows json root book w) :
    ∃ w', run (listPeers json root) w = (.ok book, w') ∧ Shows json root book w' := by
  obtain ⟨w₁, he₁, hd₁⟩ := run_ensurePeersDir root h.works
  have h₁ := h.of_onlyDirs hd₁
  obtain ⟨others, hothers, hentries⟩ := h₁.entries
  obtain ⟨w₂, he₂, h₂⟩ := run_listEntries hj h₁.after book (fun _ hp => hp) [] others
  refine ⟨w₂, ?_, h₂⟩
  unfold listPeers
  rw [run_bind, he₁]
  dsimp only
  rw [run_readDir (works_of h₁.works rfl), hentries]
  dsimp only
  rw [he₂, run_listEntries_others _ hothers]
  rfl

/-! ## Renaming -/

/-- **Renaming moves the ticket**, onto a name that is not in use. -/
theorem run_renamePeer (hj : json.RoundTrips) (h : Shows json root book w)
    {oldName newName : List Char} (hold : validatePeerName oldName = .ok ())
    (hnew : validatePeerName newName = .ok ())
    (hclear : book.Clear (.rename oldName newName)) :
    ∃ w', run (renamePeer json root oldName newName) w = (.ok (book.find oldName).isSome, w')
      ∧ Shows json root (book.call (.rename oldName newName)).2 w'
      ∧ (book.call (.rename oldName newName)).1 = .renamed (.ok (book.find oldName).isSome) := by
  obtain ⟨w₁, he₁, h₁⟩ := run_loadPeer hj h hold
  unfold renamePeer
  rw [run_bind, he₁]
  cases hf : book.find oldName with
  | none =>
      refine ⟨w₁, rfl, ?_, ?_⟩
      · simpa only [Book.call, hf] using h₁
      · simp only [Book.call, hf, Option.isSome_none]
  | some profile =>
      obtain ⟨hne, hfree⟩ := hclear (by rw [hf]; rfl)
      obtain ⟨w₂, he₂, h₂⟩ := run_savePeer hj h₁ ⟨newName, profile.ticket⟩ hnew
      obtain ⟨w₃, he₃, h₃⟩ := run_deletePeer h₂ hold
      refine ⟨w₃, ?_, ?_, ?_⟩
      · dsimp only
        rw [run_bind, he₂]
        dsimp only
        rw [run_bind, he₃]
        rfl
      · simp only [Book.call, hf, hfree, if_neg hne]
        exact h₃
      · simp only [Book.call, hf, hfree, if_neg hne]
        rfl

/-! ## Calls and sequences of calls -/

theorem sameAnswer_refl (a : PeerAnswer T) : SameAnswer a a := by
  rcases a with r | r | (e | ps) | r | r
  case listed.ok => exact List.Perm.refl ps
  all_goals rfl

/-- **One call.** -/
theorem run_call (hj : json.RoundTrips) (h : Shows json root book w) {call : PeerCall T}
    (hv : call.Valid) (hc : book.Clear call) :
    SameAnswer (run (call.prog json root) w).1 (book.call call).1
      ∧ Shows json root (book.call call).2 (run (call.prog json root) w).2 := by
  cases call with
  | save profile =>
      obtain ⟨w', he, h'⟩ := run_savePeer hj h profile hv
      rw [PeerCall.prog, run_bind, he]
      exact ⟨sameAnswer_refl _, h'⟩
  | load name =>
      obtain ⟨w', he, h'⟩ := run_loadPeer hj h hv
      rw [PeerCall.prog, run_bind, he]
      exact ⟨sameAnswer_refl _, h'⟩
  | list =>
      obtain ⟨w', he, h'⟩ := run_listPeers hj h
      rw [PeerCall.prog, run_bind, he]
      exact ⟨sameAnswer_refl _, h'⟩
  | delete name =>
      obtain ⟨w', he, h'⟩ := run_deletePeer h hv
      rw [PeerCall.prog, run_bind, he]
      exact ⟨sameAnswer_refl _, h'⟩
  | rename oldName newName =>
      obtain ⟨w', he, h', ha⟩ := run_renamePeer hj h hv.1 hv.2 hc
      rw [PeerCall.prog, run_bind, he, ha]
      exact ⟨sameAnswer_refl _, h'⟩

end

/-- The answers to a sequence of calls. -/
def runCalls (json : PeerJson T) (root : Path) : List (PeerCall T) → PeerWorld → List (PeerAnswer T)
  | [], _ => []
  | call :: calls, w =>
      (run (call.prog json root) w).1 :: runCalls json root calls (run (call.prog json root) w).2

namespace Book

def answers (book : Book T) : List (PeerCall T) → List (PeerAnswer T)
  | [] => []
  | call :: calls => (book.call call).1 :: answers (book.call call).2 calls

/-- What a sequence of calls leaves. -/
def after (book : Book T) (calls : List (PeerCall T)) : Book T :=
  calls.foldl (fun book call => (book.call call).2) book

/-- No call of the sequence renames onto a name in use. -/
def ClearAll (book : Book T) : List (PeerCall T) → Prop
  | [] => True
  | call :: calls => book.Clear call ∧ ClearAll (book.call call).2 calls

theorem answers_append (book : Book T) (calls calls' : List (PeerCall T)) :
    book.answers (calls ++ calls') = book.answers calls ++ (book.after calls).answers calls' := by
  induction calls generalizing book with
  | nil => rfl
  | cons call calls ih =>
      rw [List.cons_append, answers, ih]
      rfl

theorem ClearAll.of_append {book : Book T} {calls calls' : List (PeerCall T)}
    (h : book.ClearAll (calls ++ calls')) : (book.after calls).ClearAll calls' := by
  induction calls generalizing book with
  | nil => exact h
  | cons call calls ih => exact ih h.2

/-- The ticket is where it was moved to. -/
theorem find_renamed {book : Book T} {oldName newName : List Char} {profile : PeerProfile T}
    (hf : book.find oldName = some profile) (hc : book.Clear (.rename oldName newName)) :
    (book.call (.rename oldName newName)).2.find newName = some ⟨newName, profile.ticket⟩ := by
  obtain ⟨hne, hfree⟩ := hc (by rw [hf]; rfl)
  simp only [call, hf, hfree, if_neg hne]
  rw [Option.isSome_none, if_neg Bool.false_ne_true, save, remove, List.filter_cons,
    if_pos (decide_eq_true hne), find, List.find?_cons, decide_eq_true rfl]

end Book

/-- **Every answer is the book's**, along a sequence of calls. -/
theorem runCalls_answers {json : PeerJson T} {root : Path} {book : Book T} {w : PeerWorld}
    (hj : json.RoundTrips) (h : Shows json root book w) {calls : List (PeerCall T)}
    (hv : ∀ call ∈ calls, call.Valid) (hc : book.ClearAll calls) :
    List.Forall₂ SameAnswer (runCalls json root calls w) (book.answers calls) := by
  induction calls generalizing book w with
  | nil => exact .nil
  | cons call calls ih =>
      obtain ⟨ha, h'⟩ := run_call hj h (hv call List.mem_cons_self) hc.1
      exact .cons ha (ih h' (fun c hm => hv c (List.mem_cons_of_mem _ hm)) hc.2)

/-- An empty state directory, on a file system where nothing fails. -/
structure EmptyState (root : Path) (w : PeerWorld) : Prop where
  files : ∀ file ∈ w.files, ¬ root.normalize.Inside file.1
  dirs : ∀ d ∈ w.dirs, root.normalize.Inside d → d = root.normalize
  ancestors : ∀ a ∈ root.ancestors, a.normalize ∈ w.dirs
  works : ∀ n, w.fails n = false

theorem EmptyState.shows {root : Path} {w : PeerWorld} (h : EmptyState root w) (json : PeerJson T) :
    Shows json root [] w where
  files := by
    rw [PeerWorld.below, List.map_nil, List.filter_eq_nil_iff]
    intro file hfile hin
    exact h.files file hfile (of_decide_eq_true hin)
  valid := by simp
  names := List.nodup_nil
  dirs := fun d hd hin => .inl (h.dirs d hd hin)
  ancestors := h.ancestors
  works := h.works

/-- The last answers belong together. -/
theorem sameAnswer_getLast {as bs : List (PeerAnswer T)} {b : PeerAnswer T}
    (h : List.Forall₂ SameAnswer as (bs ++ [b])) : ∃ a, as.getLast? = some a ∧ SameAnswer a b := by
  have hrev := List.forall₂_reverse_iff.mpr h
  rw [List.reverse_append, List.reverse_singleton, List.singleton_append] at hrev
  obtain ⟨a, as', ha, -, has⟩ := List.forall₂_cons_right_iff.mp hrev
  refine ⟨a, ?_, ha⟩
  rw [← List.head?_reverse, has]
  rfl

theorem eq_loaded {a : PeerAnswer T} {r : Except PeerError (Option (PeerProfile T))}
    (h : SameAnswer a (.loaded r)) : a = .loaded r := by
  rcases a with r' | r' | (e | ps) | r' | r'
  all_goals exact h

namespace Proof

/-- **The address book refines the map**: from an empty state directory every answer is the book's,
up to the order of listings, as long as no call renames onto a name in use. And what was renamed is
found under its new name. -/
theorem address_book_refines {json : PeerJson T} (hj : json.RoundTrips) {root : Path} {w : PeerWorld}
    (hw : EmptyState root w) (calls : List (PeerCall T)) (hv : ∀ call ∈ calls, call.Valid)
    (hc : Book.ClearAll [] calls) :
    List.Forall₂ SameAnswer (runCalls json root calls w) (Book.answers [] calls)
      ∧ ∀ pre oldName newName profile, calls = pre ++ [.rename oldName newName, .load newName] →
        (Book.after [] pre).find oldName = some profile →
        (runCalls json root calls w).getLast?
          = some (.loaded (.ok (some ⟨newName, profile.ticket⟩))) := by
  have hsame := runCalls_answers hj (hw.shows json) hv hc
  refine ⟨hsame, ?_⟩
  rintro pre oldName newName profile rfl hf
  have hclear : (Book.after [] pre).Clear (.rename oldName newName) := hc.of_append.1
  have hlast : (Book.after [] pre).answers [.rename oldName newName, .load newName]
      = [((Book.after [] pre).call (.rename oldName newName)).1]
        ++ [.loaded (.ok (some ⟨newName, profile.ticket⟩))] := by
    rw [Book.answers, Book.answers, ← Book.find_renamed hf hclear]
    rfl
  rw [Book.answers_append, hlast, ← List.append_assoc] at hsame
  obtain ⟨a, ha, hab⟩ := sameAnswer_getLast hsame
  rw [ha, eq_loaded hab]

end Proof

/-- A file format for profiles with a byte as ticket: the ticket, and four bytes for each character of
the name. -/
def byteJson : PeerJson UInt8 where
  toVecPretty profile :=
    some (profile.ticket :: profile.name.flatMap fun c => BigEndian.beEncode 4 c.toNat)
  fromStr
    | [] => none
    | ticket :: bytes => some ⟨chars bytes, ticket⟩
where
  chars : List UInt8 → List Char
    | a :: b :: c :: d :: rest => Char.ofNat (BigEndian.beDecode [a, b, c, d]) :: chars rest
    | _ => []

theorem byteJson_chars (name : List Char) :
    byteJson.chars (name.flatMap fun c => BigEndian.beEncode 4 c.toNat) = name := by
  induction name with
  | nil => rfl
  | cons c name ih =>
      have hlt : c.toNat < 256 ^ 4 := lt_of_lt_of_le c.val.toNat_lt (by decide)
      have hback := BigEndian.beDecode_beEncode hlt
      have hlen := BigEndian.length_beEncode 4 c.toNat
      rw [List.flatMap_cons]
      match hb : BigEndian.beEncode 4 c.toNat, hlen with
      | [x, y, z, t], _ =>
          rw [hb] at hback
          show Char.ofNat (BigEndian.beDecode [x, y, z, t]) ::
            byteJson.chars (name.flatMap fun c => BigEndian.beEncode 4 c.toNat) = c :: name
          rw [hback, ih, Char.ofNat_toNat]

theorem byteJson_roundTrips : byteJson.RoundTrips := by
  intro profile
  refine ⟨_, rfl, ?_⟩
  show some (⟨byteJson.chars _, profile.ticket⟩ : PeerProfile UInt8) = some profile
  rw [byteJson_chars]

/-- A state directory `/s` with nothing in it. -/
def freshState : PeerWorld :=
  ⟨[], (parse ['/', 's']).ancestors.map Path.normalize, fun _ => false, 0, fun _ => ⟨[], slash_notMem_nil⟩⟩

theorem freshState_empty : EmptyState (parse ['/', 's']) freshState where
  files := by simp [freshState]
  dirs := by decide
  ancestors := fun a ha => List.mem_map_of_mem ha
  works := fun _ => rfl

namespace Proof

/-- Saving `a`, renaming it to `b` and loading `b`. -/
theorem address_book_refines_rename :
    let calls : List (PeerCall UInt8) := [.save ⟨['a'], 7⟩, .rename ['a'] ['b'], .load ['b']]
    List.Forall₂ SameAnswer (runCalls byteJson (parse ['/', 's']) calls freshState)
        (Book.answers [] calls)
      ∧ (runCalls byteJson (parse ['/', 's']) calls freshState).getLast?
        = some (.loaded (.ok (some ⟨['b'], 7⟩))) := by
  have hrefines := address_book_refines byteJson_roundTrips freshState_empty
    [.save ⟨['a'], 7⟩, .rename ['a'] ['b'], .load ['b']]
    (by
      have ha : validatePeerName ['a'] = .ok () := by decide
      have hb : validatePeerName ['b'] = .ok () := by decide
      simp [PeerCall.Valid, ha, hb])
    ⟨trivial, fun _ => ⟨by decide, rfl⟩, trivial, trivial⟩
  exact ⟨hrefines.1, hrefines.2 [.save ⟨['a'], 7⟩] ['a'] ['b'] ⟨['a'], 7⟩ rfl rfl⟩

/-- A peer renamed to its own name is gone, and one renamed to a name in use takes that name's
ticket away; both are reported as done. -/
theorem address_book_loses :
    let root := parse ['/', 's']
    let same : List (PeerCall UInt8) := [.save ⟨['a'], 7⟩, .rename ['a'] ['a'], .load ['a']]
    let onto : List (PeerCall UInt8) :=
      [.save ⟨['a'], 7⟩, .save ⟨['b'], 8⟩, .rename ['a'] ['b'], .load ['b']]
    ¬ List.Forall₂ SameAnswer (runCalls byteJson root same freshState) (Book.answers [] same)
      ∧ runCalls byteJson root same freshState
        = [.saved (.ok ()), .renamed (.ok true), .loaded (.ok none)]
      ∧ ¬ List.Forall₂ SameAnswer (runCalls byteJson root onto freshState) (Book.answers [] onto)
      ∧ runCalls byteJson root onto freshState
        = [.saved (.ok ()), .saved (.ok ()), .renamed (.ok true),
          .loaded (.ok (some ⟨['b'], 7⟩))] := by
  have hsame : runCalls byteJson (parse ['/', 's'])
        [.save ⟨['a'], 7⟩, .rename ['a'] ['a'], .load ['a']] freshState
      = [.saved (.ok ()), .renamed (.ok true), .loaded (.ok none)] := by
    rfl
  have honto : runCalls byteJson (parse ['/', 's'])
        [.save ⟨['a'], 7⟩, .save ⟨['b'], 8⟩, .rename ['a'] ['b'], .load ['b']] freshState
      = [.saved (.ok ()), .saved (.ok ()), .renamed (.ok true), .loaded (.ok (some ⟨['b'], 7⟩))] := by
    rfl
  have hsame' : Book.answers [] [.save ⟨['a'], (7 : UInt8)⟩, .rename ['a'] ['a'], .load ['a']]
      = [.saved (.ok ()), .renamed (.ok true), .loaded (.ok (some ⟨['a'], 7⟩))] := by
    rfl
  have honto' : Book.answers []
        [.save ⟨['a'], (7 : UInt8)⟩, .save ⟨['b'], 8⟩, .rename ['a'] ['b'], .load ['b']]
      = [.saved (.ok ()), .saved (.ok ()), .renamed (.error (.nameInvalid ['b'])),
        .loaded (.ok (some ⟨['b'], 8⟩))] := by
    rfl
  refine ⟨?_, hsame, ?_, honto⟩
  · rw [hsame, hsame']
    simp [SameAnswer]
  · rw [honto, honto']
    simp [SameAnswer]

end Proof

end Irosh
