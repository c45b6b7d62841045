import Irosh.Lib.Prog
import Irosh.Lib.UnixPath
import Irosh.Storage.Trust

/-!
# The peer address book

`<state>/peers` holds one JSON file per saved peer, named after the peer. The five
operations are programs over the file system, as the source writes them: saving goes
through a temporary file in the same directory, renaming is loading, saving and
deleting, and only saving looks whether the name is fit for a file name.

`PeerWorld` is a file system to run them against: which files there are, by the place
their path leads to, and whether the next operation fails.
-/

namespace Irosh

open UnixPath

/-- `PeerProfile`, over the type of tickets. -/
structure PeerProfile (T : Type) where
  name : List Char
  ticket : T
  deriving DecidableEq, Repr

/-- `serde_json::to_vec_pretty` and `serde_json::from_str`, for profiles. -/
structure PeerJson (T : Type) where
  toVecPretty : PeerProfile T → Option (List UInt8)
  fromStr : List UInt8 → Option (PeerProfile T)

/-- The errors of the peer operations. -/
inductive PeerError where
  | nameInvalid (name : List Char)
  | storage (e : StorageError) (p : Path)
  | serialize
  | parse
  deriving DecidableEq

/-- How `fs::remove_file` ends. -/
inductive Removal where
  | removed
  | notFound
  | failed
  deriving DecidableEq, Repr

/-- What the operations ask of the file system. -/
inductive PeerOp where
  | createDirAll (p : Path)
  /-- `apply_secure_permissions`. -/
  | secure (p : Path)
  | pathExists (p : Path)
  | readDir (p : Path)
  | readToString (p : Path)
  /-- `rand::random`, written out. -/
  | random
  | createFile (p : Path)
  | writeAll (p : Path) (data : List UInt8)
  | syncAll (p : Path)
  | rename (src dst : Path)
  | removeFile (p : Path)

/-- The answers. `readDir` lists names, with whether each is a regular file. -/
def PeerOp.Answer : PeerOp → Type
  | .pathExists _ => Bool
  | .readDir _ => Option (List (Name × Bool))
  | .readToString _ => Option (List UInt8)
  | .random => { s : List Char // '/' ∉ s }
  | .removeFile _ => Removal
  | _ => Bool

abbrev PeerProg := Prog PeerOp PeerOp.Answer

abbrev PeerOp.perform (o : PeerOp) : PeerProg o.Answer := Prog.perform o

/-! ## Names -/

/-- `MAX_NAME_LEN`. -/
def maxNameLen : Nat := 128

/-- `RESERVED_NAMES`. -/
def reservedNames : List (List Char) :=
  ["con", "prn", "aux", "nul", "com1", "com2", "com3", "com4", "com5", "com6", "com7", "com8",
    "com9", "lpt1", "lpt2", "lpt3", "lpt4", "lpt5", "lpt6", "lpt7", "lpt8", "lpt9"].map
    String.toList

/-- `validate_peer_name`. The length is in bytes. No letter outside ASCII becomes one of the letters
of a reserved name. -/
def validatePeerName (name : List Char) : Except PeerError Unit :=
  if name = [] then .error (.nameInvalid name)
  else if (name.map Char.utf8Size).sum > maxNameLen then .error (.nameInvalid name)
  else if '\x00' ∈ name then .error (.nameInvalid name)
  else if '/' ∈ name ∨ '\\' ∈ name ∨ name = ['.'] ∨ name = ['.', '.'] then
    .error (.nameInvalid name)
  else if name.map Char.toLower ∈ reservedNames then .error (.nameInvalid name)
  else .ok ()

def jsonSuffix : List Char := ['.', 'j', 's', 'o', 'n']

/-- The name of the directory. -/
def peersName : Name := ⟨['p', 'e', 'e', 'r', 's'], by decide⟩

/-- `state.root().join("peers")`. -/
def peersDir (root : Path) : Path := root.join (.ofName peersName)

/-- `peer_path`. -/
def peerPath (root : Path) (name : List Char) : Path :=
  (peersDir root).join (parse (name ++ jsonSuffix))

/-! ## Writing -/

/-- `.{base}.{random}.tmp`, the base without its leading dots. -/
def tmpChars (base : List Char) (suffix : { s : List Char // '/' ∉ s }) : List Char :=
  '.' :: base.dropWhile (· = '.') ++ '.' :: suffix.1 ++ ['.', 't', 'm', 'p']

theorem tmpChars_valid (base : List Char) (hbase : '/' ∉ base) (suffix : { s : List Char // '/' ∉ s }) :
    ValidName (tmpChars base suffix) := by
  have hlen : 6 ≤ (tmpChars base suffix).length := by
    simp only [tmpChars, List.length_cons, List.length_append, List.length_nil]
    omega
  refine ⟨?_, ?_, ?_, ?_⟩
  · intro h
    rw [h] at hlen
    exact absurd hlen (by decide)
  · intro h
    rw [h] at hlen
    exact absurd hlen (by decide)
  · intro h
    rw [h] at hlen
    exact absurd hlen (by decide)
  · have hdrop : '/' ∉ base.dropWhile (· = '.') := fun h => hbase (List.dropWhile_suffix _ |>.subset h)
    simp only [tmpChars, List.cons_append, List.mem_cons, List.mem_append, not_or]
    exact ⟨by decide, ⟨hdrop, by decide, suffix.2⟩, by decide, by decide, by decide, by decide, by simp⟩

/-- The temporary name for a file. -/
def tmpName (base : Option Name) (suffix : { s : List Char // '/' ∉ s }) : Name :=
  match base with
  | some n => ⟨tmpChars n.1 suffix, tmpChars_valid n.1 n.2.2.2.2 suffix⟩
  | none => ⟨tmpChars ['f', 'i', 'l', 'e'] suffix, tmpChars_valid _ (by decide) suffix⟩

/-- `ensure_dir_secure_tighten`. -/
def ensureDirSecureTighten (p : Path) : PeerProg (Except PeerError Unit) := do
  let made : Bool ← (PeerOp.createDirAll p).perform
  if made then
    let secured : Bool ← (PeerOp.secure p).perform
    pure (if secured then .ok () else .error (.storage .directoryRead p))
  else pure (.error (.storage .directoryCreate p))

/-- `ensure_dir_secure`: an existing directory is left alone. -/
def ensureDirSecure (p : Path) : PeerProg (Except PeerError Unit) := do
  let present : Bool ← (PeerOp.pathExists p).perform
  if present then pure (.ok ()) else ensureDirSecureTighten p

/-- The closure of `atomic_write_secure`. -/
def writeTmp (tmp p : Path) (data : List UInt8) : PeerProg (Except PeerError Unit) := do
  let created : Bool ← (PeerOp.createFile tmp).perform
  if created then
    let secured : Bool ← (PeerOp.secure tmp).perform
    if secured then
      let written : Bool ← (PeerOp.writeAll tmp data).perform
      if written then
        let synced : Bool ← (PeerOp.syncAll tmp).perform
        if synced then
          let renamed : Bool ← (PeerOp.rename tmp p).perform
          pure (if renamed then .ok () else .error (.storage .fileWrite p))
        else pure (.error (.storage .fileWrite tmp))
      else pure (.error (.storage .fileWrite tmp))
    else pure (.error (.storage .directoryRead tmp))
  else pure (.error (.storage .fileWrite tmp))

/-- `atomic_write_secure`. -/
def atomicWriteSecure (p : Path) (data : List UInt8) : PeerProg (Except PeerError Unit) :=
  match p.parent with
  | none => pure (.error (.storage .directoryCreate p))
  | some parent => do
      match ← ensureDirSecure parent with
      | .error e => pure (.error e)
      | .ok _ =>
          let suffix : { s : List Char // '/' ∉ s } ← PeerOp.random.perform
          match ← writeTmp (p.setFileName (tmpName p.fileName suffix)) p data with
          | .ok _ => pure (.ok ())
          | .error e =>
              let _ : Removal ←
                (PeerOp.removeFile (p.setFileName (tmpName p.fileName suffix))).perform
              pure (.error e)

/-! ## The operations -/

section

variable {T : Type} (json : PeerJson T)

/-- `ensure_peers_dir`. -/
def ensurePeersDir (root : Path) : PeerProg (Except PeerError Path) := do
  match ← ensureDirSecureTighten root with
  | .error e => pure (.error e)
  | .ok _ =>
      match ← ensureDirSecureTighten (peersDir root) with
      | .error e => pure (.error e)
      | .ok _ => pure (.ok (peersDir root))

/-- `save_peer`. -/
def savePeer (root : Path) (profile : PeerProfile T) : PeerProg (Except PeerError Unit) := do
  match ← ensurePeersDir root with
  | .error e => pure (.error e)
  | .ok _ =>
      match validatePeerName profile.name with
      | .error e => pure (.error e)
      | .ok _ =>
          match json.toVecPretty profile with
          | none => pure (.error .serialize)
          | some data => atomicWriteSecure (peerPath root profile.name) data

/-- `load_peer`. The name is not looked at. -/
def loadPeer (root : Path) (name : List Char) :
    PeerProg (Except PeerError (Option (PeerProfile T))) := do
  let present : Bool ← (PeerOp.pathExists (peerPath root name)).perform
  if present then
    let data : Option (List UInt8) ← (PeerOp.readToString (peerPath root name)).perform
    match data with
    | none => pure (.error (.storage .fileRead (peerPath root name)))
    | some data =>
        match json.fromStr data with
        | none => pure (.error .parse)
        | some profile => pure (.ok (some profile))
  else pure (.ok none)

/-- The loop of `list_peers`. A profile that cannot be parsed is skipped. -/
def listEntries (dir : Path) (profiles : List (PeerProfile T)) :
    List (Name × Bool) → PeerProg (Except PeerError (List (PeerProfile T)))
  | [] => pure (.ok profiles)
  | (file, isFile) :: rest =>
      if isFile = true ∧ extension file.1 = some ['j', 's', 'o', 'n'] then do
        let data : Option (List UInt8) ← (PeerOp.readToString (dir.child file)).perform
        match data with
        | none => pure (.error (.storage .fileRead (dir.child file)))
        | some data =>
            match json.fromStr data with
            | none => listEntries dir profiles rest
            | some profile => listEntries dir (profiles ++ [profile]) rest
      else listEntries dir profiles rest

/-- `list_peers`. -/
def listPeers (root : Path) : PeerProg (Except PeerError (List (PeerProfile T))) := do
  match ← ensurePeersDir root with
  | .error e => pure (.error e)
  | .ok dir =>
      let entries : Option (List (Name × Bool)) ← (PeerOp.readDir dir).perform
      match entries with
      | none => pure (.error (.storage .directoryRead dir))
      | some entries => listEntries json dir [] entries

/-- `delete_peer`. The name is not looked at. -/
def deletePeer (root : Path) (name : List Char) : PeerProg (Except PeerError Bool) := do
  let removal : Removal ← (PeerOp.removeFile (peerPath root name)).perform
  match removal with
  | .removed => pure (.ok true)
  | .notFound => pure (.ok false)
  | .failed => pure (.error (.storage .fileDelete (peerPath root name)))

/-- `rename_peer`: load, save, delete. -/
def renamePeer (root : Path) (oldName newName : List Char) :
    PeerProg (Except PeerError Bool) := do
  match ← loadPeer json root oldName with
  | .error e => pure (.error e)
  | .ok none => pure (.ok false)
  | .ok (some profile) =>
      match ← savePeer json root ⟨newName, profile.ticket⟩ with
      | .error e => pure (.error e)
      | .ok _ =>
          match ← deletePeer root oldName with
          | .error e => pure (.error e)
          | .ok _ => pure (.ok true)

/-- A call of one of the operations. -/
inductive PeerCall (T : Type) where
  | save (profile : PeerProfile T)
  | load (name : List Char)
  | list
  | delete (name : List Char)
  | rename (oldName newName : List Char)
  deriving DecidableEq

/-- What it returns. -/
inductive PeerAnswer (T : Type) where
  | saved (r : Except PeerError Unit)
  | loaded (r : Except PeerError (Option (PeerProfile T)))
  | listed (r : Except PeerError (List (PeerProfile T)))
  | deleted (r : Except PeerError Bool)
  | renamed (r : Except PeerError Bool)

def PeerCall.prog (root : Path) : PeerCall T → PeerProg (PeerAnswer T)
  | .save profile => do
      let r ← savePeer json root profile
      pure (.saved r)
  | .load name => do
      let r ← loadPeer json root name
      pure (.loaded r)
  | .list => do
      let r ← listPeers json root
      pure (.listed r)
  | .delete name => do
      let r ← deletePeer root name
      pure (.deleted r)
  | .rename oldName newName => do
      let r ← renamePeer json root oldName newName
      pure (.renamed r)

end

/-! ## A file system to run against -/

/-- Files and directories by place. No links: a path leads where it says. -/
structure PeerWorld where
  files : List (Place × List UInt8)
  dirs : List Place
  /-- Whether the operation of this number fails. -/
  fails : Nat → Bool
  tick : Nat
  /-- What `rand::random` gives. -/
  random : Nat → { s : List Char // '/' ∉ s }

namespace PeerWorld

/-- One operation later. -/
def after (w : PeerWorld) : PeerWorld := { w with tick := w.tick + 1 }

def works (w : PeerWorld) : Bool := !w.fails w.tick

def find (w : PeerWorld) (pl : Place) : Option (List UInt8) :=
  (w.files.find? fun file => file.1 = pl).map Prod.snd

/-- The files except one. -/
def without (w : PeerWorld) (pl : Place) : List (Place × List UInt8) :=
  w.files.filter fun file => file.1 ≠ pl

/-- The name under which a place is listed in a directory. -/
def entryName (dir pl : Place) : Option Name :=
  pl.names.getLast?.bind fun n => if pl = dir.down n then some n else none

/-- What `read_dir` lists. -/
def entries (w : PeerWorld) (dir : Place) : List (Name × Bool) :=
  w.files.filterMap (fun file => (entryName dir file.1).map fun n => (n, true))
    ++ w.dirs.filterMap fun d => (entryName dir d).map fun n => (n, false)

/-- What the file system answers. -/
def answer (o : PeerOp) (w : PeerWorld) : o.Answer × PeerWorld :=
  match o with
  | .createDirAll p =>
      if w.works then (true, { w.after with dirs := w.dirs ++ p.ancestors.map Path.normalize })
      else (false, w.after)
  | .secure _ => (w.works, w.after)
  | .pathExists p =>
      ((w.find p.normalize).isSome || decide (p.normalize ∈ w.dirs), w.after)
  | .readDir p => (if w.works then some (w.entries p.normalize) else none, w.after)
  | .readToString p => (if w.works then w.find p.normalize else none, w.after)
  | .random => (w.random w.tick, w.after)
  | .createFile p =>
      if w.works then
        (true, { w.after with files := (p.normalize, []) :: w.without p.normalize })
      else (false, w.after)
  | .writeAll p data =>
      if w.works then
        (true, { w.after with
          files := (p.normalize, (w.find p.normalize).getD [] ++ data) :: w.without p.normalize })
      else (false, w.after)
  | .syncAll _ => (w.works, w.after)
  | .rename src dst =>
      match w.works, w.find src.normalize with
      | true, some data =>
          (true, { w.after with
            files := (dst.normalize, data) ::
              (w.without src.normalize).filter fun file => file.1 ≠ dst.normalize })
      | _, _ => (false, w.after)
  | .removeFile p =>
      if w.works then
        match w.find p.normalize with
        | some _ => (.removed, { w.after with files := w.without p.normalize })
        | none => (.notFound, w.after)
      else (.failed, w.after)

/-- An operation of the address book, run. -/
def run {α : Type} (p : PeerProg α) (w : PeerWorld) : α × PeerWorld := p.eval answer w

@[simp] theorem run_pure {α : Type} (a : α) (w : PeerWorld) : run (pure a) w = (a, w) := rfl

theorem run_bind {α β : Type} (p : PeerProg α) (k : α → PeerProg β) (w : PeerWorld) :
    run (p >>= k) w = run (k (run p w).1) (run p w).2 := Prog.eval_bind p k w

/-! ### Operations that do not fail -/

section

variable {α : Type} {w : PeerWorld}

theorem run_createDirAll (hw : w.works = true) (p : Path) (k : Bool → PeerProg α) :
    run (do let made : Bool ← (PeerOp.createDirAll p).perform; k made) w =
      run (k true) { w.after with dirs := w.dirs ++ p.ancestors.map Path.normalize } := by
  simp only [run, Bind.bind, Prog.bind, Prog.perform, Prog.eval, answer, hw, if_true]

theorem run_secure (hw : w.works = true) (p : Path) (k : Bool → PeerProg α) :
    run (do let secured : Bool ← (PeerOp.secure p).perform; k secured) w = run (k true) w.after := by
  simp only [run, Bind.bind, Prog.bind, Prog.perform, Prog.eval, answer, hw]

theorem run_pathExists (p : Path) (k : Bool → PeerProg α) :
    run (do let present : Bool ← (PeerOp.pathExists p).perform; k present) w =
      run (k ((w.find p.normalize).isSome || decide (p.normalize ∈ w.dirs))) w.after := rfl

theorem run_readDir (hw : w.works = true) (p : Path)
    (k : Option (List (Name × Bool)) → PeerProg α) :
    run (do let listed : Option (List (Name × Bool)) ← (PeerOp.readDir p).perform; k listed) w =
      run (k (some (w.entries p.normalize))) w.after := by
  simp only [run, Bind.bind, Prog.bind, Prog.perform, Prog.eval, answer, hw]
  rfl

theorem run_readToString (hw : w.works = true) (p : Path)
    (k : Option (List UInt8) → PeerProg α) :
    run (do let data : Option (List UInt8) ← (PeerOp.readToString p).perform; k data) w =
      run (k (w.find p.normalize)) w.after := by
  simp only [run, Bind.bind, Prog.bind, Prog.perform, Prog.eval, answer, hw]
  rfl

theorem run_random (k : { s : List Char // '/' ∉ s } → PeerProg α) :
    run (do let suffix : { s : List Char // '/' ∉ s } ← PeerOp.random.perform; k suffix) w =
      run (k (w.random w.tick)) w.after := rfl

theorem run_createFile (hw : w.works = true) (p : Path) (k : Bool → PeerProg α) :
    run (do let created : Bool ← (PeerOp.createFile p).perform; k created) w =
      run (k true) { w.after with files := (p.normalize, []) :: w.without p.normalize } := by
  simp only [run, Bind.bind, Prog.bind, Prog.perform, Prog.eval, answer, hw, if_true]

theorem run_writeAll (hw : w.works = true) (p : Path) (data : List UInt8) (k : Bool → PeerProg α) :
    run (do let written : Bool ← (PeerOp.writeAll p data).perform; k written) w =
      run (k true) { w.after with
        files := (p.normalize, (w.find p.normalize).getD [] ++ data) :: w.without p.normalize } := by
  simp only [run, Bind.bind, Prog.bind, Prog.perform, Prog.eval, answer, hw, if_true]

theorem run_syncAll (hw : w.works = true) (p : Path) (k : Bool → PeerProg α) :
    run (do let synced : Bool ← (PeerOp.syncAll p).perform; k synced) w = run (k true) w.after := by
  simp only [run, Bind.bind, Prog.bind, Prog.perform, Prog.eval, answer, hw]

theorem run_rename (data : List UInt8) (hw : w.works = true) {src : Path}
    (hsrc : w.find src.normalize = some data) (dst : Path) (k : Bool → PeerProg α) :
    run (do let renamed : Bool ← (PeerOp.rename src dst).perform; k renamed) w =
      run (k true) { w.after with
        files := (dst.normalize, data) ::
          (w.without src.normalize).filter fun file => file.1 ≠ dst.normalize } := by
  simp only [run, Bind.bind, Prog.bind, Prog.perform, Prog.eval, answer, hw, hsrc]

theorem run_removeFile (hw : w.works = true) (p : Path) (k : Removal → PeerProg α) :
    run (do let removal : Removal ← (PeerOp.removeFile p).perform; k removal) w =
      match w.find p.normalize with
      | some _ => run (k .removed) { w.after with files := w.without p.normalize }
      | none => run (k .notFound) w.after := by
  simp only [run, Bind.bind, Prog.bind, Prog.perform, Prog.eval, answer, hw, if_true]
  cases w.find p.normalize with
  | some data => rfl
  | none => rfl

end

end PeerWorld

end Irosh
