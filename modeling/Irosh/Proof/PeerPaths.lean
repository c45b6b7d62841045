import Mathlib.Tactic.SplitIfs
import Irosh.Storage.Peers

/-!
# Which files the address book touches

`validate_peer_name` keeps a name from leading out of the peers directory. Saving
calls it; loading and deleting do not, and renaming only does for the new name,
through saving. So what a call touches is inside exactly if the names it does not
validate lead to a direct child of the directory on their own.

`Within` is said of single operations and holds of a whole program whatever the file
system answers (`Prog.Always`); that no other file changes follows for any one file
system.
-/

namespace Irosh

open UnixPath

/-- A file directly in `<root>/peers`. -/
def DirectChild (root : Path) (pl : Place) : Prop := ∃ n, pl = (peersDir root).normalize.down n

/-- Operations that stay inside: directories are only made on the way to the peers directory and
itself, and files are direct children of it. -/
def PeerOp.Within (root : Path) : PeerOp → Prop
  | .createDirAll p => p = root ∨ p = peersDir root
  | .secure p => p = root ∨ p = peersDir root ∨ DirectChild root p.normalize
  | .pathExists p => p = peersDir root ∨ DirectChild root p.normalize
  | .readDir p => p = peersDir root
  | .readToString p => DirectChild root p.normalize
  | .random => True
  | .createFile p => DirectChild root p.normalize
  | .writeAll p _ => DirectChild root p.normalize
  | .syncAll p => DirectChild root p.normalize
  | .rename src dst => DirectChild root src.normalize ∧ DirectChild root dst.normalize
  | .removeFile p => DirectChild root p.normalize

/-! ## Paths -/

theorem peersDir_eq (root : Path) : peersDir root = root.child peersName := root.join_ofName _

theorem directChild_child (root : Path) (n : Name) :
    DirectChild root ((peersDir root).child n).normalize := ⟨n, Path.normalize_child _ _⟩

/-- A name without a separator makes a file name. -/
theorem jsonName_valid {name : List Char} (h : '/' ∉ name) : ValidName (name ++ jsonSuffix) := by
  have hlen : 5 ≤ (name ++ jsonSuffix).length := by
    rw [List.length_append]
    exact Nat.le_add_left _ _
  refine ⟨?_, ?_, ?_, ?_⟩
  · intro he
    rw [he] at hlen
    exact absurd hlen (by decide)
  · intro he
    rw [he] at hlen
    exact absurd hlen (by decide)
  · intro he
    rw [he] at hlen
    exact absurd hlen (by decide)
  · rw [List.mem_append, not_or]
    exact ⟨h, by decide⟩

def jsonName (name : List Char) (h : '/' ∉ name) : Name := ⟨name ++ jsonSuffix, jsonName_valid h⟩

/-- A name is read as itself. -/
theorem parse_name (n : Name) : parse n.1 = .ofName n := by
  have hslash : '/' ∉ n.1 := n.2.2.2.2
  have hdot : n.1 ≠ ['.'] := n.2.2.1
  have hsplit : n.1.splitOn '/' = [n.1] := by
    have h : (['/'].intercalate [n.1]).splitOn '/' = [n.1] :=
      List.splitOn_intercalate '/' (by simpa using hslash) (by simp)
    rwa [List.intercalate_singleton] at h
  have hread : [n.1].filterMap readPart = [.normal n] := by
    have h := filterMap_readPart_chars [.normal n]
    exact h
  unfold parse
  split
  · rename_i rest he
    rw [he] at hslash
    exact absurd List.mem_cons_self hslash
  · rw [hsplit]
    split
    · rename_i he
      rw [List.cons.injEq] at he
      exact absurd he.1 hdot
    · rw [hread]
      rfl

theorem peerPath_eq (root : Path) {name : List Char} (h : '/' ∉ name) :
    peerPath root name = (peersDir root).child (jsonName name h) := by
  have hparse : parse (name ++ jsonSuffix) = .ofName (jsonName name h) :=
    parse_name (jsonName name h)
  rw [peerPath, hparse, Path.join_ofName]

/-! ## Saving -/

section

variable {T : Type} {json : PeerJson T} {root : Path}

theorem ensureDirSecureTighten_within {p : Path} (hp : p = root ∨ p = peersDir root) :
    (ensureDirSecureTighten p).Always (PeerOp.Within root) := by
  refine ⟨hp, fun made => Prog.always_guard ⟨?_, fun _ => Prog.always_pure _⟩⟩
  rcases hp with h | h
  · exact .inl h
  · exact .inr (.inl h)

theorem ensurePeersDir_within :
    (ensurePeersDir root).Ensures (PeerOp.Within root)
      fun r => ∀ dir, r = .ok dir → dir = peersDir root := by
  refine (ensureDirSecureTighten_within (.inl rfl)).bind fun r => ?_
  cases r with
  | error e => exact fun dir h => by cases h
  | ok _ =>
      refine (ensureDirSecureTighten_within (.inr rfl)).bind fun r => ?_
      cases r with
      | error e => exact fun dir h => by cases h
      | ok _ => exact fun dir h => (Except.ok.inj h).symm

theorem writeTmp_within {tmp p : Path} {data : List UInt8} (htmp : DirectChild root tmp.normalize)
    (hp : DirectChild root p.normalize) : (writeTmp tmp p data).Always (PeerOp.Within root) := by
  refine ⟨htmp, fun created => Prog.always_guard ⟨.inr (.inr htmp), fun secured => ?_⟩⟩
  refine Prog.always_guard ⟨htmp, fun written => Prog.always_guard ⟨htmp, fun synced => ?_⟩⟩
  exact Prog.always_guard ⟨⟨htmp, hp⟩, fun _ => Prog.always_pure _⟩

/-- Writing to a direct child: the temporary file is one, too. -/
theorem atomicWriteSecure_within (n : Name) (data : List UInt8) :
    (atomicWriteSecure ((peersDir root).child n) data).Always (PeerOp.Within root) := by
  unfold atomicWriteSecure
  rw [Path.parent_child]
  have hensure : (ensureDirSecure (peersDir root)).Always (PeerOp.Within root) := by
    refine ⟨.inl rfl, fun present => ?_⟩
    cases present with
    | false => exact ensureDirSecureTighten_within (.inr rfl)
    | true => exact Prog.always_pure _
  refine hensure.bind fun r => ?_
  cases r with
  | error e => exact Prog.always_pure _
  | ok _ =>
      refine ⟨trivial, fun suffix => ?_⟩
      have htmp : DirectChild root (((peersDir root).child n).setFileName
          (tmpName ((peersDir root).child n).fileName suffix)).normalize := by
        rw [Path.setFileName_child]
        exact directChild_child root _
      refine (writeTmp_within htmp (directChild_child root n)).bind fun r => ?_
      cases r with
      | error e => exact ⟨htmp, fun _ => Prog.always_pure _⟩
      | ok _ => exact Prog.always_pure _

theorem no_slash_of_validate {name : List Char} {u : Unit} (h : validatePeerName name = .ok u) :
    '/' ∉ name := by
  intro hslash
  unfold validatePeerName at h
  split at h
  · cases h
  split at h
  · cases h
  split at h
  · cases h
  rw [if_pos (.inl hslash)] at h
  cases h

/-- Saving validates, and stays inside. -/
theorem savePeer_within (profile : PeerProfile T) :
    (savePeer json root profile).Always (PeerOp.Within root) := by
  refine ensurePeersDir_within.bind fun r _ => ?_
  cases r with
  | error e => exact Prog.always_pure _
  | ok _ =>
      dsimp only
      cases hv : validatePeerName profile.name with
      | error e => exact Prog.always_pure _
      | ok u =>
          dsimp only
          cases json.toVecPretty profile with
          | none => exact Prog.always_pure _
          | some data =>
              rw [peerPath_eq root (no_slash_of_validate hv)]
              exact atomicWriteSecure_within _ data

/-! ## The other operations -/

theorem loadPeer_within {name : List Char} (h : DirectChild root (peerPath root name).normalize) :
    (loadPeer json root name).Always (PeerOp.Within root) := by
  refine ⟨.inr h, fun present => Prog.always_guard ⟨h, fun data => ?_⟩⟩
  cases data with
  | none => exact Prog.always_pure _
  | some data =>
      dsimp only [Prog.bind]
      cases json.fromStr data with
      | none => exact Prog.always_pure _
      | some profile => exact Prog.always_pure _

theorem deletePeer_within {name : List Char} (h : DirectChild root (peerPath root name).normalize) :
    (deletePeer root name).Always (PeerOp.Within root) := by
  refine ⟨h, fun removal => ?_⟩
  cases removal with
  | removed => exact Prog.always_pure _
  | notFound => exact Prog.always_pure _
  | failed => exact Prog.always_pure _

theorem renamePeer_within {oldName newName : List Char}
    (h : DirectChild root (peerPath root oldName).normalize) :
    (renamePeer json root oldName newName).Always (PeerOp.Within root) := by
  refine (loadPeer_within h).bind fun r => ?_
  rcases r with e | _ | profile
  · exact Prog.always_pure _
  · exact Prog.always_pure _
  · refine (savePeer_within _).bind fun r => ?_
    cases r with
    | error e => exact Prog.always_pure _
    | ok _ =>
        refine (deletePeer_within h).bind fun r => ?_
        cases r with
        | error e => exact Prog.always_pure _
        | ok _ => exact Prog.always_pure _

theorem listEntries_within (profiles : List (PeerProfile T)) (entries : List (Name × Bool)) :
    (listEntries json (peersDir root) profiles entries).Always (PeerOp.Within root) := by
  induction entries generalizing profiles with
  | nil => exact Prog.always_pure _
  | cons entry entries ih =>
      obtain ⟨file, isFile⟩ := entry
      rw [listEntries]
      split
      · refine ⟨directChild_child root file, fun data => ?_⟩
        cases data with
        | none => exact Prog.always_pure _
        | some data =>
            dsimp only [Prog.bind]
            cases json.fromStr data with
            | none => exact ih profiles
            | some profile => exact ih (profiles ++ [profile])
      · exact ih profiles

theorem listPeers_within : (listPeers json root).Always (PeerOp.Within root) := by
  refine ensurePeersDir_within.bind fun r hr => ?_
  cases r with
  | error e => exact Prog.always_pure _
  | ok dir =>
      rw [hr dir rfl]
      refine ⟨rfl, fun entries => ?_⟩
      cases entries with
      | none => exact Prog.always_pure _
      | some entries => exact listEntries_within [] entries

/-- The names that are not validated lead into the directory. -/
def PeerCall.Safe (root : Path) : PeerCall T → Prop
  | .save _ => True
  | .load name => DirectChild root (peerPath root name).normalize
  | .list => True
  | .delete name => DirectChild root (peerPath root name).normalize
  | .rename oldName _ => DirectChild root (peerPath root oldName).normalize

theorem prog_within {call : PeerCall T} (h : call.Safe root) :
    (call.prog json root).Always (PeerOp.Within root) := by
  cases call with
  | save profile => exact (savePeer_within profile).bind fun _ => Prog.always_pure _
  | load name => exact (loadPeer_within h).bind fun _ => Prog.always_pure _
  | list => exact listPeers_within.bind fun _ => Prog.always_pure _
  | delete name => exact (deletePeer_within h).bind fun _ => Prog.always_pure _
  | rename oldName newName => exact (renamePeer_within h).bind fun _ => Prog.always_pure _

/-- What is not validated is used as it is: read once it is there, or removed. -/
theorem safe_of_within {call : PeerCall T}
    (h : (call.prog json root).Always (PeerOp.Within root)) : call.Safe root := by
  cases call with
  | save profile => trivial
  | load name => exact (h.2 true).1
  | list => trivial
  | delete name => exact h.1
  | rename oldName newName => exact (h.2 true).1

/-! ## Files elsewhere -/

open PeerWorld

/-- Looking for one file among all the others. -/
theorem find_filter_ne (files : List (Place × List UInt8)) {pl pl' : Place} (h : pl ≠ pl') :
    ((files.filter fun file => file.1 ≠ pl').find? fun file => file.1 = pl)
      = files.find? fun file => file.1 = pl := by
  rw [List.find?_filter]
  congr 1
  funext file
  by_cases hf : file.1 = pl
  · simp [hf, h]
  · simp [hf]

/-- An operation inside the directory leaves every other file alone. -/
theorem answer_within {o : PeerOp} {w : PeerWorld} (ho : o.Within root) {pl : Place}
    (hpl : ¬ DirectChild root pl) : (answer o w).2.find pl = w.find pl := by
  have hne : ∀ {p : Path}, DirectChild root p.normalize → p.normalize ≠ pl := by
    intro p hp he
    exact hpl (he ▸ hp)
  have hcons : ∀ {p : Path} {data : List UInt8} {files : List (Place × List UInt8)},
      DirectChild root p.normalize →
      (((p.normalize, data) :: files).find? fun file => file.1 = pl)
        = files.find? fun file => file.1 = pl := by
    intro p data files hp
    exact List.find?_cons_of_neg (by simpa using hne hp)
  cases o with
  | createFile p =>
      simp only [answer]
      split_ifs
      · rw [find, hcons ho, without, find_filter_ne _ (hne ho).symm]
        rfl
      · rfl
  | writeAll p data =>
      simp only [answer]
      split_ifs
      · rw [find, hcons ho, without, find_filter_ne _ (hne ho).symm]
        rfl
      · rfl
  | rename src dst =>
      simp only [answer]
      split
      · rw [find, hcons ho.2, find_filter_ne _ (hne ho.2).symm, without,
          find_filter_ne _ (hne ho.1).symm]
        rfl
      · rfl
  | removeFile p =>
      simp only [answer]
      split_ifs
      · split
        · rw [find, without, find_filter_ne _ (hne ho).symm]
          rfl
        · rfl
      · rfl
  | createDirAll p =>
      simp only [answer]
      split_ifs
      all_goals rfl
  | _ => rfl

theorem run_within {α : Type} {p : PeerProg α} (hp : p.Always (PeerOp.Within root)) (w : PeerWorld)
    {pl : Place} (hpl : ¬ DirectChild root pl) : (run p w).2.find pl = w.find pl :=
  hp.eval_invariant (I := fun w' : PeerWorld => w'.find pl = w.find pl)
    (fun _ _ ho hw => (answer_within ho hpl).trans hw) rfl

namespace Proof

/-- **A call stays inside the peers directory** - every file it reads, makes or removes is a direct
child of it, whatever the file system answers, and no other file changes - exactly if the names it
does not validate lead to a direct child. -/
theorem peer_call_inside_iff (json : PeerJson T) (root : Path) (call : PeerCall T) :
    ((call.prog json root).Always (PeerOp.Within root)
        ∧ ∀ (w : PeerWorld) (pl : Place), ¬ DirectChild root pl →
          (run (call.prog json root) w).2.find pl = w.find pl)
      ↔ call.Safe root := by
  constructor
  · exact fun h => safe_of_within h.1
  · intro h
    exact ⟨prog_within h, fun w pl hpl => run_within (prog_within h) w hpl⟩

/-- Deleting a peer called `../config` removes the file beside the directory. -/
theorem delete_outside_peers :
    let root : Path := parse ['/', 's']
    let config : Path := parse ['/', 's', '/', 'c', '.', 'j', 's', 'o', 'n']
    let w : PeerWorld := ⟨[(config.normalize, [1])], [], fun _ => false, 0, fun _ => ⟨[], by simp⟩⟩
    let json : PeerJson Nat := ⟨fun _ => none, fun _ => none⟩
    ¬ DirectChild root config.normalize
      ∧ w.find config.normalize = some [1]
      ∧ (run ((PeerCall.delete ['.', '.', '/', 'c']).prog json root) w).2.find config.normalize
        = none := by
  refine ⟨?_, by decide, by decide⟩
  rintro ⟨n, hn⟩
  have hconfig : (parse ['/', 's', '/', 'c', '.', 'j', 's', 'o', 'n']).normalize.names.length = 2 := by
    decide
  have hpeers : (peersDir (parse ['/', 's'])).normalize.names.length = 2 := by decide
  rw [hn, Place.down, List.length_append, List.length_singleton, hpeers] at hconfig
  exact absurd hconfig (by decide)

end Proof

end

end Irosh
