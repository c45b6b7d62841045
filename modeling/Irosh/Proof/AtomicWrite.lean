import Mathlib.Data.List.TakeWhile
import Irosh.Storage.SecretDisk

/-!
# A secret is written whole or not at all

Until the rename the data is in the temporary file only, and that one has its mode before it
has a byte. So the states of a call differ from the one before it in directories that were
missing and in the temporary file, and a failed call takes the file away again.
-/

namespace Irosh

open FileTree UnixPath

/-! ## The name of the temporary file -/

/-- The temporary name is not the name of the file. -/
theorem tmpChars_ne (base : List Char) (suffix : { s : List Char // '/' ∉ s }) :
    tmpChars base suffix ≠ base := by
  intro heq
  have hbase : base = '.' :: (base.dropWhile (· = '.') ++ '.' :: suffix.1 ++ ['.', 't', 'm', 'p']) := heq.symm
  cases hd : base.dropWhile (· = '.') with
  | nil =>
      -- a name of dots has no letters
      have hdots : ∀ c ∈ base, c = '.' := by
        intro c hc
        have hall := List.dropWhile_eq_nil_iff.mp hd c hc
        simpa using hall
      have ht : 't' ∈ base := by
        rw [hbase]
        simp
      exact absurd (hdots 't' ht) (by decide)
  | cons c rest =>
      rw [hd] at hbase
      have hc : c ≠ '.' := by
        have hnot := List.head?_dropWhile_not (· = '.') base
        rw [hd] at hnot
        simpa using hnot
      have hdrop : base.dropWhile (· = '.') = c :: rest ++ '.' :: suffix.1 ++ ['.', 't', 'm', 'p'] := by
        rw [hbase, List.dropWhile_cons_of_pos (by decide)]
        simp [hc]
      have hlen := congrArg List.length (hd.symm.trans hdrop)
      simp only [List.length_append, List.length_cons] at hlen
      omega

namespace SecretEnv

variable {env : SecretEnv} {N N' : Nodes} {s t : Spot} {p : Path}

theorem dest_child (p : Path) (n : Name) : env.dest (p.child n) = env.dest p ++ [n] := by
  show spotFrom (env.start p) (p.parts ++ [.normal n]) = _
  rw [spotFrom_append]
  rfl

/-- The temporary file is not at the destination. -/
theorem dest_setFileName (p : Path) (suffix : { s : List Char // '/' ∉ s }) :
    env.dest (p.setFileName (tmpName p.fileName suffix)) ≠ env.dest p := by
  cases hname : p.fileName with
  | none =>
      have hset : p.setFileName (tmpName none suffix) = p.child (tmpName none suffix) := by
        rw [Path.setFileName, hname, if_neg (by simp), Path.join_ofName]
      rw [hset, dest_child]
      intro heq
      have hlen := congrArg List.length heq
      simp at hlen
  | some n =>
      obtain ⟨q, rfl⟩ : ∃ q : Path, p = q.child n := by
        unfold Path.fileName at hname
        cases hlast : p.parts.getLast? with
        | none =>
            rw [hlast] at hname
            cases hname
        | some x =>
            rw [hlast] at hname
            obtain ⟨front, hparts⟩ := List.getLast?_eq_some_iff.mp hlast
            cases x with
            | parent => cases hname
            | normal m =>
                cases hname
                exact ⟨{ p with parts := front }, by rw [Path.child, ← hparts]⟩
      rw [Path.setFileName_child, dest_child, dest_child]
      intro heq
      have hlast := List.append_inj' heq rfl
      have hne : tmpName (some n) suffix = n := (List.cons.inj hlast.2).1
      exact tmpChars_ne n.1 suffix (congrArg Subtype.val hne)

/-! ## Where paths lead -/

theorem reach_eq (h : env.reach N p = some s) : p ≠ ⟨.plain, []⟩ ∧ lead N (env.start p) p.parts = .at s := by
  unfold reach at h
  split at h
  · cases h
  · rename_i hne
    refine ⟨hne, ?_⟩
    split at h
    · rename_i hlead
      cases h
      exact hlead
    · cases h
    · cases h

theorem reach_dest (h : env.reach N p = some s) : s = env.dest p := lead_at (reach_eq h).2

/-- What is not a directory is on no way. -/
theorem lead_update {x : Option FileNode} {ps : List Part} (ht : ¬ IsDir N t) (h : lead N s ps = .at t') :
    lead (Function.update N t x) s ps = .at t' := by
  induction ps generalizing s with
  | nil => exact h
  | cons p ps ih =>
      rw [lead] at h
      cases hn : N s with
      | none =>
          rw [hn] at h
          cases h
      | some node =>
          cases node with
          | file mode data =>
              rw [hn] at h
              cases h
          | dir mode =>
              rw [hn] at h
              have hne : s ≠ t := by
                intro heq
                exact ht ⟨mode, heq ▸ hn⟩
              rw [lead, Function.update_of_ne hne, hn]
              exact ih h

theorem reach_update {x : Option FileNode} (ht : ¬ IsDir N t) (h : env.reach N p = some s) :
    env.reach (Function.update N t x) p = some s := by
  obtain ⟨hne, hlead⟩ := reach_eq h
  rw [reach, if_neg hne, lead_update ht hlead]

end SecretEnv

/-! ## What the states have in common -/

namespace SecretDisk

variable {env : SecretEnv} {N₀ N N' : Nodes} {way : List Spot} {s : Spot} {p q tmp : Path}
  {d d' : SecretDisk} {mode : UInt32} {data bytes : List UInt8}

/-- A file with bytes in it that was not like that before has its mode. -/
def Secret (N₀ N : Nodes) : Prop := ∀ s mode bytes, N s = some (.file mode bytes) →
  N₀ s = some (.file mode bytes) ∨ bytes = [] ∨ mode &&& 0o777 = 0o600

/-- Only directories have been made, on the way. -/
structure Prepared (N₀ N : Nodes) (way : List Spot) : Prop where
  files : ∀ s mode bytes, N s = some (.file mode bytes) ↔ N₀ s = some (.file mode bytes)
  dirs : ∀ s, IsDir N₀ s → IsDir N s
  absent : ∀ s, N₀ s = none → s ∉ way → N s = none

theorem prepared_refl (N : Nodes) (way : List Spot) : Prepared N N way :=
  ⟨fun _ _ _ => Iff.rfl, fun _ h => h, fun _ h _ => h⟩

theorem Prepared.secret (h : Prepared N₀ N way) : Secret N₀ N :=
  fun s mode bytes hs => .inl ((h.files s mode bytes).mp hs)

theorem Secret.remove (h : Secret N₀ N) (s : Spot) : Secret N₀ (Function.update N s none) := by
  intro t mode bytes ht
  by_cases heq : t = s
  · rw [heq, Function.update_self] at ht
    cases ht
  · rw [Function.update_of_ne heq] at ht
    exact h t mode bytes ht

theorem Secret.grown (h : Secret N₀ N) (s : Spot) (hb : bytes = [] ∨ mode &&& 0o777 = 0o600) :
    Secret N₀ (grown N s mode bytes) := by
  intro t mode' bytes' ht
  unfold SecretDisk.grown at ht
  by_cases heq : t = s
  · rw [heq, Function.update_self] at ht
    cases ht
    exact .inr hb
  · rw [Function.update_of_ne heq] at ht
    exact h t mode' bytes' ht

theorem secret_next (hseen : ∀ M ∈ d.seen, Secret N₀ M) (hN : Secret N₀ N) :
    ∀ M ∈ (d.next N).seen, Secret N₀ M := by
  intro M hM
  obtain hM | hM := List.mem_append.mp hM
  · exact hseen M hM
  · rw [List.mem_singleton.mp hM]
    exact hN

/-! ## The directory -/

theorem mem_visits_take {ps : List Part} {k : Nat} {u : Spot} (h : u ∈ visits s (ps.take k)) :
    u ∈ visits s ps := by
  induction ps generalizing s k with
  | nil => rwa [List.take_nil] at h
  | cons x ps ih =>
      cases k with
      | zero =>
          rw [List.mem_singleton.mp h]
          exact first_mem_visits s (x :: ps)
      | succ k =>
          obtain rfl | h := List.mem_cons.mp h
          · exact first_mem_visits _ (x :: ps)
          · exact List.mem_cons_of_mem s (ih h)

theorem Prepared.made (h : Prepared N₀ N way) {ps : List Part} (hway : ∀ u ∈ visits s ps, u ∈ way) :
    Prepared N₀ (makeDirs mode N s ps).2 way where
  files u m bytes := by
    rw [← h.files]
    obtain hsame | ⟨hnone, hdir, -⟩ := makeDirs_kept mode N s ps u
    · rw [hsame]
    · rw [hnone, hdir]
      simp
  dirs u hu := makeDirs_isDir (h.dirs u hu)
  absent u hu hnot := by
    obtain hsame | ⟨-, -, hmem⟩ := makeDirs_kept mode N s ps u
    · rw [hsame]
      exact h.absent u hu hnot
    · exact absurd (hway u (List.mem_of_mem_tail hmem)) hnot

/-- The mode of a directory does not matter. -/
theorem Prepared.chmod (h : Prepared N₀ N way) (hdir : IsDir N s) :
    Prepared N₀ (Function.update N s (some (.dir mode))) way where
  files u m bytes := by
    rw [← h.files]
    obtain ⟨m', hs⟩ := hdir
    by_cases heq : u = s
    · rw [heq, Function.update_self, hs]
      simp
    · rw [Function.update_of_ne heq]
  dirs u hu := by
    by_cases heq : u = s
    · exact ⟨mode, by rw [heq, Function.update_self]⟩
    · obtain ⟨m', hu'⟩ := h.dirs u hu
      exact ⟨m', by rw [Function.update_of_ne heq, hu']⟩
  absent u hu hnot := by
    have hnone := h.absent u hu hnot
    obtain ⟨m', hs⟩ := hdir
    have heq : u ≠ s := by
      intro heq
      rw [heq, hs] at hnone
      cases hnone
    rw [Function.update_of_ne heq, hnone]

/-- The call has made directories at most. -/
structure Safe (N₀ : Nodes) (way : List Spot) (d : SecretDisk) : Prop where
  prepared : Prepared N₀ d.nodes way
  seen : ∀ M ∈ d.seen, Secret N₀ M

theorem Safe.next (h : Safe N₀ way d) (hN : Prepared N₀ N way) : Safe N₀ way (d.next N) :=
  ⟨hN, secret_next h.seen hN.secret⟩

theorem secured_dir (mode : UInt32) : ∃ mode', secured (.dir mode) = .dir mode' := by
  rw [secured]
  split
  · exact ⟨_, rfl⟩
  · exact ⟨_, rfl⟩

theorem secured_file (mode : UInt32) (bytes : List UInt8) :
    ∃ mode', secured (.file mode bytes) = .file mode' bytes ∧ mode' &&& 0o777 = 0o600 := by
  rw [secured]
  split
  · rename_i hmode
    exact ⟨mode, rfl, hmode⟩
  · exact ⟨0o600, rfl, by decide⟩

theorem safe_createDirAll (h : Safe N₀ way d) (hway : ∀ u ∈ visits (env.start q) q.parts, u ∈ way)
    (hstart : IsDir d.nodes (env.start q)) :
    Safe N₀ way (answer env (.createDirAll q) d).2
      ∧ ((answer env (.createDirAll q) d).1 = true → q ≠ ⟨.plain, []⟩ →
        IsDir (answer env (.createDirAll q) d).2.nodes (env.dest q)) := by
  unfold answer
  dsimp only
  split
  · rename_i hempty
    exact ⟨h.next h.prepared, fun _ hne => absurd hempty hne⟩
  · split
    · refine ⟨h.next (h.prepared.made hway), fun hmade _ => ?_⟩
      exact (makeDirs_opens hstart hmade).last
    · refine ⟨h.next (h.prepared.made fun u hu => hway u (mem_visits_take hu)), fun hmade => ?_⟩
      cases hmade

theorem safe_secure (h : Safe N₀ way d) (hdir : q ≠ ⟨.plain, []⟩ → IsDir d.nodes (env.dest q)) :
    Safe N₀ way (answer env (.secure q) d).2 := by
  unfold answer
  dsimp only
  split
  · rename_i hreach
    split
    · rename_i node hnode
      obtain ⟨mode, hdirAt⟩ := hdir (env.reach_eq hreach).1
      rw [← SecretEnv.reach_dest hreach, hnode] at hdirAt
      cases hdirAt
      obtain ⟨mode', hsecured⟩ := secured_dir mode
      rw [hsecured]
      exact h.next (h.prepared.chmod ⟨mode, hnode⟩)
    · exact h.next h.prepared
  · exact h.next h.prepared

section

variable {α : Type}

theorem run_pathExists (d : SecretDisk) (p : Path) (k : Bool → PeerProg α) :
    run env (do let present : Bool ← (PeerOp.pathExists p).perform; k present) d
      = run env (k (answer env (.pathExists p) d).1) (answer env (.pathExists p) d).2 := rfl

theorem run_createDirAll (d : SecretDisk) (p : Path) (k : Bool → PeerProg α) :
    run env (do let made : Bool ← (PeerOp.createDirAll p).perform; k made) d
      = run env (k (answer env (.createDirAll p) d).1) (answer env (.createDirAll p) d).2 := rfl

theorem run_secure (d : SecretDisk) (p : Path) (k : Bool → PeerProg α) :
    run env (do let secured : Bool ← (PeerOp.secure p).perform; k secured) d
      = run env (k (answer env (.secure p) d).1) (answer env (.secure p) d).2 := rfl

theorem run_createFile (d : SecretDisk) (p : Path) (k : Bool → PeerProg α) :
    run env (do let created : Bool ← (PeerOp.createFile p).perform; k created) d
      = run env (k (answer env (.createFile p) d).1) (answer env (.createFile p) d).2 := rfl

theorem run_syncAll (d : SecretDisk) (p : Path) (k : Bool → PeerProg α) :
    run env (do let synced : Bool ← (PeerOp.syncAll p).perform; k synced) d
      = run env (k (answer env (.syncAll p) d).1) (answer env (.syncAll p) d).2 := rfl

theorem run_writeAll (d : SecretDisk) (p : Path) (data : List UInt8) (k : Bool → PeerProg α) :
    run env (do let written : Bool ← (PeerOp.writeAll p data).perform; k written) d
      = run env (k (answer env (.writeAll p data) d).1) (answer env (.writeAll p data) d).2 := rfl

theorem run_random (d : SecretDisk) (k : { s : List Char // '/' ∉ s } → PeerProg α) :
    run env (do let suffix : { s : List Char // '/' ∉ s } ← PeerOp.random.perform; k suffix) d
      = run env (k env.random) (d.next d.nodes) := rfl

theorem run_removeFile (d : SecretDisk) (p : Path) (k : Removal → PeerProg α) :
    run env (do let removal : Removal ← (PeerOp.removeFile p).perform; k removal) d
      = run env (k (answer env (.removeFile p) d).1) (answer env (.removeFile p) d).2 := rfl

theorem run_bind {β : Type} (x : PeerProg β) (k : β → PeerProg α) (d : SecretDisk) :
    run env (x >>= k) d = run env (k (run env x d).1) (run env x d).2 := Prog.eval_bind x k d

theorem run_rename (d : SecretDisk) (p q : Path) (k : Bool → PeerProg α) :
    run env (do let renamed : Bool ← (PeerOp.rename p q).perform; k renamed) d
      = run env (k (answer env (.rename p q) d).1) (answer env (.rename p q) d).2 := rfl

end

/-- Whatever happens, it is directories that are made. -/
theorem safe_ensureDirSecure (h : Safe N₀ way d) (hway : ∀ u ∈ visits (env.start q) q.parts, u ∈ way)
    (hstart : IsDir d.nodes (env.start q)) : Safe N₀ way (run env (ensureDirSecure q) d).2 := by
  have hlook : Safe N₀ way (answer env (.pathExists q) d).2 := h.next h.prepared
  rw [ensureDirSecure, run_pathExists]
  split
  · exact hlook
  · obtain ⟨hmade, hdir⟩ := safe_createDirAll hlook hway hstart
    rw [ensureDirSecureTighten, run_createDirAll]
    split
    · rename_i hworked
      exact safe_secure hmade fun hne => hdir hworked hne
    · exact hmade

/-! ## The temporary file -/

/-- The temporary file has been made, and is all that has. -/
structure Holds (env : SecretEnv) (N : Nodes) (tmp : Path) (d : SecretDisk) (mode : UInt32)
    (bytes : List UInt8) : Prop where
  reach : env.reach N tmp = some (env.dest tmp)
  free : ¬ IsDir N (env.dest tmp)
  nodes : d.nodes = grown N (env.dest tmp) mode bytes

theorem Holds.reached (h : Holds env N tmp d mode bytes) : env.reach d.nodes tmp = some (env.dest tmp) := by
  rw [h.nodes]
  exact SecretEnv.reach_update h.free h.reach

theorem Holds.file (h : Holds env N tmp d mode bytes) : d.nodes (env.dest tmp) = some (.file mode bytes) := by
  rw [h.nodes, grown, Function.update_self]

/-- Another file in its place. -/
theorem Holds.again (h : Holds env N tmp d mode bytes) {mode' : UInt32} {bytes' : List UInt8}
    (hn : d'.nodes = grown d.nodes (env.dest tmp) mode' bytes') : Holds env N tmp d' mode' bytes' where
  reach := h.reach
  free := h.free
  nodes := by
    rw [hn, h.nodes]
    exact Function.update_idem ..

theorem createFile_cases (env : SecretEnv) (d : SecretDisk) (tmp : Path) :
    ((answer env (.createFile tmp) d).1 = false ∧ (answer env (.createFile tmp) d).2 = d.next d.nodes)
      ∨ ∃ mode, (answer env (.createFile tmp) d).1 = true
        ∧ (answer env (.createFile tmp) d).2 = d.next (grown d.nodes (env.dest tmp) mode [])
        ∧ env.reach d.nodes tmp = some (env.dest tmp) ∧ ¬ IsDir d.nodes (env.dest tmp) := by
  unfold answer
  dsimp only
  split
  · rename_i s hreach
    have hs := SecretEnv.reach_dest hreach
    subst hs
    split
    · exact .inl ⟨rfl, rfl⟩
    · rename_i mode old hnode
      exact .inr ⟨mode, rfl, rfl, hreach, fun ⟨m, hdir⟩ => by rw [hdir] at hnode; cases hnode⟩
    · rename_i hnode
      exact .inr ⟨env.fileMode, rfl, rfl, hreach, fun ⟨m, hdir⟩ => by rw [hdir] at hnode; cases hnode⟩
  · exact .inl ⟨rfl, rfl⟩

theorem Holds.secure (h : Holds env N tmp d mode bytes) :
    ((answer env (.secure tmp) d).1 = false ∧ (answer env (.secure tmp) d).2 = d.next d.nodes)
      ∨ ∃ mode', (answer env (.secure tmp) d).1 = true ∧ mode' &&& 0o777 = 0o600
        ∧ (answer env (.secure tmp) d).2 = d.next (grown d.nodes (env.dest tmp) mode' bytes) := by
  unfold answer
  dsimp only
  split
  · rename_i s hs
    have hdest := SecretEnv.reach_dest hs
    subst hdest
    split
    · rename_i node hnode
      cases h.file.symm.trans hnode
      obtain ⟨mode', hsecured, hmode⟩ := secured_file mode bytes
      rw [hsecured]
      exact .inr ⟨mode', rfl, hmode, rfl⟩
    · exact .inl ⟨rfl, rfl⟩
  · exact .inl ⟨rfl, rfl⟩

theorem Holds.writeAll (h : Holds env N tmp d mode []) (data : List UInt8) :
    ((answer env (.writeAll tmp data) d).1 = false
        ∧ ∃ part, (answer env (.writeAll tmp data) d).2 = d.wrote (env.dest tmp) mode [] part)
      ∨ (answer env (.writeAll tmp data) d).1 = true
        ∧ (answer env (.writeAll tmp data) d).2 = d.wrote (env.dest tmp) mode [] data := by
  unfold answer
  dsimp only
  rw [h.reached]
  dsimp only
  rw [h.file]
  cases env.fate d.tick with
  | fails kept => exact .inl ⟨rfl, _, rfl⟩
  | works => exact .inr ⟨rfl, rfl⟩

theorem Holds.rename (h : Holds env N tmp d mode bytes) (p : Path) :
    ((answer env (.rename tmp p) d).1 = false ∧ (answer env (.rename tmp p) d).2 = d.next d.nodes)
      ∨ (answer env (.rename tmp p) d).1 = true ∧ (answer env (.rename tmp p) d).2
        = d.next (grown (Function.update d.nodes (env.dest tmp) none) (env.dest p) mode bytes) := by
  unfold answer
  dsimp only
  rw [h.reached]
  split
  · rename_i s t hs hreach
    cases hs
    have ht := SecretEnv.reach_dest hreach
    subst ht
    split
    · exact .inl ⟨rfl, rfl⟩
    · rename_i mode' data' hfile _
      cases h.file.symm.trans hfile
      exact .inr ⟨rfl, rfl⟩
    · exact .inl ⟨rfl, rfl⟩
  · exact .inl ⟨rfl, rfl⟩

theorem secret_wrote (hseen : ∀ M ∈ d.seen, Secret N₀ M) (hN : Secret N₀ d.nodes)
    (hmode : mode &&& 0o777 = 0o600) (s : Spot)
    (old bytes : List UInt8) : ∀ M ∈ (d.wrote s mode old bytes).seen, Secret N₀ M := by
  intro M hM
  obtain hM | hM := List.mem_append.mp hM
  · exact hseen M hM
  · obtain ⟨front, -, rfl⟩ := List.mem_map.mp hM
    exact hN.grown s (.inr hmode)

theorem Holds.secret (h : Holds env N tmp d mode bytes) (hN : Secret N₀ N)
    (hb : bytes = [] ∨ mode &&& 0o777 = 0o600) : Secret N₀ d.nodes := by
  rw [h.nodes]
  exact hN.grown (env.dest tmp) hb

/-- What becomes of the temporary file: it is the destination in the end, or it stays. No state on
the way shows a byte. -/
structure Ends (env : SecretEnv) (N₀ N : Nodes) (tmp p : Path) (data : List UInt8)
    (r : Except PeerError Unit × SecretDisk) : Prop where
  done : (r.1 = .ok () ∧ ∃ mode, mode &&& 0o777 = 0o600
      ∧ r.2.nodes = grown (Function.update N (env.dest tmp) none) (env.dest p) mode data)
    ∨ ∃ e, r.1 = .error e ∧ (r.2.nodes = N ∨ ∃ mode bytes, Holds env N tmp r.2 mode bytes)
  seen : ∀ M ∈ r.2.seen, Secret N₀ M
  last : Secret N₀ r.2.nodes

/-- From the write on. -/
theorem Holds.write_ends (h : Holds env N tmp d mode []) (hmode : mode &&& 0o777 = 0o600) (hN : Secret N₀ N)
    (hseen : ∀ M ∈ d.seen, Secret N₀ M) (p : Path) (data : List UInt8) :
    Ends env N₀ N tmp p data (run env (do
      let written : Bool ← (PeerOp.writeAll tmp data).perform
      if written then
        let synced : Bool ← (PeerOp.syncAll tmp).perform
        if synced then
          let renamed : Bool ← (PeerOp.rename tmp p).perform
          pure (if renamed then .ok () else .error (.storage .fileWrite p))
        else pure (.error (.storage .fileWrite tmp))
      else pure (.error (.storage .fileWrite tmp))) d) := by
  have hsafe := h.secret hN (.inl rfl)
  rw [run_writeAll]
  obtain ⟨hfails, part, hwrote⟩ | ⟨hworks, hwrote⟩ := h.writeAll data
  · rw [hfails, hwrote, if_neg Bool.false_ne_true]
    have hpart : Holds env N tmp (d.wrote (env.dest tmp) mode [] part) mode part := h.again rfl
    exact ⟨.inr ⟨_, rfl, .inr ⟨mode, part, hpart⟩⟩, secret_wrote hseen hsafe hmode _ _ _,
      hpart.secret hN (.inr hmode)⟩
  rw [hworks, hwrote, if_pos rfl, run_syncAll]
  have hfull : Holds env N tmp (d.wrote (env.dest tmp) mode [] data) mode data := h.again rfl
  have hshown := secret_wrote hseen hsafe hmode (env.dest tmp) [] data
  generalize d.wrote (env.dest tmp) mode [] data = d at hfull hshown
  have hfull' : Holds env N tmp (d.next d.nodes) mode data := ⟨hfull.reach, hfull.free, hfull.nodes⟩
  have hshown' := secret_next hshown (hfull.secret hN (.inr hmode))
  show Ends env N₀ N tmp p data
      (run env (if decide (env.fate d.tick = .works) = true then _ else _) (d.next d.nodes))
  split
  · rw [run_rename]
    obtain ⟨hfails, hsame⟩ | ⟨hworks, hrenamed⟩ := hfull'.rename p
    · rw [hfails, hsame]
      exact ⟨.inr ⟨_, rfl, .inr ⟨mode, data, hfull'.reach, hfull'.free, hfull'.nodes⟩⟩,
        secret_next hshown' (hfull'.secret hN (.inr hmode)), hfull'.secret hN (.inr hmode)⟩
    · have hnodes : Function.update (d.next d.nodes).nodes (env.dest tmp) none
          = Function.update N (env.dest tmp) none := by
        rw [hfull'.nodes]
        exact Function.update_idem ..
      rw [hworks, hrenamed, hnodes]
      have hdest : Secret N₀ (grown (Function.update N (env.dest tmp) none) (env.dest p) mode data) :=
        (hN.remove (env.dest tmp)).grown (env.dest p) (.inr hmode)
      exact ⟨.inl ⟨rfl, mode, hmode, rfl⟩, secret_next hshown' hdest, hdest⟩
  · exact ⟨.inr ⟨_, rfl, .inr ⟨mode, data, hfull'⟩⟩, hshown', hfull'.secret hN (.inr hmode)⟩

/-- The closure, whatever fails. -/
theorem writeTmp_ends (hseen : ∀ M ∈ d.seen, Secret N₀ M) (hN : Secret N₀ d.nodes) (tmp p : Path)
    (data : List UInt8) :
    Ends env N₀ d.nodes tmp p data (run env (writeTmp tmp p data) d) := by
  rw [writeTmp, run_createFile]
  obtain ⟨hfails, hsame⟩ | ⟨mode, hworks, hmade, hreach, hfree⟩ := createFile_cases env d tmp
  · rw [hfails, hsame, if_neg Bool.false_ne_true]
    exact ⟨.inr ⟨_, rfl, .inl rfl⟩, secret_next hseen hN, hN⟩
  rw [hworks, hmade, if_pos rfl, run_secure]
  -- the file is there, and has no bytes
  have hnew : Holds env d.nodes tmp (d.next (grown d.nodes (env.dest tmp) mode [])) mode [] :=
    ⟨hreach, hfree, rfl⟩
  have hshown : ∀ M ∈ (d.next (grown d.nodes (env.dest tmp) mode [])).seen, Secret N₀ M :=
    secret_next hseen (hnew.secret hN (.inl rfl))
  generalize d.next (grown d.nodes (env.dest tmp) mode []) = d₁ at hnew hshown
  obtain ⟨hfails, hsame⟩ | ⟨mode', hworks, hmode, hsecured⟩ := hnew.secure
  · rw [hfails, hsame, if_neg Bool.false_ne_true]
    exact ⟨.inr ⟨_, rfl, .inr ⟨mode, [], hnew.reach, hnew.free, hnew.nodes⟩⟩,
      secret_next hshown (hnew.secret hN (.inl rfl)), hnew.secret hN (.inl rfl)⟩
  rw [hworks, hsecured, if_pos rfl]
  have hempty : Holds env d.nodes tmp (d₁.next (grown d₁.nodes (env.dest tmp) mode' [])) mode' [] :=
    hnew.again rfl
  exact hempty.write_ends hmode hN (secret_next hshown (hempty.secret hN (.inl rfl))) p data

/-- What is left after the file has been taken away again. -/
theorem removeFile_left (env : SecretEnv) (d : SecretDisk) (p : Path) :
    (answer env (.removeFile p) d).2 = d.next d.nodes
      ∨ (answer env (.removeFile p) d).2 = d.next (Function.update d.nodes (env.dest p) none) := by
  unfold answer
  dsimp only
  split
  · rename_i s hreach
    have hs := SecretEnv.reach_dest hreach
    subst hs
    split
    · exact .inr rfl
    · exact .inl rfl
    · exact .inl rfl
  · exact .inl rfl
  · exact .inl rfl

theorem Holds.removeFile (h : Holds env N tmp d mode bytes) (hworks : env.removes = true) :
    (answer env (.removeFile tmp) d).2 = d.next (Function.update N (env.dest tmp) none) := by
  have hnodes : Function.update d.nodes (env.dest tmp) none = Function.update N (env.dest tmp) none := by
    rw [h.nodes]
    exact Function.update_idem ..
  unfold answer
  dsimp only
  rw [hworks, h.reached]
  dsimp only
  rw [h.file]
  dsimp only
  rw [hnodes]

/-- The states at the end of a call. -/
structure Called (env : SecretEnv) (N₀ N : Nodes) (tmp p : Path) (data : List UInt8)
    (r : Except PeerError Unit × SecretDisk) : Prop where
  done : (r.1 = .ok () ∧ ∃ mode, mode &&& 0o777 = 0o600
      ∧ r.2.nodes = grown (Function.update N (env.dest tmp) none) (env.dest p) mode data)
    ∨ (∃ e, r.1 = .error e) ∧ (r.2.nodes = N ∨ r.2.nodes = Function.update N (env.dest tmp) none
      ∨ env.removes = false ∧ ∃ mode bytes, r.2.nodes = grown N (env.dest tmp) mode bytes)
  seen : ∀ M ∈ r.2.seen, Secret N₀ M

/-- The closure, and the removal after an error. -/
theorem cleanUp_called (hseen : ∀ M ∈ d.seen, Secret N₀ M) (hN : Secret N₀ d.nodes) (tmp p : Path)
    (data : List UInt8) :
    Called env N₀ d.nodes tmp p data (run env (do
      match ← writeTmp tmp p data with
      | .ok _ => pure (.ok ())
      | .error e =>
          let _ : Removal ← (PeerOp.removeFile tmp).perform
          pure (.error e)) d) := by
  have hends : Ends env N₀ d.nodes tmp p data (run env (writeTmp tmp p data) d) :=
    writeTmp_ends hseen hN tmp p data
  rw [run_bind]
  generalize run env (writeTmp tmp p data) d = r at hends
  obtain ⟨hdone, hshown, hlast⟩ := hends
  obtain ⟨hok, mode, hmode, hnodes⟩ | ⟨e, herr, hleft⟩ := hdone
  · rw [hok]
    exact ⟨.inl ⟨rfl, mode, hmode, hnodes⟩, hshown⟩
  rw [herr]
  dsimp only
  rw [run_removeFile]
  obtain hsame | ⟨mode, bytes, hholds⟩ := hleft
  · obtain hremoved | hremoved := removeFile_left env r.2 tmp
    · rw [hremoved]
      exact ⟨.inr ⟨⟨e, rfl⟩, .inl hsame⟩, secret_next hshown hlast⟩
    · rw [hremoved, hsame]
      exact ⟨.inr ⟨⟨e, rfl⟩, .inr (.inl rfl)⟩, secret_next hshown (hN.remove _)⟩
  · cases hworks : env.removes with
    | true =>
        rw [hholds.removeFile hworks]
        exact ⟨.inr ⟨⟨e, rfl⟩, .inr (.inl rfl)⟩, secret_next hshown (hN.remove _)⟩
    | false =>
        obtain hremoved | hremoved := removeFile_left env r.2 tmp
        · rw [hremoved]
          exact ⟨.inr ⟨⟨e, rfl⟩, .inr (.inr ⟨hworks, mode, bytes, hholds.nodes⟩)⟩, secret_next hshown hlast⟩
        · have hnodes : Function.update r.2.nodes (env.dest tmp) none
              = Function.update d.nodes (env.dest tmp) none := by
            rw [hholds.nodes]
            exact Function.update_idem ..
          rw [hremoved, hnodes]
          exact ⟨.inr ⟨⟨e, rfl⟩, .inr (.inl rfl)⟩, secret_next hshown (hN.remove _)⟩

/-- The whole call. -/
theorem atomicWriteSecure_called (env : SecretEnv) (t : Tree) (p : Path) (data : List UInt8)
    (hcwd : IsDir t.nodes env.cwd) :
    ∃ way N, Prepared t.nodes N way
      ∧ (∀ u ∈ way, ∃ q, p.parent = some q ∧ u ∈ visits (env.start q) q.parts)
      ∧ Called env t.nodes N (p.setFileName (tmpName p.fileName env.random)) p data
        (run env (atomicWriteSecure p data) (.before t)) := by
  have hbefore (way : List Spot) : Safe t.nodes way (.before t) :=
    ⟨prepared_refl t.nodes way, fun M hM => nomatch hM⟩
  unfold atomicWriteSecure
  cases hparent : p.parent with
  | none =>
      exact ⟨[], t.nodes, prepared_refl _ _, (fun u hu => nomatch hu),
        .inr ⟨⟨_, rfl⟩, .inl rfl⟩, (fun M hM => nomatch hM)⟩
  | some q =>
      have hstart : IsDir t.nodes (env.start q) := by
        unfold SecretEnv.start
        split
        · exact t.rooted
        · exact hcwd
      have hsafe := safe_ensureDirSecure (hbefore (visits (env.start q) q.parts)) (fun u hu => hu) hstart
      dsimp only
      rw [run_bind]
      generalize run env (ensureDirSecure q) (.before t) = r at hsafe
      refine ⟨_, r.2.nodes, hsafe.prepared, fun u hu => ⟨q, rfl, hu⟩, ?_⟩
      cases r.1 with
      | error e => exact ⟨.inr ⟨⟨e, rfl⟩, .inl rfl⟩, hsafe.seen⟩
      | ok _ =>
          have hnext := hsafe.next hsafe.prepared
          exact cleanUp_called hnext.seen hnext.prepared.secret _ p data

end SecretDisk

namespace Proof

open SecretDisk

/--
**A secret is written whole or not at all.**

Whatever fails, and how far it gets: after success the destination holds exactly the data with
mode 0600; after an error every file there was is what it was, at the destination too, and
nothing is there where nothing was, unless the directories that were missing above it go through
it. If removing works no file is left that was not there before. And no state of the call
has a byte of the data in a file without mode 0600.
-/
theorem atomic_write_survives (env : SecretEnv) (t : Tree) (p : Path) (data : List UInt8)
    (hcwd : IsDir t.nodes env.cwd) (r : Except PeerError Unit) (d : SecretDisk)
    (hrun : run env (atomicWriteSecure p data) (.before t) = (r, d)) :
    (r = .ok () → ∃ mode, mode &&& 0o777 = 0o600 ∧ d.nodes (env.dest p) = some (.file mode data))
      ∧ ((∃ e, r = .error e) →
        (∀ mode bytes, d.nodes (env.dest p) = some (.file mode bytes) ↔
          t.nodes (env.dest p) = some (.file mode bytes))
        ∧ (t.nodes (env.dest p) = none → d.nodes (env.dest p) = none
          ∨ ∃ q, p.parent = some q ∧ env.dest p ∈ visits (env.start q) q.parts))
      ∧ (env.removes = true → ∀ s mode bytes, d.nodes s = some (.file mode bytes) →
        t.nodes s = some (.file mode bytes) ∨ (r = .ok () ∧ s = env.dest p))
      ∧ ∀ M ∈ d.seen, ∀ s mode bytes, M s = some (.file mode bytes) →
        t.nodes s = some (.file mode bytes) ∨ bytes = [] ∨ mode &&& 0o777 = 0o600 := by
  obtain ⟨way, N, hprep, hway, hcalled⟩ := atomicWriteSecure_called env t p data hcwd
  rw [hrun] at hcalled
  obtain ⟨hdone, hseen⟩ := hcalled
  have hne : env.dest p ≠ env.dest (p.setFileName (tmpName p.fileName env.random)) :=
    (SecretEnv.dest_setFileName p env.random).symm
  generalize env.dest (p.setFileName (tmpName p.fileName env.random)) = tmp at hdone hne
  obtain ⟨hok, mode, hmode, hnodes⟩ | ⟨⟨e, herr⟩, hleft⟩ := hdone
  · refine ⟨fun _ => ⟨mode, hmode, ?_⟩, (fun ⟨e, herr⟩ => nomatch hok.symm.trans herr),
      fun _ s m bytes hs => ?_, hseen⟩
    · rw [hnodes, grown, Function.update_self]
    · by_cases hdest : s = env.dest p
      · exact .inr ⟨hok, hdest⟩
      · -- the temporary file is not there any more
        rw [hnodes, grown, Function.update_of_ne hdest] at hs
        by_cases htmp : s = tmp
        · rw [htmp, Function.update_self] at hs
          cases hs
        · rw [Function.update_of_ne htmp] at hs
          exact .inl ((hprep.files s m bytes).mp hs)
  · have hdest : d.nodes (env.dest p) = N (env.dest p) := by
      obtain hsame | hremoved | ⟨-, mode, bytes, hkept⟩ := hleft
      · rw [hsame]
      · rw [hremoved, Function.update_of_ne hne]
      · rw [hkept, grown, Function.update_of_ne hne]
    refine ⟨fun hok => (nomatch herr.symm.trans hok), fun _ => ⟨fun m bytes => ?_, fun hnone => ?_⟩,
      fun hremoves s m bytes hs => .inl ((hprep.files s m bytes).mp ?_), hseen⟩
    · rw [hdest]
      exact hprep.files (env.dest p) m bytes
    · by_cases hmem : env.dest p ∈ way
      · exact .inr (hway _ hmem)
      · exact .inl (hdest.trans (hprep.absent _ hnone hmem))
    · obtain hsame | hremoved | ⟨hfails, -⟩ := hleft
      · rwa [hsame] at hs
      · rw [hremoved] at hs
        by_cases htmp : s = tmp
        · rw [htmp, Function.update_self] at hs
          cases hs
        · rwa [Function.update_of_ne htmp] at hs
      · rw [hremoves] at hfails
        cases hfails

/-- Nothing but the root. -/
def bareTree : Tree where
  nodes s := if s = [] then some (.dir 0o755) else none
  rooted := ⟨0o755, rfl⟩
  grounded q n h := by simp at h

/-- Nothing fails. -/
def workingEnv : SecretEnv where
  cwd := []
  fileMode := 0o644
  dirMode := 0o755
  fate _ := .works
  removes := true
  random := ⟨['7'], by decide⟩

def keyName : Name := ⟨['k'], by decide⟩

/-- A first write of `/k`. -/
theorem atomic_write_survives_first :
    ∃ mode, mode &&& 0o777 = 0o600
      ∧ (SecretDisk.run workingEnv (atomicWriteSecure ⟨.rootDir, [.normal keyName]⟩ [7])
        (.before bareTree)).2.nodes
          [keyName] = some (.file mode [7]) :=
  (atomic_write_survives workingEnv bareTree ⟨.rootDir, [.normal keyName]⟩ [7] ⟨0o755, rfl⟩ _ _ rfl).1
    (by decide +kernel)

/-- `/k/../k` where `/k` is missing: after the error it is there, as a directory. -/
theorem directory_at_destination :
    ¬ ∀ (env : SecretEnv) (t : Tree) (p : Path) (data : List UInt8) (e : PeerError) (d : SecretDisk),
      IsDir t.nodes env.cwd → SecretDisk.run env (atomicWriteSecure p data) (.before t) = (.error e, d) →
      t.nodes (env.dest p) = none → d.nodes (env.dest p) = none := by
  intro hall
  have hnone := hall workingEnv bareTree ⟨.rootDir, [.normal keyName, .parent, .normal keyName]⟩ [7]
    (.storage .fileWrite ⟨.rootDir, [.normal keyName, .parent, .normal keyName]⟩) _ ⟨0o755, rfl⟩ rfl rfl
  revert hnone
  decide +kernel

end Proof

end Irosh
