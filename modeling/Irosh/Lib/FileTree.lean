import Mathlib.Data.List.Infix
import Mathlib.Data.List.Nodup
import Mathlib.Logic.Function.Basic
import Irosh.Lib.UnixPath

/-!
# A tree of files

Directories and regular files by the names that lead to them, without links. Looking a
path up goes from directory to directory, and a `..` goes back to where it came from;
where a path leads lexically (`spot`) is where it leads if every directory on the way is
there.

`makeDirs` is `mkdir -p`: it makes every directory on the way that is missing, also one
that a later `..` leaves again.
-/

namespace FileTree

open UnixPath

/-- What is at a place, with its permission bits. -/
inductive FileNode where
  | dir (mode : UInt32)
  | file (mode : UInt32) (data : List UInt8)
  deriving DecidableEq, Repr

/-- A place: the names that lead there. -/
abbrev Spot := List Name

abbrev Nodes := Spot → Option FileNode

def FileNode.withMode (mode : UInt32) : FileNode → FileNode
  | .dir _ => .dir mode
  | .file _ data => .file mode data

/-- With the permission bits of its mode only. -/
def FileNode.masked : FileNode → FileNode
  | .dir mode => .dir (mode &&& 0o777)
  | .file mode data => .file (mode &&& 0o777) data

def IsDir (N : Nodes) (s : Spot) : Prop := ∃ mode, N s = some (.dir mode)

/-- Nothing is anywhere but in a directory, and the root is one. -/
structure Tree where
  nodes : Nodes
  rooted : IsDir nodes []
  grounded : ∀ q n, nodes (q ++ [n]) ≠ none → IsDir nodes q

/-- Below a place where nothing is there is nothing. -/
theorem Tree.none_below (t : Tree) {s : Spot} (hs : t.nodes s = none) (q : Spot) :
    t.nodes (s ++ q) = none := by
  induction q using List.reverseRecOn with
  | nil =>
      rw [List.append_nil]
      exact hs
  | append_singleton q n ih =>
      by_contra hne
      rw [← List.append_assoc] at hne
      obtain ⟨mode, hdir⟩ := t.grounded _ n hne
      rw [ih] at hdir
      cases hdir

/-- Above something there are directories. -/
theorem Tree.isDir_above (t : Tree) {r u : Spot} {n : Name} (h : t.nodes (r ++ u ++ [n]) ≠ none) :
    IsDir t.nodes r := by
  induction u using List.reverseRecOn generalizing n with
  | nil =>
      rw [List.append_nil] at h
      exact t.grounded r n h
  | append_singleton u m ih =>
      obtain ⟨mode, hdir⟩ := t.grounded _ n h
      have hsome : t.nodes (r ++ u ++ [m]) ≠ none := by
        rw [List.append_assoc, hdir]
        simp
      exact ih hsome

/-! ## Going along a path -/

/-- One component further. -/
def goTo (s : Spot) : Part → Spot
  | .parent => s.dropLast
  | .normal n => s ++ [n]

/-- Where the components lead, read lexically. -/
def spotFrom (s : Spot) (ps : List Part) : Spot := ps.foldl goTo s

def spot (ps : List Part) : Spot := spotFrom [] ps

/-- Every place on the way, with the first and the last. -/
def visits (s : Spot) : List Part → List Spot
  | [] => [s]
  | p :: ps => s :: visits (goTo s p) ps

/-- Where a look-up ends. -/
inductive Led where
  | at (s : Spot)
  /-- Something on the way is not there. -/
  | missing
  /-- Something on the way is a file. -/
  | blocked
  deriving DecidableEq

def lead (N : Nodes) (s : Spot) : List Part → Led
  | [] => .at s
  | p :: ps =>
      match N s with
      | some (.dir _) => lead N (goTo s p) ps
      | some (.file _ _) => .blocked
      | none => .missing

/-- Makes the directories on the way that are missing. -/
def makeDirs (mode : UInt32) (N : Nodes) (s : Spot) : List Part → Bool × Nodes
  | [] => (true, N)
  | p :: ps =>
      match N (goTo s p) with
      | some (.dir _) => makeDirs mode N (goTo s p) ps
      | some (.file _ _) => (false, N)
      | none => makeDirs mode (Function.update N (goTo s p) (some (.dir mode))) (goTo s p) ps

variable {N N' : Nodes} {s t : Spot} {ps : List Part} {x : Part} {mode : UInt32}

@[simp] theorem spotFrom_nil (s : Spot) : spotFrom s [] = s := rfl

theorem spotFrom_append (s : Spot) (ps qs : List Part) :
    spotFrom s (ps ++ qs) = spotFrom (spotFrom s ps) qs := List.foldl_append

theorem spotFrom_names (s q : Spot) : spotFrom s (q.map .normal) = s ++ q := by
  induction q generalizing s with
  | nil => rw [List.map_nil, spotFrom_nil, List.append_nil]
  | cons n q ih =>
      show spotFrom (s ++ [n]) (q.map .normal) = s ++ n :: q
      rw [ih, List.append_assoc]
      rfl

theorem visits_snoc (s : Spot) (ps : List Part) (x : Part) :
    visits s (ps ++ [x]) = visits s ps ++ [goTo (spotFrom s ps) x] := by
  induction ps generalizing s with
  | nil => rfl
  | cons p ps ih =>
      show s :: visits (goTo s p) (ps ++ [x]) = s :: visits (goTo s p) ps ++ [_]
      rw [ih]
      rfl

theorem first_mem_visits (s : Spot) (ps : List Part) : s ∈ visits s ps := by
  cases ps with
  | nil => exact List.mem_singleton_self s
  | cons p ps => exact List.mem_cons_self

theorem last_mem_visits (s : Spot) (ps : List Part) : spotFrom s ps ∈ visits s ps := by
  induction ps generalizing s with
  | nil => exact List.mem_singleton_self s
  | cons p ps ih => exact List.mem_cons_of_mem _ (ih (goTo s p))

/-- The places on the way through some names. -/
theorem mem_visits_names {q : Spot} (h : t ∈ visits s (ps ++ q.map .normal)) :
    t ∈ visits s ps ∨ ∃ r, r <+: q ∧ r ≠ [] ∧ t = spotFrom s ps ++ r := by
  induction q using List.reverseRecOn with
  | nil =>
      rw [List.map_nil, List.append_nil] at h
      exact .inl h
  | append_singleton q n ih =>
      rw [List.map_append, ← List.append_assoc] at h
      rw [List.map_cons, List.map_nil, visits_snoc, List.mem_append] at h
      rcases h with hold | hnew
      · rcases ih hold with h | ⟨r, hr, hne, ht⟩
        · exact .inl h
        · exact .inr ⟨r, hr.trans (List.prefix_append q [n]), hne, ht⟩
      · refine .inr ⟨q ++ [n], List.prefix_rfl, by simp, ?_⟩
        rw [List.mem_singleton.mp hnew, spotFrom_append, spotFrom_names, goTo, List.append_assoc]

/-! ## Open ways -/

/-- Every place on the way is a directory. -/
def Opens (N : Nodes) (s : Spot) (ps : List Part) : Prop := ∀ t ∈ visits s ps, IsDir N t

theorem Opens.last (h : Opens N s ps) : IsDir N (spotFrom s ps) := h _ (last_mem_visits s ps)

theorem Opens.congr (h : Opens N s ps) (heq : ∀ t ∈ visits s ps, IsDir N t → IsDir N' t) :
    Opens N' s ps := fun t ht => heq t ht (h t ht)

theorem opens_cons {p : Part} (h : Opens N s (p :: ps)) : IsDir N s ∧ Opens N (goTo s p) ps :=
  ⟨h s List.mem_cons_self, fun t ht => h t (List.mem_cons_of_mem s ht)⟩

/-- A look-up along an open way arrives. -/
theorem lead_snoc (h : Opens N s ps) (x : Part) :
    lead N s (ps ++ [x]) = .at (goTo (spotFrom s ps) x) := by
  induction ps generalizing s with
  | nil =>
      obtain ⟨mode, hdir⟩ := h.last
      rw [spotFrom_nil] at hdir
      show lead N s [x] = _
      rw [lead, hdir]
      rfl
  | cons p ps ih =>
      obtain ⟨⟨mode, hdir⟩, hrest⟩ := opens_cons h
      show lead N s (p :: (ps ++ [x])) = _
      rw [lead, hdir]
      exact ih hrest

theorem lead_of_opens (h : Opens N s ps) : lead N s ps = .at (spotFrom s ps) := by
  induction ps generalizing s with
  | nil => rfl
  | cons p ps ih =>
      obtain ⟨⟨mode, hdir⟩, hrest⟩ := opens_cons h
      rw [lead, hdir]
      exact ih hrest

theorem makeDirs_of_opens (h : Opens N s ps) : makeDirs mode N s ps = (true, N) := by
  induction ps generalizing s with
  | nil => rfl
  | cons p ps ih =>
      obtain ⟨-, hrest⟩ := opens_cons h
      obtain ⟨m, hdir⟩ := hrest _ (first_mem_visits (goTo s p) ps)
      rw [makeDirs, hdir]
      exact ih hrest

/-- Only the last directory is missing. -/
theorem makeDirs_snoc (h : Opens N s ps) (hx : N (goTo (spotFrom s ps) x) = none) :
    makeDirs mode N s (ps ++ [x])
      = (true, Function.update N (goTo (spotFrom s ps) x) (some (.dir mode))) := by
  induction ps generalizing s with
  | nil =>
      have hx' : N (goTo s x) = none := hx
      show makeDirs mode N s [x] = _
      rw [makeDirs, hx']
      rfl
  | cons p ps ih =>
      obtain ⟨-, hrest⟩ := opens_cons h
      obtain ⟨m, hdir⟩ := hrest _ (first_mem_visits (goTo s p) ps)
      show makeDirs mode N s (p :: (ps ++ [x])) = _
      rw [makeDirs, hdir]
      exact ih hrest hx

/-- Where something was it stays, and what is new is a directory on the way. -/
theorem makeDirs_kept (mode : UInt32) (N : Nodes) (s : Spot) (ps : List Part) (t : Spot) :
    (makeDirs mode N s ps).2 t = N t
      ∨ N t = none ∧ (makeDirs mode N s ps).2 t = some (.dir mode) ∧ t ∈ (visits s ps).tail := by
  induction ps generalizing N s with
  | nil => exact .inl rfl
  | cons p ps ih =>
      have hsub : ∀ u, u ∈ (visits (goTo s p) ps).tail → u ∈ (visits s (p :: ps)).tail :=
        fun u hu => List.mem_of_mem_tail hu
      rw [makeDirs]
      cases hn : N (goTo s p) with
      | none =>
          dsimp only
          rcases ih (Function.update N (goTo s p) (some (.dir mode))) (goTo s p) with h | ⟨h1, h2, h3⟩
          · by_cases ht : t = goTo s p
            · refine .inr ⟨by rw [ht, hn], ?_, ?_⟩
              · rw [h, ht, Function.update_self]
              · rw [ht]
                exact first_mem_visits (goTo s p) ps
            · rw [h, Function.update_of_ne ht]
              exact .inl rfl
          · have ht : t ≠ goTo s p := by
              intro ht
              rw [ht, Function.update_self] at h1
              cases h1
            rw [Function.update_of_ne ht] at h1
            exact .inr ⟨h1, h2, hsub t h3⟩
      | some node =>
          cases node with
          | file m data => exact .inl rfl
          | dir m =>
              dsimp only
              rcases ih N (goTo s p) with h | ⟨h1, h2, h3⟩
              · exact .inl h
              · exact .inr ⟨h1, h2, hsub t h3⟩

theorem makeDirs_isDir (h : IsDir N t) : IsDir (makeDirs mode N s ps).2 t := by
  obtain ⟨m, hdir⟩ := h
  rcases makeDirs_kept mode N s ps t with hsame | ⟨hnone, -, -⟩
  · exact ⟨m, hsame.trans hdir⟩
  · rw [hdir] at hnone
    cases hnone

/-- After success the way is open. -/
theorem makeDirs_opens (hs : IsDir N s) (h : (makeDirs mode N s ps).1 = true) :
    Opens (makeDirs mode N s ps).2 s ps := by
  induction ps generalizing N s with
  | nil =>
      intro t ht
      rw [List.mem_singleton.mp ht]
      exact hs
  | cons p ps ih =>
      have hfirst : IsDir (makeDirs mode N s (p :: ps)).2 s := makeDirs_isDir hs
      have hrest : Opens (makeDirs mode N s (p :: ps)).2 (goTo s p) ps := by
        rw [makeDirs] at h ⊢
        cases hn : N (goTo s p) with
        | none =>
            rw [hn] at h
            exact ih ⟨mode, Function.update_self _ _ _⟩ h
        | some node =>
            rw [hn] at h
            cases node with
            | file m data => cases h
            | dir m => exact ih ⟨m, hn⟩ h
      intro t ht
      rcases List.mem_cons.mp ht with heq | hmem
      · rw [heq]
        exact hfirst
      · exact hrest t hmem

/-- With no file on the way everything works. -/
theorem makeDirs_works (hs : IsDir N s)
    (hfile : ∀ t ∈ visits s ps, ∀ m data, N t ≠ some (.file m data)) :
    (makeDirs mode N s ps).1 = true ∧ Opens (makeDirs mode N s ps).2 s ps := by
  have hok : (makeDirs mode N s ps).1 = true := by
    clear hs
    induction ps generalizing N s with
    | nil => rfl
    | cons p ps ih =>
        have hmem : goTo s p ∈ visits s (p :: ps) :=
          List.mem_cons_of_mem s (first_mem_visits (goTo s p) ps)
        rw [makeDirs]
        cases hn : N (goTo s p) with
        | none =>
            refine ih fun t ht m data hcontra => ?_
            by_cases heq : t = goTo s p
            · rw [heq, Function.update_self] at hcontra
              cases hcontra
            · rw [Function.update_of_ne heq] at hcontra
              exact hfile t (List.mem_cons_of_mem s ht) m data hcontra
        | some node =>
            cases node with
            | file m data => exact absurd hn (hfile _ hmem m data)
            | dir m => exact ih fun t ht => hfile t (List.mem_cons_of_mem s ht)
  exact ⟨hok, makeDirs_opens hs hok⟩

/-! ## Files -/

/-- The bytes of the file at a place. -/
def fileAt (N : Nodes) (s : Spot) : Option (List UInt8) :=
  match N s with
  | some (.file _ data) => some data
  | _ => none

theorem fileAt_eq_some {data : List UInt8} :
    fileAt N s = some data ↔ ∃ mode, N s = some (.file mode data) := by
  unfold fileAt
  constructor
  · intro h
    split at h
    · rename_i mode data' hn
      cases h
      exact ⟨mode, hn⟩
    · cases h
  · intro h
    obtain ⟨mode, hn⟩ := h
    rw [hn]

theorem fileAt_of_isDir (h : IsDir N s) : fileAt N s = none := by
  obtain ⟨mode, hdir⟩ := h
  rw [fileAt, hdir]

/-- Making directories leaves every file alone. -/
theorem makeDirs_fileAt (mode : UInt32) (N : Nodes) (s : Spot) (ps : List Part) (t : Spot) :
    fileAt (makeDirs mode N s ps).2 t = fileAt N t := by
  rcases makeDirs_kept mode N s ps t with h | ⟨hnone, hdir, -⟩
  · rw [fileAt, h, fileAt]
  · rw [fileAt, hdir, fileAt, hnone]

/-- Writing a file changes this file only. -/
theorem fileAt_update (N : Nodes) (s t : Spot) (mode : UInt32) (data : List UInt8) :
    fileAt (Function.update N s (some (.file mode data))) t
      = if t = s then some data else fileAt N t := by
  by_cases h : t = s
  · rw [if_pos h, h, fileAt, Function.update_self]
  · rw [if_neg h, fileAt, Function.update_of_ne h, fileAt]

/-- A look-up that arrives has followed the names. -/
theorem lead_at (h : lead N s ps = .at t) : t = spotFrom s ps := by
  induction ps generalizing s with
  | nil =>
      cases h
      rfl
  | cons p ps ih =>
      rw [lead] at h
      cases hn : N s with
      | none =>
          rw [hn] at h
          cases h
      | some node =>
          rw [hn] at h
          cases node with
          | file m data => cases h
          | dir m => exact ih h

/-- The way to something in a tree is open up to the directory it is in. -/
theorem Tree.opens_to (t : Tree) {q : Spot} {n : Name} (h : Opens t.nodes s ps)
    (hn : t.nodes (spotFrom s ps ++ q ++ [n]) ≠ none) : Opens t.nodes s (ps ++ q.map .normal) := by
  intro r hr
  rcases mem_visits_names hr with hold | ⟨r', ⟨rest, hsplit⟩, -, heq⟩
  · exact h r hold
  · rw [heq]
    refine t.isDir_above (u := rest) (n := n) ?_
    rw [List.append_assoc _ r' rest, hsplit]
    exact hn

/-! ## Walks -/

/-- A walk of a tree: every place below the root once, directories before what is in them. -/
structure Walks (t : Tree) (walk : List Spot) : Prop where
  nodup : walk.Nodup
  mem : ∀ q, q ∈ walk ↔ q ≠ [] ∧ t.nodes q ≠ none
  parentFirst : ∀ before q n after, walk = before ++ (q ++ [n]) :: after → q ≠ [] → q ∈ before

/-- If parents come first, everything above what has been met has been met. -/
theorem above_mem_of_parentFirst {walk before after : List Spot}
    (h : ∀ before q n after, walk = before ++ (q ++ [n]) :: after → q ≠ [] → q ∈ before)
    (hsplit : walk = before ++ after) {q r : Spot} (hq : q ∈ before) (hr : r <+: q) (hne : r ≠ []) :
    r ∈ before := by
  induction q using List.reverseRecOn generalizing before after with
  | nil => exact absurd (List.prefix_nil.mp hr) hne
  | append_singleton q n ih =>
      rcases List.prefix_concat_iff.mp hr with heq | hshort
      · rw [heq]
        exact hq
      · obtain ⟨first, last, hbefore⟩ := List.append_of_mem hq
        have hq' : q ≠ [] := by
          intro hnil
          rw [hnil] at hshort
          exact hne (List.prefix_nil.mp hshort)
        have hwalk : walk = first ++ (q ++ [n]) :: (last ++ after) := by
          rw [hsplit, hbefore, List.append_assoc]
          rfl
        have hmem := h first q n (last ++ after) hwalk hq'
        have hfirst := ih hwalk hmem hshort
        rw [hbefore]
        exact List.mem_append_left _ hfirst

end FileTree
