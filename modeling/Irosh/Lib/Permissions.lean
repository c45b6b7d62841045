import Irosh.Lib.FileTree

/-!
# Permissions in a tree of files

Who goes through a directory needs its search bit, and who puts something into it or takes
something out needs its write bit as well. The bits are those of the owner. A way is
barred by the first directory that does not let one through; where something is missing
or in the way, permissions do not decide.
-/

namespace FileTree

open UnixPath

def maySearch (mode : UInt32) : Bool := mode &&& 0o100 != 0

def mayWrite (mode : UInt32) : Bool := mode &&& 0o200 != 0

/-- With both bits a directory bars nothing. -/
def grants (mode : UInt32) : Bool := maySearch mode && mayWrite mode

/-- The mode of what is there. -/
def FileNode.mode : FileNode → UInt32
  | .dir mode => mode
  | .file mode _ => mode

/-- The first directory on the way that may not be searched. -/
def searchBar (N : Nodes) (s : Spot) : List Part → Option Spot
  | [] => none
  | p :: ps =>
      match N s with
      | some (.dir mode) => if maySearch mode then searchBar N (goTo s p) ps else some s
      | _ => none

/-- The directory of the last component, if nothing may be put into it. -/
def writeBar (N : Nodes) (ps : List Part) : Option Spot :=
  if ps = [] then none
  else
    match N (spot ps.dropLast) with
    | some (.dir mode) => if mayWrite mode then none else some (spot ps.dropLast)
    | _ => none

/-- What bars `mkdir -p`: new directories get `mode`. -/
def makeBar (mode : UInt32) (N : Nodes) (s : Spot) : List Part → Option Spot
  | [] => none
  | p :: ps =>
      match N s with
      | some (.dir m) =>
          if maySearch m then
            match N (goTo s p) with
            | none =>
                if mayWrite m then
                  makeBar mode (Function.update N (goTo s p) (some (.dir mode))) (goTo s p) ps
                else some s
            | some _ => makeBar mode N (goTo s p) ps
          else some s
      | _ => none

variable {N : Nodes} {s u : Spot} {ps : List Part} {x : Part} {mode : UInt32}

/-- The permission bits are all that counts. -/
theorem grants_masked (mode : UInt32) : grants (mode &&& 0o777) = grants mode := by
  have hsearch : mode &&& 0o777 &&& 0o100 = mode &&& 0o100 := by
    rw [UInt32.and_assoc]
    rfl
  have hwrite : mode &&& 0o777 &&& 0o200 = mode &&& 0o200 := by
    rw [UInt32.and_assoc]
    rfl
  rw [grants, grants, maySearch, maySearch, mayWrite, mayWrite, hsearch, hwrite]

/-- What bars a way is a directory on it that lacks a bit, and not where the way ends. -/
def Bars (N : Nodes) (s : Spot) (ps : List Part) (u : Spot) : Prop :=
  u ∈ (visits s ps).dropLast ∧ ∃ mode, N u = some (.dir mode) ∧ grants mode = false

theorem visits_ne_nil (s : Spot) (ps : List Part) : visits s ps ≠ [] :=
  List.ne_nil_of_mem (first_mem_visits s ps)

theorem Bars.cons {p : Part} (h : Bars N (goTo s p) ps u) : Bars N s (p :: ps) u := by
  refine ⟨?_, h.2⟩
  rw [visits, List.dropLast_cons_of_ne_nil (visits_ne_nil _ _)]
  exact List.mem_cons_of_mem _ h.1

theorem bars_first {p : Part} (hs : N s = some (.dir mode)) (hmode : grants mode = false) :
    Bars N s (p :: ps) s := by
  refine ⟨?_, mode, hs, hmode⟩
  rw [visits, List.dropLast_cons_of_ne_nil (visits_ne_nil _ _)]
  exact List.mem_cons_self

theorem grants_eq_false_of_search (h : ¬ maySearch mode = true) : grants mode = false := by
  rw [grants, Bool.not_eq_true _ |>.mp h, Bool.false_and]

theorem grants_eq_false_of_write (h : ¬ mayWrite mode = true) : grants mode = false := by
  rw [grants, Bool.not_eq_true _ |>.mp h, Bool.and_false]

theorem searchBar_bars (h : searchBar N s ps = some u) : Bars N s ps u := by
  induction ps generalizing s with
  | nil => cases h
  | cons p ps ih =>
      rw [searchBar] at h
      split at h
      · rename_i mode hs
        split_ifs at h with hsearch
        · exact (ih h).cons
        · cases h
          exact bars_first hs (grants_eq_false_of_search hsearch)
      · cases h

theorem writeBar_bars (h : writeBar N ps = some u) : Bars N [] ps u := by
  unfold writeBar at h
  split_ifs at h with hnil
  split at h
  · rename_i mode hdir
    split_ifs at h with hwrite
    cases h
    refine ⟨?_, mode, hdir, grants_eq_false_of_write hwrite⟩
    have hvisits : visits [] ps = visits [] ps.dropLast ++ [goTo (spot ps.dropLast) (ps.getLast hnil)] := by
      conv_lhs => rw [← List.dropLast_append_getLast hnil]
      exact visits_snoc [] ps.dropLast _
    rw [hvisits, List.dropLast_concat]
    exact last_mem_visits [] ps.dropLast
  · cases h

/-- A directory made on the way bars only if `mode` does. -/
theorem makeBar_bars (h : makeBar mode N s ps = some u) :
    Bars N s ps u ∨ N u = none ∧ grants mode = false := by
  induction ps generalizing N s with
  | nil => cases h
  | cons p ps ih =>
      rw [makeBar] at h
      split at h
      · rename_i m hs
        by_cases hsearch : maySearch m = true
        · rw [if_pos hsearch] at h
          split at h
          · rename_i hmissing
            by_cases hwrite : mayWrite m = true
            · rw [if_pos hwrite] at h
              by_cases hu : u = goTo s p
              · rcases ih h with ⟨-, mode', hdir, hlacks⟩ | ⟨hnone, -⟩
                · rw [hu, Function.update_self] at hdir
                  cases hdir
                  rw [hu]
                  exact .inr ⟨hmissing, hlacks⟩
                · rw [hu, Function.update_self] at hnone
                  cases hnone
              · rcases ih h with ⟨hmem, mode', hdir, hlacks⟩ | ⟨hnone, hlacks⟩
                · rw [Function.update_of_ne hu] at hdir
                  exact .inl (Bars.cons ⟨hmem, mode', hdir, hlacks⟩)
                · rw [Function.update_of_ne hu] at hnone
                  exact .inr ⟨hnone, hlacks⟩
            · rw [if_neg hwrite] at h
              cases h
              exact .inl (bars_first hs (grants_eq_false_of_write hwrite))
          · exact (ih h).imp Bars.cons id
        · rw [if_neg hsearch] at h
          cases h
          exact .inl (bars_first hs (grants_eq_false_of_search hsearch))
      · cases h

/-! ## Where one is barred -/

theorem searchBar_snoc (h : Opens N s ps) (hlast : N (spotFrom s ps) = some (.dir mode))
    (hmode : maySearch mode = false) : searchBar N s (ps ++ [x]) ≠ none := by
  induction ps generalizing s with
  | nil =>
      have hs : N s = some (.dir mode) := hlast
      rw [List.nil_append, searchBar, hs]
      simp [hmode]
  | cons p ps ih =>
      obtain ⟨⟨m, hs⟩, hrest⟩ := opens_cons h
      rw [List.cons_append, searchBar, hs]
      dsimp only
      split
      · exact ih hrest hlast
      · exact Option.some_ne_none _

theorem writeBar_snoc (hlast : N (spot ps) = some (.dir mode)) (hmode : mayWrite mode = false) :
    writeBar N (ps ++ [x]) ≠ none := by
  rw [writeBar, if_neg (by simp), List.dropLast_concat, hlast]
  simp [hmode]

/-- Nothing is made in a directory that lacks a bit. -/
theorem makeBar_snoc {m : UInt32} (h : Opens N s ps) (hlast : N (spotFrom s ps) = some (.dir mode))
    (hmode : grants mode = false) (hx : N (goTo (spotFrom s ps) x) = none) :
    makeBar m N s (ps ++ [x]) ≠ none := by
  induction ps generalizing s with
  | nil =>
      have hs : N s = some (.dir mode) := hlast
      have hx' : N (goTo s x) = none := hx
      rw [List.nil_append, makeBar, hs]
      dsimp only
      split
      · rename_i hsearch
        have hwrite : mayWrite mode = false := by
          rw [grants, hsearch, Bool.true_and] at hmode
          exact hmode
        rw [hx']
        simp [hwrite]
      · exact Option.some_ne_none _
  | cons p ps ih =>
      obtain ⟨⟨m', hs⟩, hrest⟩ := opens_cons h
      obtain ⟨m'', hnext⟩ := hrest _ (first_mem_visits (goTo s p) ps)
      rw [List.cons_append, makeBar, hs]
      dsimp only
      split
      · rw [hnext]
        exact ih hrest hlast hx
      · exact Option.some_ne_none _

end FileTree
