import Mathlib.Algebra.GroupWithZero.Nat
import Mathlib.Data.List.Infix

/-!
# Unix paths

A path is what its components make it: two strings that differ in doubled or
trailing slashes, or in a `.` that is not at the very front, are the same path.
`Path` is that reading of a string, `parse` is how a string is read, and `join`,
`parent`, `fileName` and `setFileName` work on it as the standard library's do.

`Place` is where a path leads when it is read lexically, with every `..` taken
back against the name before it. A relative path may climb above its starting
point, so a place counts the levels it is above it.

`Inside` is containment of places, and `staysBelow` tells from the parts of a
relative path alone whether it ever climbs above the directory it is joined to.
-/

namespace UnixPath

/-- A file name: not empty, no separator, and neither of the two special names. -/
def ValidName (s : List Char) : Prop := s ≠ [] ∧ s ≠ ['.'] ∧ s ≠ ['.', '.'] ∧ '/' ∉ s

instance (s : List Char) : Decidable (ValidName s) := inferInstanceAs (Decidable (_ ∧ _))

abbrev Name := { s : List Char // ValidName s }

theorem slash_notMem_nil : '/' ∉ ([] : List Char) := List.not_mem_nil

theorem slash_notMem_one : '/' ∉ ['1'] := by decide

/-- A component behind the first: `..` or a name. -/
inductive Part where
  | parent
  | normal (n : Name)
  deriving DecidableEq

/-- What a path begins with. -/
inductive Head where
  | rootDir
  | curDir
  | plain
  deriving DecidableEq, Repr

structure Path where
  head : Head
  parts : List Part
  deriving DecidableEq

/-- How one piece between separators is read. -/
def readPart (s : List Char) : Option Part :=
  if s = ['.', '.'] then some .parent
  else if h : ValidName s then some (.normal ⟨s, h⟩) else none

/-- `Path::new(s).components()`. -/
def parse (s : List Char) : Path :=
  match s with
  | '/' :: rest => ⟨.rootDir, (rest.splitOn '/').filterMap readPart⟩
  | _ =>
      match s.splitOn '/' with
      | ['.'] :: rest => ⟨.curDir, rest.filterMap readPart⟩
      | pieces => ⟨.plain, pieces.filterMap readPart⟩

namespace Path

def isAbsolute (p : Path) : Bool := p.head == .rootDir

/-- `Path::new(".")`. -/
def dot : Path := ⟨.curDir, []⟩

/-- The path that begins and ends with one name. -/
def ofName (n : Name) : Path := ⟨.plain, [.normal n]⟩

def join (a b : Path) : Path :=
  match b.head with
  | .rootDir => b
  | _ => if a = ⟨.plain, []⟩ then b else { a with parts := a.parts ++ b.parts }

def parent (p : Path) : Option Path :=
  match p.parts, p.head with
  | _ :: _, _ => some { p with parts := p.parts.dropLast }
  | [], .curDir => some ⟨.plain, []⟩
  | [], _ => none

def fileName (p : Path) : Option Name :=
  match p.parts.getLast? with
  | some (.normal n) => some n
  | _ => none

def setFileName (p : Path) (n : Name) : Path :=
  if p.fileName.isSome then (p.parent.getD p).join (ofName n) else p.join (ofName n)

/-- The directories on the way to `p`, and `p` itself. -/
def ancestors (p : Path) : List Path := p.parts.inits.map fun ps => { p with parts := ps }

/-- The file of that name in `p`. -/
def child (p : Path) (n : Name) : Path := { p with parts := p.parts ++ [.normal n] }

theorem mem_ancestors {p q : Path} : q ∈ p.ancestors ↔ q.head = p.head ∧ q.parts <+: p.parts := by
  simp only [ancestors, List.mem_map, List.mem_inits]
  refine ⟨?_, fun h => ⟨q.parts, h.2, by rw [← h.1]⟩⟩
  rintro ⟨ps, hps, rfl⟩
  exact ⟨rfl, hps⟩

theorem self_mem_ancestors (p : Path) : p ∈ p.ancestors := mem_ancestors.mpr ⟨rfl, List.prefix_rfl⟩

/-- Joining to the empty path or to any other. -/
theorem join_eq {a b : Path} (hb : b.head ≠ .rootDir) :
    a.join b = b ∧ a = ⟨.plain, []⟩ ∨ a.join b = { a with parts := a.parts ++ b.parts } := by
  unfold join
  split
  · rename_i h
    exact absurd h hb
  · split
    · rename_i ha
      exact .inl ⟨rfl, ha⟩
    · exact .inr rfl

theorem empty_join (b : Path) : (⟨.plain, []⟩ : Path).join b = b := by
  unfold join
  split
  · rfl
  · exact if_pos rfl

theorem join_ofName (p : Path) (n : Name) : p.join (ofName n) = p.child n := by
  have hn : (ofName n).head ≠ .rootDir := by simp [ofName]
  rcases join_eq (a := p) hn with ⟨h, hp⟩ | h
  · rw [h, hp]
    rfl
  · exact h

theorem join_child {a b : Path} (hb : b.head ≠ .rootDir) (n : Name) :
    a.join (b.child n) = (a.join b).child n := by
  unfold join child
  split
  · rename_i h
    exact absurd h hb
  · split
    · rfl
    · simp

theorem parent_child (p : Path) (n : Name) : (p.child n).parent = some p := by
  unfold child parent
  split
  · simp
  all_goals
    rename_i h _
    simp at h

theorem fileName_child (p : Path) (n : Name) : (p.child n).fileName = some n := by
  simp [child, fileName]

theorem setFileName_child (p : Path) (n m : Name) : (p.child n).setFileName m = p.child m := by
  rw [setFileName, fileName_child, Option.isSome_some, if_pos rfl, parent_child,
    Option.getD_some, join_ofName]

/-- A path that ends in a name is the child of another. -/
theorem exists_child {p : Path} (hne : p.parts ≠ []) (hp : Part.parent ∉ p.parts) :
    ∃ (dir : Path) (n : Name), p = dir.child n ∧ dir.head = p.head ∧ Part.parent ∉ dir.parts := by
  cases hlast : p.parts.getLast hne with
  | parent => exact absurd (hlast ▸ List.getLast_mem hne) hp
  | normal n =>
      refine ⟨{ p with parts := p.parts.dropLast }, n, ?_, rfl, ?_⟩
      · have := List.dropLast_append_getLast hne
        rw [hlast] at this
        simp only [child, this]
      · exact fun hm => hp (List.dropLast_subset _ hm)

end Path

/-! ## Writing a path out -/

def Part.chars : Part → List Char
  | .parent => ['.', '.']
  | .normal n => n.1

/-- `Path::display`. -/
def Path.display (p : Path) : List Char :=
  match p.head with
  | .rootDir => '/' :: ['/'].intercalate (p.parts.map Part.chars)
  | .curDir => ['/'].intercalate (['.'] :: p.parts.map Part.chars)
  | .plain => ['/'].intercalate (p.parts.map Part.chars)

theorem readPart_chars (x : Part) : readPart x.chars = some x := by
  cases x with
  | parent => rfl
  | normal n =>
      have hne : n.1 ≠ ['.', '.'] := n.2.2.2.1
      simp [readPart, Part.chars, hne, n.2]

theorem filterMap_readPart_chars (xs : List Part) : (xs.map Part.chars).filterMap readPart = xs := by
  induction xs with
  | nil => rfl
  | cons x xs ih => simp [readPart_chars, ih]

theorem slash_notMem_chars (x : Part) : '/' ∉ x.chars := by
  cases x with
  | parent => decide
  | normal n => exact n.2.2.2.2

/-- The pieces of a written-out list of parts. -/
theorem filterMap_splitOn_intercalate (xs : List Part) :
    ((['/'].intercalate (xs.map Part.chars)).splitOn '/').filterMap readPart = xs := by
  by_cases hx : xs = []
  · subst hx
    rfl
  · rw [List.splitOn_intercalate, filterMap_readPart_chars]
    · intro l hl
      obtain ⟨x, _, rfl⟩ := List.mem_map.mp hl
      exact slash_notMem_chars x
    · simpa using hx

/-- **An absolute path reads back as it was written.** -/
theorem parse_display {p : Path} (h : p.head = .rootDir) : parse p.display = p := by
  obtain ⟨head, parts⟩ := p
  cases h
  show (⟨.rootDir, _⟩ : Path) = _
  rw [filterMap_splitOn_intercalate]

/-- Writing out a path of names and reading it again. -/
theorem parse_display_names {names : List Name} (hne : names ≠ []) :
    parse (Path.display ⟨.plain, names.map .normal⟩) = ⟨.plain, names.map .normal⟩ := by
  have hpieces : (Path.display ⟨.plain, names.map .normal⟩).splitOn '/'
      = (names.map Part.normal).map Part.chars := by
    refine List.splitOn_intercalate _ ?_ (by simpa using hne)
    intro l hl
    obtain ⟨part, -, hpart⟩ := List.mem_map.mp hl
    rw [← hpart]
    exact slash_notMem_chars part
  obtain ⟨n, rest, hcons⟩ := List.exists_cons_of_ne_nil hne
  have hfirst : (names.map Part.normal).map Part.chars
      = n.1 :: (rest.map Part.normal).map Part.chars := by
    rw [hcons]
    rfl
  have hread : ((names.map Part.normal).map Part.chars).filterMap readPart = names.map .normal :=
    filterMap_readPart_chars _
  unfold parse
  split
  · -- a separator in front would make an empty first piece
    rename_i tail htail
    have hslash : ('/' :: tail).splitOn '/' = [] :: tail.splitOn '/' := by
      simp [List.splitOn_cons_eq_if_modifyHead]
    rw [htail, hslash, hfirst] at hpieces
    exact absurd (List.cons.inj hpieces).1.symm n.2.1
  · split
    · rename_i pieces hdot
      rw [hpieces, hfirst] at hdot
      exact absurd (List.cons.inj hdot).1 n.2.2.1
    · rw [hpieces, hread]

theorem display_cons (n : Name) {names : List Name} (hne : names ≠ []) :
    Path.display ⟨.plain, (n :: names).map .normal⟩
      = n.1 ++ '/' :: Path.display ⟨.plain, names.map .normal⟩ := by
  show ['/'].intercalate (n.1 :: (names.map Part.normal).map Part.chars) = _
  rw [List.intercalate_cons_of_ne_nil (by simpa using hne), List.append_assoc]
  rfl

theorem display_singleton (n : Name) : Path.display ⟨.plain, [n].map .normal⟩ = n.1 :=
  List.intercalate_singleton

/-- What is written out has only characters of the names, and separators. -/
theorem mem_display_names {names : List Name} {c : Char}
    (hc : c ∈ Path.display ⟨.plain, names.map .normal⟩) : c = '/' ∨ ∃ n ∈ names, c ∈ n.1 := by
  induction names with
  | nil => cases hc
  | cons n names ih =>
      by_cases hne : names = []
      · rw [hne, display_singleton] at hc
        exact .inr ⟨n, List.mem_cons_self, hc⟩
      · rw [display_cons n hne, List.mem_append, List.mem_cons] at hc
        rcases hc with hc | hslash | hc
        · exact .inr ⟨n, List.mem_cons_self, hc⟩
        · exact .inl hslash
        · rcases ih hc with hslash | ⟨k, hk, hc⟩
          · exact .inl hslash
          · exact .inr ⟨k, List.mem_cons_of_mem _ hk, hc⟩

/-- What stands before a separator is the path of a directory on the way. -/
theorem display_before {names : List Name} {d rest : List Char}
    (h : Path.display ⟨.plain, names.map .normal⟩ = d ++ '/' :: rest) :
    ∃ front back, front ≠ [] ∧ back ≠ [] ∧ names = front ++ back
      ∧ Path.display ⟨.plain, front.map .normal⟩ = d := by
  induction names generalizing d with
  | nil => exact absurd h.symm (by simp [Path.display])
  | cons n names ih =>
      have hslash : '/' ∉ n.1 := n.2.2.2.2
      by_cases hne : names = []
      · rw [hne, display_singleton] at h
        exact absurd (h ▸ List.mem_append_right d List.mem_cons_self) hslash
      · rw [display_cons n hne] at h
        rcases List.append_eq_append_iff.mp h with ⟨mid, hd, hmid⟩ | ⟨mid, hn, hmid⟩
        · cases mid with
          | nil =>
              refine ⟨[n], names, List.cons_ne_nil _ _, hne, rfl, ?_⟩
              rw [display_singleton, hd, List.append_nil]
          | cons c mid =>
              obtain ⟨rfl, hrest⟩ := List.cons.inj hmid
              obtain ⟨front, back, hfront, hback, hnames, hdisplay⟩ := ih hrest
              refine ⟨n :: front, back, List.cons_ne_nil _ _, hback, by rw [hnames]; rfl, ?_⟩
              rw [display_cons n hfront, hdisplay, hd]
        · cases mid with
          | nil =>
              refine ⟨[n], names, List.cons_ne_nil _ _, hne, rfl, ?_⟩
              rw [display_singleton, hn, List.append_nil]
          | cons c mid =>
              -- the name itself would go on past the separator
              obtain ⟨rfl, -⟩ := List.cons.inj hmid
              exact absurd (hn ▸ List.mem_append_right d List.mem_cons_self) hslash

/-! ## Places -/

/-- A place: from the root or from a starting point, so many levels up, then down these names. -/
structure Place where
  absolute : Bool
  ups : Nat
  names : List Name
  /-- There is nothing above the root. -/
  grounded : absolute = true → ups = 0
  deriving DecidableEq

namespace Place

/-- Going down to a name. -/
def down (pl : Place) (n : Name) : Place := { pl with names := pl.names ++ [n] }

/-- `..`. -/
def up (pl : Place) : Place :=
  if pl.names ≠ [] then { pl with names := pl.names.dropLast }
  else if h : pl.absolute = true then pl
  else { pl with ups := pl.ups + 1, grounded := fun ha => absurd ha h }

def step (pl : Place) : Part → Place
  | .parent => pl.up
  | .normal n => pl.down n

/-- `p` is `root` or something below it. -/
def Inside (root p : Place) : Prop :=
  p.absolute = root.absolute ∧ p.ups = root.ups ∧ root.names <+: p.names

instance (root p : Place) : Decidable (Inside root p) := inferInstanceAs (Decidable (_ ∧ _ ∧ _))

theorem Inside.refl (root : Place) : Inside root root := ⟨rfl, rfl, List.prefix_rfl⟩

theorem Inside.down {root p : Place} (h : Inside root p) (n : Name) : Inside root (p.down n) :=
  ⟨h.1, h.2.1, h.2.2.trans (List.prefix_append _ _)⟩

theorem up_names (pl : Place) : pl.up.names = pl.names.dropLast := by
  unfold up
  split
  · rfl
  · rename_i h
    have hnil : pl.names = [] := by simpa using h
    split <;> simp [hnil]

/-- Going up from strictly below the root stays inside. -/
theorem Inside.up {root p : Place} (h : Inside root p) (hlt : root.names.length < p.names.length) :
    Inside root p.up := by
  have hne : p.names ≠ [] := by
    intro hnil
    rw [hnil] at hlt
    exact absurd hlt (Nat.not_lt_zero _)
  have hup : p.up = { p with names := p.names.dropLast } := by simp [Place.up, hne]
  rw [hup]
  refine ⟨h.1, h.2.1, ?_⟩
  obtain ⟨rest, hrest⟩ := h.2.2
  have hrest' : rest ≠ [] := by
    intro hnil
    rw [hnil, List.append_nil] at hrest
    rw [hrest] at hlt
    exact absurd hlt (Nat.lt_irrefl _)
  show root.names <+: p.names.dropLast
  rw [← hrest, List.dropLast_append_of_ne_nil hrest']
  exact List.prefix_append _ _

end Place

/-- Where a path begins. -/
def Head.place (h : Head) : Place := ⟨h == .rootDir, 0, [], fun _ => rfl⟩

/-- **Lexical normalisation.** -/
def Path.normalize (p : Path) : Place := p.parts.foldl Place.step p.head.place

theorem Path.normalize_child (p : Path) (n : Name) :
    (p.child n).normalize = p.normalize.down n := by
  simp [normalize, child, Place.step]

/-- A joined path leads where its second half leads from the first. -/
theorem Path.normalize_join {a b : Path} (hb : b.head ≠ .rootDir) :
    (a.join b).normalize = b.parts.foldl Place.step a.normalize := by
  rcases join_eq (a := a) hb with ⟨h, ha⟩ | h
  · have hplace : b.head.place = Head.plain.place := by
      cases hh : b.head with
      | rootDir => exact absurd hh hb
      | curDir => rfl
      | plain => rfl
    rw [h, ha, normalize, hplace]
    rfl
  · rw [h]
    simp [normalize]

/-! ## Relative paths that stay below -/

/-- Read from `depth` levels below some directory, the parts never climb above it. -/
def staysBelow (depth : Nat) : List Part → Bool
  | [] => true
  | .normal _ :: ps => staysBelow (depth + 1) ps
  | .parent :: ps => if depth = 0 then false else staysBelow (depth - 1) ps

theorem staysBelow_of_no_parent {ps : List Part} (h : Part.parent ∉ ps) (depth : Nat) :
    staysBelow depth ps = true := by
  induction ps generalizing depth with
  | nil => rfl
  | cons x ps ih =>
      cases x with
      | parent => exact absurd List.mem_cons_self h
      | normal n => exact ih (fun hm => h (List.mem_cons_of_mem _ hm)) _

theorem staysBelow_initial {ps qs : List Part} {depth : Nat} (h : qs <+: ps)
    (hs : staysBelow depth ps = true) : staysBelow depth qs = true := by
  obtain ⟨rest, rfl⟩ := h
  induction qs generalizing depth with
  | nil => rfl
  | cons x qs ih =>
      cases x with
      | normal n => exact ih hs
      | parent =>
          simp only [List.cons_append, staysBelow] at hs ⊢
          split
          · rename_i hd
            rw [if_pos hd] at hs
            cases hs
          · rename_i hd
            rw [if_neg hd] at hs
            exact ih hs

/-- **What stays below stays inside.** -/
theorem inside_of_staysBelow {root : Place} {ps : List Part} {depth : Nat} {pl : Place}
    (hs : staysBelow depth ps = true) (hi : root.Inside pl)
    (hd : pl.names.length = root.names.length + depth) :
    root.Inside (ps.foldl Place.step pl) := by
  induction ps generalizing depth pl with
  | nil => exact hi
  | cons x ps ih =>
      cases x with
      | normal n =>
          refine ih hs (hi.down n) ?_
          show (pl.names ++ [n]).length = _
          rw [List.length_append, List.length_singleton]
          omega
      | parent =>
          simp only [staysBelow] at hs
          split at hs
          · cases hs
          · rename_i hpos
            refine ih hs (hi.up (by omega)) ?_
            show pl.up.names.length = _
            rw [Place.up_names, List.length_dropLast]
            omega

/-- The names that occur in a list of parts. -/
def namesOf (ps : List Part) : List Name :=
  ps.filterMap fun
    | .parent => none
    | .normal n => some n

/-- Names come from the starting place or from the parts. -/
theorem mem_names_foldl {ps : List Part} {p : Place} {n : Name}
    (h : n ∈ (ps.foldl Place.step p).names) : n ∈ p.names ∨ n ∈ namesOf ps := by
  induction ps generalizing p with
  | nil => exact .inl h
  | cons x ps ih =>
      cases x with
      | normal m =>
          rcases ih h with hm | hm
          · rcases List.mem_append.mp hm with hm | hm
            · exact .inl hm
            · exact .inr (by rw [List.mem_singleton.mp hm]; exact List.mem_cons_self)
          · exact .inr (List.mem_cons_of_mem _ hm)
      | parent =>
          rcases ih h with hm | hm
          · left
            have hm' : n ∈ p.up.names := hm
            rw [Place.up_names] at hm'
            exact List.dropLast_subset _ hm'
          · exact .inr hm

/-- **What climbs above its directory has forgotten the directory's name.** `fresh` is a name that
does not occur in the parts themselves. -/
theorem fresh_notMem_of_climbs {ps : List Part} {depth : Nat} {p : Place} {fresh : Name}
    {l : List Name} (hs : staysBelow depth ps = false) (hn : p.names = fresh :: l)
    (hlen : l.length = depth) (hl : fresh ∉ l) (hf : fresh ∉ namesOf ps) :
    fresh ∉ (ps.foldl Place.step p).names := by
  induction ps generalizing depth p l with
  | nil => cases hs
  | cons x ps ih =>
      cases x with
      | normal n =>
          have hne : fresh ≠ n := by
            intro he
            exact hf (by rw [he]; exact List.mem_cons_self)
          refine ih (p := p.down n) (l := l ++ [n]) hs ?_ ?_ ?_
            (fun hm => hf (List.mem_cons_of_mem _ hm))
          · show p.names ++ [n] = _
            rw [hn]
            rfl
          · rw [List.length_append, List.length_singleton, hlen]
          · rw [List.mem_append, List.mem_singleton]
            exact fun h => h.elim hl hne
      | parent =>
          have hf' : fresh ∉ namesOf ps := hf
          simp only [staysBelow] at hs
          split at hs
          · -- this is the step above the directory: only later names can follow
            rename_i hz
            have hnil : l = [] := List.length_eq_zero_iff.mp (hlen.trans hz)
            intro hm
            rcases mem_names_foldl (p := p.up) hm with hm | hm
            · rw [Place.up_names, hn, hnil] at hm
              cases hm
            · exact hf' hm
          · rename_i hpos
            have hne : l ≠ [] := by
              intro hnil
              rw [hnil] at hlen
              exact hpos hlen.symm
            refine ih (p := p.up) (l := l.dropLast) hs ?_ ?_ ?_ hf'
            · rw [Place.up_names, hn, List.dropLast_cons_of_ne_nil hne]
            · rw [List.length_dropLast, hlen]
            · exact fun hm => hl (List.dropLast_subset _ hm)

theorem length_le_sum {ns : List Name} {n : Name} (h : n ∈ ns) :
    n.1.length ≤ (ns.map (·.1.length)).sum := by
  induction ns with
  | nil => cases h
  | cons m ns ih =>
      rw [List.map_cons, List.sum_cons]
      rcases List.mem_cons.mp h with rfl | h
      · omega
      · have := ih h
        omega

/-- There is always a name that has not been used. -/
theorem exists_fresh (ns : List Name) : ∃ fresh : Name, fresh ∉ ns := by
  have hvalid : ValidName (List.replicate ((ns.map (·.1.length)).sum + 3) 'a') := by
    refine ⟨?_, ?_, ?_, ?_⟩
    · simp
    · intro h
      have := congrArg List.length h
      simp at this
    · intro h
      have := congrArg List.length h
      simp at this
    · intro h
      have := List.eq_of_mem_replicate h
      cases this
  refine ⟨⟨_, hvalid⟩, ?_⟩
  intro hm
  have hle := length_le_sum hm
  simp only [List.length_replicate] at hle
  omega

end UnixPath
