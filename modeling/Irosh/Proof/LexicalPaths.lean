import Irosh.Transfer.Sanitize

/-!
# Where sanitized and resolved paths lead

`sanitize_remote_path` keeps a stack of names. It is the lexical normal form of what has
been read, as long as no `..` has come that had nothing to take back; that is a condition
on every initial part of the path. `resolve_path` only refuses `..`, and joins the rest
to a directory. A join with an absolute path forgets the directory.
-/

namespace Irosh

open UnixPath

/-! ## `sanitize_remote_path` -/

/-- No initial part has more `..` than names. -/
def NeverAbove (ps : List Part) : Prop :=
  ∀ qs, qs <+: ps → qs.count .parent ≤ (namesOf qs).length

/-- Counting is what `staysBelow` does. -/
theorem staysBelow_iff_count (ps : List Part) (depth : Nat) :
    staysBelow depth ps = true
      ↔ ∀ qs, qs <+: ps → qs.count .parent ≤ depth + (namesOf qs).length := by
  induction ps generalizing depth with
  | nil =>
      refine iff_of_true rfl ?_
      intro qs hqs
      rw [List.prefix_nil.mp hqs]
      exact Nat.zero_le _
  | cons part ps ih =>
      cases part with
      | normal n =>
          show staysBelow (depth + 1) ps = true ↔ _
          rw [ih]
          constructor
          · intro h qs hqs
            rcases List.prefix_cons_iff.mp hqs with hnil | ⟨rs, hrs, hpre⟩
            · rw [hnil]
              exact Nat.zero_le _
            · have hcount := h rs hpre
              rw [hrs, List.count_cons_of_ne (by simp)]
              show rs.count .parent ≤ depth + (namesOf rs).length.succ
              omega
          · intro h qs hqs
            have hcount := h (.normal n :: qs) (List.cons_prefix_cons.mpr ⟨rfl, hqs⟩)
            rw [List.count_cons_of_ne (by simp)] at hcount
            have hlen : (namesOf (.normal n :: qs)).length = (namesOf qs).length.succ := rfl
            omega
      | parent =>
          show (if depth = 0 then false else staysBelow (depth - 1) ps) = true ↔ _
          by_cases hd : depth = 0
          · rw [if_pos hd]
            refine iff_of_false Bool.false_ne_true ?_
            intro h
            have hcount := h [.parent] ⟨ps, rfl⟩
            rw [hd] at hcount
            exact absurd hcount (by decide)
          · rw [if_neg hd, ih]
            constructor
            · intro h qs hqs
              rcases List.prefix_cons_iff.mp hqs with hnil | ⟨rs, hrs, hpre⟩
              · rw [hnil]
                exact Nat.zero_le _
              · have hcount := h rs hpre
                rw [hrs, List.count_cons_self]
                show rs.count .parent + 1 ≤ depth + (namesOf rs).length
                omega
            · intro h qs hqs
              have hcount := h (.parent :: qs) (List.cons_prefix_cons.mpr ⟨rfl, hqs⟩)
              rw [List.count_cons_self] at hcount
              have hlen : (namesOf (.parent :: qs)).length = (namesOf qs).length := rfl
              omega

theorem staysBelow_zero_iff (ps : List Part) : staysBelow 0 ps = true ↔ NeverAbove ps := by
  rw [staysBelow_iff_count]
  simp only [Nat.zero_add]
  exact Iff.rfl

/-- **The stack is the normal form.** -/
theorem pushParts_eq (ps : List Part) {pl : Place} (hups : pl.ups = 0) (hrel : pl.absolute = false) :
    pushParts pl.names ps
      = if staysBelow pl.names.length ps then some (ps.foldl Place.step pl).names else none := by
  induction ps generalizing pl with
  | nil => rfl
  | cons part ps ih =>
      cases part with
      | normal n =>
          have hstep := @ih (pl.down n) hups hrel
          have hlen : (pl.down n).names.length = pl.names.length + 1 := by
            simp [Place.down]
          rw [hlen] at hstep
          exact hstep
      | parent =>
          show (if pl.names = [] then none else pushParts pl.names.dropLast ps) = _
          by_cases hnil : pl.names = []
          · rw [if_pos hnil, hnil]
            rfl
          · have hpos : pl.names.length ≠ 0 := fun h => hnil (List.length_eq_zero_iff.mp h)
            have hup : pl.up = { pl with names := pl.names.dropLast } := by simp [Place.up, hnil]
            have hstep := @ih { pl with names := pl.names.dropLast } hups hrel
            rw [if_neg hnil, hstep]
            show (if staysBelow pl.names.dropLast.length ps then _ else none)
              = if (if pl.names.length = 0 then false else staysBelow (pl.names.length - 1) ps) then
                  some (ps.foldl Place.step pl.up).names else none
            rw [if_neg hpos, List.length_dropLast, hup]

/-- What the check lets through, and as what. -/
theorem sanitizeRemotePath_eq_ok_iff (raw : List Char) (p : Path) :
    sanitizeRemotePath raw = .ok p
      ↔ '\x00' ∉ raw ∧ (parse raw).isAbsolute = false ∧ NeverAbove (parse raw).parts
        ∧ (parse raw).normalize.names ≠ []
        ∧ p = ⟨.plain, (parse raw).normalize.names.map .normal⟩ := by
  unfold sanitizeRemotePath
  by_cases hnul : '\x00' ∈ raw
  · rw [if_pos hnul]
    exact iff_of_false (fun h => by cases h) fun h => h.1 hnul
  rw [if_neg hnul]
  cases habs : (parse raw).isAbsolute with
  | true =>
      rw [if_pos rfl]
      exact iff_of_false (fun h => by cases h) fun h => by cases h.2.1
  | false =>
      rw [if_neg Bool.false_ne_true]
      have hrel : (parse raw).head.place.absolute = false := habs
      have hpush := @pushParts_eq (parse raw).parts (parse raw).head.place rfl hrel
      have hbelow := staysBelow_zero_iff (parse raw).parts
      have hstack : pushParts [] (parse raw).parts
          = if staysBelow 0 (parse raw).parts then some (parse raw).normalize.names else none := hpush
      rw [hstack]
      by_cases hb : staysBelow 0 (parse raw).parts = true
      · rw [if_pos hb]
        cases hnames : (parse raw).normalize.names with
        | nil => exact iff_of_false (fun h => by cases h) fun h => h.2.2.2.1 rfl
        | cons n names =>
            constructor
            · intro h
              exact ⟨hnul, rfl, hbelow.mp hb, by simp, (Except.ok.inj h).symm⟩
            · intro h
              rw [h.2.2.2.2]
      · rw [if_neg hb]
        exact iff_of_false (fun h => by cases h) fun h => hb (hbelow.mpr h.2.2.1)

/-- A piece between separators has only characters of the text. -/
theorem mem_of_mem_piece {raw piece : List Char} (hp : piece ∈ raw.splitOn '/') {c : Char}
    (hc : c ∈ piece) : c ∈ raw := by
  induction raw generalizing piece with
  | nil =>
      rw [List.splitOn_nil, List.mem_singleton] at hp
      rw [hp] at hc
      cases hc
  | cons a raw ih =>
      obtain ⟨first, rest, hs⟩ := List.exists_cons_of_ne_nil (List.splitOn_ne_nil '/' raw)
      rw [List.splitOn_cons_eq_if_modifyHead, hs] at hp
      split at hp
      · rcases List.mem_cons.mp hp with hnil | hin
        · rw [hnil] at hc
          cases hc
        · exact List.mem_cons_of_mem _ (ih (hs ▸ hin) hc)
      · rw [List.modifyHead_cons] at hp
        rcases List.mem_cons.mp hp with hfirst | hin
        · rw [hfirst] at hc
          rcases List.mem_cons.mp hc with heq | hc
          · rw [heq]
            exact List.mem_cons_self
          · exact List.mem_cons_of_mem _ (ih (hs ▸ List.mem_cons_self) hc)
        · exact List.mem_cons_of_mem _ (ih (hs ▸ List.mem_cons_of_mem _ hin) hc)

/-- A name in a relative path is a piece of its text. -/
theorem name_mem_pieces {raw : List Char} (habs : (parse raw).isAbsolute = false) {n : Name}
    (hn : Part.normal n ∈ (parse raw).parts) : n.1 ∈ raw.splitOn '/' := by
  have hpiece : ∀ pieces : List (List Char), Part.normal n ∈ pieces.filterMap readPart →
      n.1 ∈ pieces := by
    intro pieces hm
    obtain ⟨piece, hp, hr⟩ := List.mem_filterMap.mp hm
    unfold readPart at hr
    split at hr
    · cases hr
    · split at hr
      · cases hr
        exact hp
      · cases hr
  unfold parse at hn habs
  split at hn
  · cases habs
  · split at hn
    · rename_i rest hs
      rw [hs]
      exact List.mem_cons_of_mem _ (hpiece _ hn)
    · exact hpiece _ hn

/-- What is written out of a normal form has only characters of the path, and separators. -/
theorem nul_notMem_display {raw : List Char} (hnul : '\x00' ∉ raw)
    (habs : (parse raw).isAbsolute = false) :
    '\x00' ∉ Path.display ⟨.plain, (parse raw).normalize.names.map .normal⟩ := by
  intro hmem
  rcases mem_display_names hmem with hslash | ⟨n, hn, hc⟩
  · exact absurd hslash (by decide)
  · rcases mem_names_foldl (p := (parse raw).head.place) hn with hnil | hin
    · cases hnil
    · obtain ⟨part, hpart, hsome⟩ := List.mem_filterMap.mp hin
      cases part with
      | parent => cases hsome
      | normal m =>
          cases hsome
          exact hnul (mem_of_mem_piece (name_mem_pieces habs hpart) hc)

/-- The normal form of a path of names. -/
theorem normalize_names (names : List Name) :
    Path.normalize ⟨.plain, names.map .normal⟩ = ⟨false, 0, names, fun h => by cases h⟩ := by
  have hfold : ∀ (names : List Name) (pl : Place),
      (names.map Part.normal).foldl Place.step pl = { pl with names := pl.names ++ names } := by
    intro names
    induction names with
    | nil =>
        intro pl
        rw [List.append_nil]
        rfl
    | cons n names ih =>
        intro pl
        rw [List.map_cons, List.foldl_cons, ih]
        simp [Place.step, Place.down]
  rw [Path.normalize, hfold]
  rfl

theorem neverAbove_names (names : List Name) : NeverAbove (names.map .normal) := by
  intro qs hqs
  have hnone : qs.count .parent = 0 := by
    rw [List.count_eq_zero]
    intro hmem
    obtain ⟨n, -, hn⟩ := List.mem_map.mp (hqs.subset hmem)
    cases hn
  rw [hnone]
  exact Nat.zero_le _

/-! ## `resolve_path` -/

/-- The directory a relative path belongs to. -/
def ShellContext.baseOf (context : ShellContext) (raw : List Char) : Option AbsPath :=
  if raw = ['~'] ∨ (homeRelative raw).isSome then context.homeDir
  else
    match context.cwd with
    | .ok base => some base
    | .error _ => none

/-- The text behind the tilde is an absolute path of its own that leads elsewhere. -/
def Elsewhere (context : ShellContext) (raw : List Char) : Prop :=
  ∃ rest home, homeRelative raw = some rest ∧ context.homeDir = some home
    ∧ (parse rest).isAbsolute = true ∧ ¬ home.1.normalize.Inside (parse rest).normalize

/-- No piece is `..`, so the path has none. -/
theorem no_parent_of_pieces {raw : List Char} (h : hasParentPiece (· == '/') raw = false) :
    Part.parent ∉ (parse raw).parts := by
  intro hmem
  have hpiece := parent_mem_parse hmem
  rw [List.splitOn_eq_splitOnP] at hpiece
  have hany : hasParentPiece (· == '/') raw = true := List.any_eq_true.mpr ⟨_, hpiece, rfl⟩
  rw [h] at hany
  cases hany

/-- A relative path without `..` stays below what it is joined to. -/
theorem inside_join {base p : Path} (hrel : p.isAbsolute = false) (hp : Part.parent ∉ p.parts) :
    base.normalize.Inside (base.join p).normalize := by
  have hhead : p.head ≠ .rootDir := by
    intro h
    rw [Path.isAbsolute, h] at hrel
    cases hrel
  rw [Path.normalize_join hhead]
  exact inside_of_staysBelow (staysBelow_of_no_parent hp 0) (.refl _) rfl

theorem join_absolute {base p : Path} (habs : p.isAbsolute = true) : base.join p = p := by
  have hhead : p.head = .rootDir := by simpa [Path.isAbsolute] using habs
  rw [Path.join, hhead]

namespace Proof

/-- **`sanitize_remote_path` computes the lexical normal form.** -/
theorem sanitize_remote_path_exact (raw : List Char) :
    ((∃ p, sanitizeRemotePath raw = .ok p)
        ↔ '\x00' ∉ raw ∧ (parse raw).isAbsolute = false ∧ NeverAbove (parse raw).parts
          ∧ (parse raw).normalize.names ≠ [])
      ∧ ∀ p, sanitizeRemotePath raw = .ok p →
        p.normalize = (parse raw).normalize
          ∧ p = ⟨.plain, (parse raw).normalize.names.map .normal⟩
          ∧ sanitizeRemotePath p.display = .ok p := by
  constructor
  · constructor
    · intro h
      obtain ⟨p, hp⟩ := h
      obtain ⟨hnul, habs, habove, hne, -⟩ := (sanitizeRemotePath_eq_ok_iff raw p).mp hp
      exact ⟨hnul, habs, habove, hne⟩
    · intro h
      exact ⟨_, (sanitizeRemotePath_eq_ok_iff raw _).mpr ⟨h.1, h.2.1, h.2.2.1, h.2.2.2, rfl⟩⟩
  · intro p hp
    obtain ⟨hnul, habs, habove, hne, hform⟩ := (sanitizeRemotePath_eq_ok_iff raw p).mp hp
    subst hform
    refine ⟨?_, rfl, ?_⟩
    · -- it never was above its start
      have hbelow := (staysBelow_zero_iff _).mpr habove
      obtain ⟨habsolute, hups, -⟩ :=
        @inside_of_staysBelow (parse raw).head.place _ _ _ hbelow (.refl _) rfl
      rw [normalize_names]
      refine Place.mk.injEq .. ▸ ⟨?_, ?_, rfl⟩
      · exact (habsolute.trans habs).symm
      · exact hups.symm
    · have hread := parse_display_names hne
      rw [sanitizeRemotePath_eq_ok_iff, hread, normalize_names]
      exact ⟨nul_notMem_display hnul habs, rfl, neverAbove_names _, hne, rfl⟩

/-- **A relative request path leads inside its directory exactly if the text behind a tilde is not an
absolute path to elsewhere.** -/
theorem relative_path_inside_iff (context : ShellContext) (raw : List Char) (p : Path)
    (hrel : (parse raw).isAbsolute = false) (hp : context.resolvePath raw = .ok p) :
    (∃ base, context.baseOf raw = some base ∧ base.1.normalize.Inside p.normalize)
      ↔ ¬ Elsewhere context raw := by
  unfold ShellContext.resolvePath at hp
  split at hp
  · cases hp
  rw [hrel, if_neg Bool.false_ne_true] at hp
  by_cases htilde : raw = ['~']
  · rw [if_pos htilde] at hp
    subst htilde
    refine iff_of_true ?_ ?_
    · cases hhome : context.homeDir with
      | none =>
          rw [hhome] at hp
          cases hp
      | some home =>
          rw [hhome] at hp
          cases hp
          exact ⟨home, hhome, .refl _⟩
    · rintro ⟨rest, home, hrest, -⟩
      cases hrest
  rw [if_neg htilde] at hp
  cases hrest : homeRelative raw with
  | some rest =>
      rw [hrest] at hp
      dsimp only at hp
      have hbase : context.baseOf raw = context.homeDir := by
        rw [ShellContext.baseOf, if_pos (.inr (by rw [hrest]; rfl))]
      cases hpiece : hasParentPiece (· == '/') rest with
      | true =>
          rw [hpiece, if_pos rfl] at hp
          cases hp
      | false =>
          rw [hpiece, if_neg Bool.false_ne_true] at hp
          cases hhome : context.homeDir with
          | none =>
              rw [hhome] at hp
              cases hp
          | some home =>
              rw [hhome] at hp
              cases hp
              rw [hbase, hhome]
              cases habs : (parse rest).isAbsolute with
              | false =>
                  refine iff_of_true ⟨home, rfl, inside_join habs (no_parent_of_pieces hpiece)⟩ ?_
                  rintro ⟨rest', home', hrest', -, habs', -⟩
                  rw [hrest] at hrest'
                  cases hrest'
                  rw [habs] at habs'
                  cases habs'
              | true =>
                  -- the join forgets the home directory
                  rw [join_absolute habs]
                  constructor
                  · rintro ⟨base, hsome, hin⟩ ⟨rest', home', hrest', hhome', -, hout⟩
                    cases hsome
                    rw [hrest] at hrest'
                    rw [hhome] at hhome'
                    cases hrest'
                    cases hhome'
                    exact hout hin
                  · intro hnot
                    refine ⟨home, rfl, ?_⟩
                    by_contra hout
                    exact hnot ⟨rest, home, hrest, hhome, habs, hout⟩
  | none =>
      rw [hrest] at hp
      dsimp only at hp
      have hbase : context.baseOf raw
          = match context.cwd with | .ok base => some base | .error _ => none := by
        rw [ShellContext.baseOf, if_neg]
        rw [hrest]
        simpa using htilde
      refine iff_of_true ?_ ?_
      · cases hpiece : hasParentPiece (· == '/') raw || hasParentPiece (· == '\\') raw with
        | true =>
            rw [hpiece, if_pos rfl] at hp
            cases hp
        | false =>
            rw [hpiece, if_neg Bool.false_ne_true] at hp
            cases hcwd : context.cwd with
            | error e =>
                rw [hcwd] at hp
                cases hp
            | ok base =>
                rw [hcwd] at hp
                cases hp
                rw [hbase, hcwd]
                rw [Bool.or_eq_false_iff] at hpiece
                exact ⟨base, rfl, inside_join hrel (no_parent_of_pieces hpiece.1)⟩
      · rintro ⟨rest, home, hsome, -⟩
        rw [hrest] at hsome
        cases hsome

/-- A file in the home directory. -/
theorem relative_path_inside_home :
    let context : ShellContext := .stateless (some ⟨parse ['/', 'h'], rfl⟩)
    (∃ base, context.baseOf ['~', '/', 'e'] = some base
        ∧ base.1.normalize.Inside (parse ['/', 'h', '/', 'e']).normalize)
      ↔ ¬ Elsewhere context ['~', '/', 'e'] :=
  relative_path_inside_iff (.stateless (some ⟨parse ['/', 'h'], rfl⟩)) ['~', '/', 'e']
    (parse ['/', 'h', '/', 'e']) (by decide) (by rfl)

/-- A doubled separator behind the tilde leads to `/e`, which is not in the home directory. -/
theorem relative_path_leaves_home :
    let context : ShellContext := .stateless (some ⟨parse ['/', 'h'], rfl⟩)
    let raw := ['~', '/', '/', 'e']
    (parse raw).isAbsolute = false ∧ context.resolvePath raw = .ok (parse ['/', 'e'])
      ∧ ¬ ∃ base, context.baseOf raw = some base
        ∧ base.1.normalize.Inside (parse ['/', 'e']).normalize := by
  refine ⟨by decide, by rfl, ?_⟩
  rintro ⟨base, hbase, hin⟩
  cases hbase
  exact absurd hin (by decide)

end Proof

end Irosh
