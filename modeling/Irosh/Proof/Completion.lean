import Mathlib.Data.List.Sort
import Mathlib.Data.String.Basic
import Irosh.Server.Completion

/-!
# Live and stateless completion

Three escapes lie on top of each other, and two of them always hold: the shell reads the
script as the one `find` that is meant, and the records of its output come back as they
were printed. The third is that of the pattern. A `*`, `?`, `[` or `]` in brackets is
itself, but a backslash in brackets escapes what is behind it. `[\]` begins a bracket
that has a `]` in it and goes on.

Where such a bracket ends, if it does, depends on what comes next in the prefix. It never
matters: no item of it is a backslash, so either the name that is the prefix does not fit,
or a range has it, and then the first character of that range fits in its place.
-/

namespace Irosh

open UnixPath Wire Fnmatch Serve

/-! ## The shell -/

theorem scan_quoteEscape (w text rest : List Char) :
    Shell.scan (.quoted w) (quoteEscape text ++ rest) = Shell.scan (.quoted (w ++ text)) rest := by
  induction text generalizing w with
  | nil =>
      rw [List.append_nil]
      rfl
  | cons c text ih =>
      have hsnoc : w ++ [c] ++ text = w ++ c :: text := by rw [List.append_assoc]; rfl
      rw [quoteEscape, List.flatMap_cons, List.append_assoc]
      by_cases hc : c = '\''
      · rw [if_pos hc, ← hsnoc, ← ih, hc]
        exact Shell.scan_quote w _
      · rw [if_neg hc, ← hsnoc, ← ih]
        show Shell.scan (.quoted w) (c :: _) = _
        rw [Shell.scan, if_neg hc]
        rfl

/-- **No prefix gets out of its quotes.** -/
theorem simpleCommand_findScript (start : List Char) :
    Shell.simpleCommand (findScript (quoteEscape start)) = some (findWords (start ++ ['*'])) := by
  have hscript : findScript (quoteEscape start)
      = ['f', 'i', 'n', 'd'] ++ ' ' :: (['.'] ++ ' ' :: (['-', 'm', 'a', 'x', 'd', 'e', 'p', 't', 'h']
        ++ ' ' :: (['1'] ++ ' ' :: (['-', 'n', 'a', 'm', 'e'] ++ ' ' :: '\'' :: (quoteEscape start
          ++ '*' :: '\'' :: ' ' :: (['-', 'p', 'r', 'i', 'n', 't', 'f'] ++ ' ' :: '\''
            :: (['%', 'P', '\\', '0', '%', 'y', '\\', '0'] ++ ['\'']))))))) := rfl
  have hprint : Shell.scan .between (['-', 'p', 'r', 'i', 'n', 't', 'f'] ++ ' ' :: '\''
      :: (['%', 'P', '\\', '0', '%', 'y', '\\', '0'] ++ ['\'']))
      = some [['-', 'p', 'r', 'i', 'n', 't', 'f'], ['%', 'P', '\\', '0', '%', 'y', '\\', '0']] := by
    rw [Shell.scan_word (by decide) (by decide)]
    rw [Shell.scan, if_neg (by decide), if_pos rfl, Shell.scan_quoted (by decide)]
    rfl
  have hname : Shell.scan .between ('\'' :: (quoteEscape start ++ '*' :: '\'' :: ' '
      :: (['-', 'p', 'r', 'i', 'n', 't', 'f'] ++ ' ' :: '\''
        :: (['%', 'P', '\\', '0', '%', 'y', '\\', '0'] ++ ['\'']))))
      = some [start ++ ['*'], ['-', 'p', 'r', 'i', 'n', 't', 'f'],
        ['%', 'P', '\\', '0', '%', 'y', '\\', '0']] := by
    show Shell.scan (.quoted []) _ = _
    rw [scan_quoteEscape, List.nil_append]
    rw [Shell.scan, if_neg (by decide), Shell.scan, if_pos rfl, Shell.scan, if_pos rfl, hprint]
    rfl
  rw [Shell.simpleCommand, hscript, Shell.scan_word (by decide) (by decide),
    Shell.scan_word (by decide) (by decide), Shell.scan_word (by decide) (by decide),
    Shell.scan_word (by decide) (by decide), Shell.scan_word (by decide) (by decide), hname]
  rfl

/-! ## The pattern -/

/-- What `glob_escape` puts into brackets. -/
def IsMeta (c : Char) : Prop := c = '*' ∨ c = '?' ∨ c = '[' ∨ c = ']' ∨ c = '\\'

theorem globEscape_meta {c : Char} (h : IsMeta c) (s : List Char) :
    globEscape (c :: s) = '[' :: c :: ']' :: globEscape s := by
  rw [globEscape, List.flatMap_cons]
  exact congrArg (· ++ _) (if_pos h)

theorem globEscape_literal {c : Char} (h : ¬ IsMeta c) (s : List Char) :
    globEscape (c :: s) = c :: globEscape s := by
  rw [globEscape, List.flatMap_cons]
  exact congrArg (· ++ _) (if_neg h)

theorem isLiteral_of_not_meta {c : Char} (h : ¬ IsMeta c) : IsLiteral c :=
  ⟨fun he => h (.inl he), fun he => h (.inr (.inl he)), fun he => h (.inr (.inr (.inl he))),
    fun he => h (.inr (.inr (.inr (.inr he))))⟩

variable (m : Matcher)

/-- Without a backslash the escaped text fits itself and nothing else. -/
theorem fits_globEscape {s : List Char} (h : '\\' ∉ s) (p n : List Char) :
    m.fits (globEscape s ++ p) n = true ↔ ∃ n', n = s ++ n' ∧ m.fits p n' = true := by
  induction s generalizing n with
  | nil =>
      constructor
      · exact fun hfits => ⟨n, rfl, hfits⟩
      · intro hex
        obtain ⟨n', hn, hfits⟩ := hex
        rw [hn]
        exact hfits
  | cons c s ih =>
      have hs : '\\' ∉ s := fun hm => h (List.mem_cons_of_mem _ hm)
      have hstep : m.fits (globEscape (c :: s) ++ p) n = true
          ↔ ∃ n', n = c :: n' ∧ m.fits (globEscape s ++ p) n' = true := by
        by_cases hc : IsMeta c
        · rw [globEscape_meta hc]
          refine m.fits_bracketed ?_ _ n
          rcases hc with hc | hc | hc | hc | hc
          · exact .inl hc
          · exact .inr (.inl hc)
          · exact .inr (.inr (.inl hc))
          · exact .inr (.inr (.inr hc))
          · exact absurd (hc ▸ List.mem_cons_self) h
        · rw [globEscape_literal hc]
          exact m.fits_literal c _ n (isLiteral_of_not_meta hc)
      rw [hstep]
      constructor
      · intro hex
        obtain ⟨n', hn, hfits⟩ := hex
        obtain ⟨n'', hn', hfits'⟩ := (ih hs n').mp hfits
        exact ⟨n'', by rw [hn, hn']; rfl, hfits'⟩
      · intro hex
        obtain ⟨n', hn, hfits⟩ := hex
        exact ⟨s ++ n', hn, (ih hs _).mpr ⟨n', rfl, hfits⟩⟩

/-- **Without a backslash** a name fits if it begins with the prefix. -/
theorem fits_beginning {start : List Char} (h : '\\' ∉ start) (n : List Char) :
    m.fits (globEscape start ++ ['*']) n = start.isPrefixOf n := by
  rw [Bool.eq_iff_iff, fits_globEscape m h, List.isPrefixOf_iff_prefix]
  constructor
  · intro hex
    obtain ⟨n', hn, -⟩ := hex
    exact ⟨n', hn.symm⟩
  · intro hpre
    obtain ⟨n', hn⟩ := hpre
    exact ⟨n', hn.symm, m.fits_anything n'⟩

/-! ## The bracket of a backslash -/

/-- How the bracket that an escaped backslash begins can be read: with items that do not begin with a
backslash, and begin with a character of the prefix or a metacharacter otherwise. -/
def Itemized (s : List Char) : Body → Prop
  | .closed items _ => ∀ item ∈ items,
      match item with
      | .one c => c ≠ '\\'
      | .range a _ => a ≠ '\\' ∧ (a = ']' ∨ a ∈ s)
  | .unclosed => True
  | .other => False

theorem Itemized.add_one {s : List Char} {b : Body} (h : Itemized s b) {c : Char} (hc : c ≠ '\\') :
    Itemized s (b.add (.one c)) := by
  cases b with
  | closed items rest =>
      intro item hitem
      rcases List.mem_cons.mp hitem with rfl | hitem
      · exact hc
      · exact h item hitem
  | unclosed => trivial
  | other => exact h

theorem Itemized.add_range {s : List Char} {b : Body} (h : Itemized s b) {a e : Char}
    (ha : a ≠ '\\' ∧ (a = ']' ∨ a ∈ s)) : Itemized s (b.add (.range a e)) := by
  cases b with
  | closed items rest =>
      intro item hitem
      rcases List.mem_cons.mp hitem with rfl | hitem
      · exact ha
      · exact h item hitem
  | unclosed => trivial
  | other => exact h

theorem IsMeta.ne_symbol {c : Char} (h : IsMeta c) : c ≠ ':' ∧ c ≠ '=' ∧ c ≠ '.' ∧ c ≠ '-' := by
  rcases h with rfl | rfl | rfl | rfl | rfl <;> decide

section

variable {s : List Char}

/-- The text behind the opening bracket of an escaped character. -/
theorem itemized_inside {c : Char} (hc : IsMeta c) {fuel : Nat} {rest : List Char}
    (hfuel : (c :: ']' :: rest).length ≤ fuel)
    (hrest : ∀ fuel, rest.length ≤ fuel → Itemized s (goOn fuel ']' rest)) :
    Itemized s (readBody fuel false (c :: ']' :: rest)) := by
  rcases fuel with _ | _ | fuel
  · exact absurd hfuel (Nat.not_succ_le_zero _)
  · simp only [List.length_cons] at hfuel
    omega
  · simp only [List.length_cons] at hfuel
    have hsingle (d : Char) (hd : d ≠ ']') (hd' : d ≠ '\\') :
        Itemized s (readBody (fuel + 2) false (d :: ']' :: rest)) := by
      have hbracket : ¬ (d = '[' ∧ ((']' :: rest).head? = some ':' ∨ (']' :: rest).head? = some '='
          ∨ (']' :: rest).head? = some '.')) := by
        intro h
        rcases h.2 with h | h | h <;> cases h
      rw [readBody_item hd hbracket (readChar_plain hd' _), goOn_one fun e t h => by cases h]
      refine Itemized.add_one ?_ hd'
      rw [readBody, if_pos ⟨rfl, rfl⟩]
      exact fun item hitem => absurd hitem List.not_mem_nil
    rcases hc with rfl | rfl | rfl | rfl | rfl
    · exact hsingle '*' (by decide) (by decide)
    · exact hsingle '?' (by decide) (by decide)
    · exact hsingle '[' (by decide) (by decide)
    · rw [readBody, if_pos ⟨rfl, rfl⟩]
      exact fun item hitem => absurd hitem List.not_mem_nil
    · -- the backslash takes the bracket's end for an item
      rw [readBody_item (by decide) (fun h => by cases h.1) rfl]
      exact hrest _ (by omega)

/-- **The escaped text is read item by item**, also from inside a bracket and behind a character. -/
theorem itemized_globEscape (v : List Char) (hv : v ⊆ s) :
    (∀ fuel, (globEscape v ++ ['*']).length ≤ fuel → Itemized s (readBody fuel false (globEscape v ++ ['*'])))
      ∧ ∀ fuel a, (globEscape v ++ ['*']).length ≤ fuel → a ≠ '\\' → (a = ']' ∨ a ∈ s) →
        Itemized s (goOn fuel a (globEscape v ++ ['*'])) := by
  induction hn : v.length using Nat.strongRecOn generalizing v with
  | ind n ih =>
      have hread : ∀ fuel, (globEscape v ++ ['*']).length ≤ fuel →
          Itemized s (readBody fuel false (globEscape v ++ ['*'])) := by
        intro fuel hfuel
        cases v with
        | nil =>
            cases fuel with
            | zero => exact absurd hfuel (Nat.not_succ_le_zero _)
            | succ fuel =>
                show Itemized s (readBody (fuel + 1) false ['*'])
                rw [readBody_item (by decide) (fun h => by cases h.1) rfl, goOn_one fun e t h => by cases h]
                refine Itemized.add_one ?_ (by decide)
                rw [readBody]
                trivial
        | cons c v =>
            have hv' : v ⊆ s := fun x hx => hv (List.mem_cons_of_mem _ hx)
            have hshorter : v.length < n := by
              rw [← hn]
              exact Nat.lt_succ_self _
            obtain ⟨-, hbehind⟩ := ih v.length hshorter v hv' rfl
            cases fuel with
            | zero =>
                rw [List.length_append, List.length_singleton] at hfuel
                omega
            | succ fuel =>
                by_cases hc : IsMeta c
                · rw [globEscape_meta hc] at hfuel ⊢
                  simp only [List.cons_append, List.length_cons] at hfuel ⊢
                  obtain ⟨hcolon, heq, hdot, hdash⟩ := hc.ne_symbol
                  rw [readBody_item (by decide) (by simp [hcolon, heq, hdot]) (readChar_plain (by decide) _),
                    goOn_one fun e t h => hdash (List.cons.inj h).1]
                  refine Itemized.add_one (itemized_inside hc ?_ fun f hf => ?_) (by decide)
                  · simp only [List.length_cons]
                    omega
                  · exact hbehind f ']' hf (by decide) (.inl rfl)
                · have hlit := isLiteral_of_not_meta hc
                  have hclose : c ≠ ']' := fun he => hc (.inr (.inr (.inr (.inl he))))
                  rw [globEscape_literal hc] at hfuel ⊢
                  simp only [List.cons_append, List.length_cons] at hfuel ⊢
                  rw [readBody_item hclose (fun h => hlit.2.2.1 h.1) (readChar_plain hlit.2.2.2 _)]
                  exact hbehind fuel c (by omega) hlit.2.2.2 (.inr (hv List.mem_cons_self))
      refine ⟨hread, fun fuel a hfuel ha hmem => ?_⟩
      by_cases hdash : ∃ w, v = '-' :: w
      · obtain ⟨w, rfl⟩ := hdash
        have hlit : ¬ IsMeta '-' := by
          intro h
          exact h.ne_symbol.2.2.2 rfl
        rw [globEscape_literal hlit] at hfuel ⊢
        cases w with
        | nil =>
            show Itemized s (goOn fuel a ['-', '*'])
            rw [goOn_range (by decide) (fun h => by cases h.1) rfl]
            refine Itemized.add_range ?_ ⟨ha, hmem⟩
            rw [readBody]
            trivial
        | cons e w =>
            have hw : w ⊆ s := fun x hx => hv (List.mem_cons_of_mem _ (List.mem_cons_of_mem _ hx))
            have hshorter : w.length < n := by
              rw [← hn, List.length_cons, List.length_cons]
              omega
            obtain ⟨hinside, hbehind⟩ := ih w.length hshorter w hw rfl
            by_cases he : IsMeta e
            · rw [globEscape_meta he] at hfuel ⊢
              simp only [List.cons_append, List.length_cons] at hfuel ⊢
              rw [goOn_range (by decide) (by simp [he.ne_symbol.2.2.1]) (readChar_plain (by decide) _)]
              refine Itemized.add_range (itemized_inside he ?_ fun f hf => ?_) ⟨ha, hmem⟩
              · simp only [List.length_cons]
                omega
              · exact hbehind f ']' hf (by decide) (.inl rfl)
            · have helit := isLiteral_of_not_meta he
              have hclose : e ≠ ']' := fun h => he (.inr (.inr (.inr (.inl h))))
              rw [globEscape_literal he] at hfuel ⊢
              simp only [List.cons_append, List.length_cons] at hfuel ⊢
              rw [goOn_range hclose (fun h => helit.2.2.1 h.1) (readChar_plain helit.2.2.2 _)]
              exact Itemized.add_range (hinside fuel (by omega)) ⟨ha, hmem⟩
      · have hone : ∀ e t, globEscape v ++ ['*'] ≠ '-' :: e :: t := by
          intro e t h
          cases v with
          | nil => cases h
          | cons c v =>
              by_cases hc : IsMeta c
              · rw [globEscape_meta hc] at h
                cases h
              · rw [globEscape_literal hc] at h
                exact hdash ⟨v, by rw [(List.cons.inj h).1]⟩
        rw [goOn_one hone]
        exact Itemized.add_one (hread fuel hfuel) ha

end

theorem validName_of_mem {n : List Char} {c : Char} (hc : c ≠ '.') (h : c ∈ n) (hslash : '/' ∉ n) :
    ValidName n := by
  refine ⟨fun hn => ?_, fun hn => ?_, fun hn => ?_, hslash⟩
  · rw [hn] at h
    cases h
  · rw [hn] at h
    exact hc (List.mem_singleton.mp h)
  · rw [hn] at h
    rcases List.mem_cons.mp h with h | h
    · exact hc h
    · exact hc (List.mem_singleton.mp h)

theorem globEscape_append (u v : List Char) : globEscape (u ++ v) = globEscape u ++ globEscape v :=
  List.flatMap_append

/-- A character behind `u`, in place of the backslash: it is part of a bracket that is closed. -/
theorem fits_behind {u v x : List Char} (hu : '\\' ∉ u) :
    m.fits (globEscape (u ++ '\\' :: v) ++ ['*']) (u ++ x)
      = m.fits ('[' :: '\\' :: ']' :: (globEscape v ++ ['*'])) x := by
  have hpattern : globEscape (u ++ '\\' :: v) ++ ['*']
      = globEscape u ++ '[' :: '\\' :: ']' :: (globEscape v ++ ['*']) := by
    rw [globEscape_append, globEscape_meta (.inr (.inr (.inr (.inr rfl)))), List.append_assoc]
    rfl
  rw [hpattern, Bool.eq_iff_iff, fits_globEscape m hu]
  constructor
  · intro hex
    obtain ⟨n', hn, hfits⟩ := hex
    rw [List.append_cancel_left hn]
    exact hfits
  · exact fun hfits => ⟨x, rfl, hfits⟩

theorem itemized_bracket (v : List Char) :
    Itemized v (readBody ('\\' :: ']' :: (globEscape v ++ ['*'])).length true
      ('\\' :: ']' :: (globEscape v ++ ['*']))) := by
  have hread : readBody ((']' :: (globEscape v ++ ['*'])).length + 1) true
      ('\\' :: ']' :: (globEscape v ++ ['*']))
        = goOn (']' :: (globEscape v ++ ['*'])).length ']' (globEscape v ++ ['*']) :=
    readBody_step (by decide) (fun h => by cases h.1) (by decide) rfl
  rw [List.length_cons, hread]
  exact (itemized_globEscape v (List.Subset.refl v)).2 _ ']' (Nat.le_succ _) (by decide) (.inl rfl)

/-- What fits in place of the backslash although it is none. -/
theorem exists_instead {v : List Char}
    (hfits : m.fits ('[' :: '\\' :: ']' :: (globEscape v ++ ['*'])) ('\\' :: v) = true) :
    ∃ a, a ≠ '\\' ∧ (a = ']' ∨ a ∈ v) ∧ ¬ (v = [] ∨ v = ['.'])
      ∧ m.fits ('[' :: '\\' :: ']' :: (globEscape v ++ ['*'])) (a :: v) = true := by
  have hitems := itemized_bracket v
  cases hbody : readBody ('\\' :: ']' :: (globEscape v ++ ['*'])).length true
      ('\\' :: ']' :: (globEscape v ++ ['*'])) with
  | closed items rest =>
      rw [hbody] at hitems
      have hclosed := m.fits_closed ('\\' :: ']' :: (globEscape v ++ ['*'])) items rest
      obtain ⟨c, n', hn, ⟨item, hitem, hhas⟩, hrest⟩ := (hclosed _ hbody).mp hfits
      obtain ⟨rfl, rfl⟩ := List.cons.inj hn
      have hof := hitems item hitem
      cases item with
      | one c => exact absurd (of_decide_eq_true hhas) (show c ≠ '\\' from hof)
      | range a b =>
          refine ⟨a, hof.1, hof.2, fun hdots => ?_, ?_⟩
          · -- nothing would have closed the bracket
            have hopen : readBody ('\\' :: ']' :: (globEscape v ++ ['*'])).length true
                ('\\' :: ']' :: (globEscape v ++ ['*'])) = .unclosed := by
              rcases hdots with rfl | rfl <;> rfl
            rw [hbody] at hopen
            cases hopen
          · exact (hclosed _ hbody).mpr
              ⟨a, v, rfl, ⟨.range a b, hitem, m.within_first a b _ hhas⟩, hrest⟩
  | unclosed =>
      obtain ⟨n', hn⟩ := m.fits_unclosed _ _ hbody hfits
      cases hn
  | other =>
      rw [hbody] at hitems
      exact hitems.elim

theorem notMem_instead {u v : List Char} {a c : Char} (h : c ∉ u ++ '\\' :: v) (hc : c ≠ ']')
    (ha : a = ']' ∨ a ∈ v) : c ∉ u ++ a :: v := by
  intro hm
  rcases List.mem_append.mp hm with hm | hm
  · exact h (List.mem_append_left _ hm)
  · rcases List.mem_cons.mp hm with heq | hm
    · rcases ha with ha | ha
      · exact hc (heq.trans ha)
      · rw [← heq] at ha
        exact h (List.mem_append_right _ (List.mem_cons_of_mem _ ha))
    · exact h (List.mem_append_right _ (List.mem_cons_of_mem _ hm))

theorem validName_instead {u v : List Char} {a : Char} (hslash : '/' ∉ u ++ '\\' :: v)
    (ha : a = ']' ∨ a ∈ v) (hdots : ¬ (v = [] ∨ v = ['.'])) : ValidName (u ++ a :: v) := by
  refine ⟨by simp, fun h => ?_, fun h => ?_, notMem_instead hslash (by decide) ha⟩
  · have hlen := congrArg List.length h
    simp only [List.length_append, List.length_cons, List.length_nil] at hlen
    exact hdots (.inl (List.length_eq_zero_iff.mp (by omega)))
  · cases u with
    | nil => exact hdots (.inr (List.cons.inj h).2)
    | cons x u =>
        have hlen := congrArg List.length h
        simp only [List.cons_append, List.length_append, List.length_cons, List.length_nil] at hlen
        exact hdots (.inl (List.length_eq_zero_iff.mp (by omega)))

/-- **With a backslash** there is a name that fits and does not begin with the prefix, or the other way
round. -/
theorem exists_misfit {start : List Char} (h : '\\' ∈ start) (hslash : '/' ∉ start)
    (hnul : '\x00' ∉ start) :
    ∃ n : Name, '\x00' ∉ n.1 ∧ m.fits (globEscape start ++ ['*']) n.1 ≠ start.isPrefixOf n.1 := by
  obtain ⟨u, v, rfl, hu⟩ := List.eq_append_cons_of_mem h
  by_cases hfits : m.fits ('[' :: '\\' :: ']' :: (globEscape v ++ ['*'])) ('\\' :: v) = true
  · obtain ⟨a, hne, ha, hdots, hfits'⟩ := exists_instead m hfits
    have hnone : (u ++ '\\' :: v).isPrefixOf (u ++ a :: v) = false := by
      rw [Bool.eq_false_iff]
      intro hpre
      have hprefix := (List.prefix_append_right_inj u).mp (List.isPrefixOf_iff_prefix.mp hpre)
      exact hne (List.cons_prefix_cons.mp hprefix).1.symm
    refine ⟨⟨u ++ a :: v, validName_instead hslash ha hdots⟩, notMem_instead hnul (by decide) ha, ?_⟩
    rw [fits_behind m hu, hfits', hnone]
    exact Bool.noConfusion
  · have hself : (u ++ '\\' :: v).isPrefixOf (u ++ '\\' :: v) = true :=
      List.isPrefixOf_iff_prefix.mpr List.prefix_rfl
    refine ⟨⟨u ++ '\\' :: v, validName_of_mem (by decide) h hslash⟩, hnul, ?_⟩
    rw [fits_behind m hu, hself]
    exact hfits

/-! ## What `find` has printed -/

/-- An entry as it is offered. -/
def DirItem.shown (item : DirItem) : List Char :=
  if item.isDir then item.name.1 ++ ['/'] else item.name.1

theorem findTypeEntries_record {name : List Char} (hnul : '\x00' ∉ name) {letter : UInt8}
    (hletter : letter ≠ 0) (rest : List UInt8) :
    (SearchDir.record name letter ++ rest).splitOn 0 = Utf8.encode name :: [letter] :: rest.splitOn 0 := by
  have hrecord : SearchDir.record name letter ++ rest = Utf8.encode name ++ 0 :: ([letter] ++ 0 :: rest) := by
    rw [SearchDir.record, List.append_assoc]
    rfl
  rw [hrecord, List.splitOn_append_cons_self_of_not_mem (Utf8.zero_notMem_encode hnul),
    List.splitOn_append_cons_self_of_not_mem fun hm => hletter (List.mem_singleton.mp hm).symm]

/-- Records of entries read back as the entries. -/
theorem findTypeEntries_records (items : List DirItem) :
    findTypeEntries ((items.flatMap fun item => SearchDir.record item.name.1 item.letter).splitOn 0)
      = items.map DirItem.shown := by
  induction items with
  | nil => rfl
  | cons item items ih =>
      have hne : Utf8.encode item.name.1 ≠ [] := by
        intro hnil
        have hback := Utf8.decodeLossy_encode item.name.1
        rw [hnil] at hback
        exact item.name.2.1 hback.symm
      rw [List.flatMap_cons, findTypeEntries_record item.named item.letter_ne, findTypeEntries,
        if_neg hne, ih,
        Utf8.decodeLossy_encode, List.map_cons, DirItem.shown]
      by_cases hdir : item.isDir = true
      · rw [if_pos hdir, item.letter_dir.mpr hdir]
        rfl
      · have hletter : ¬ [item.letter] = [100] := by
          intro h
          exact hdir (item.letter_dir.mp (List.singleton_inj.mp h))
        rw [if_neg hletter, if_neg hdir, List.append_nil]

namespace SearchDir

variable (d : SearchDir)

/-- The starting point is passed over: its name is empty. -/
theorem parse_output (pattern : List Char) :
    parseFindTypeEntries (d.output m pattern)
      = (d.found.filter fun item => m.fits pattern item.name.1).map DirItem.shown := by
  rw [parseFindTypeEntries, output]
  split
  · rw [findTypeEntries_record List.not_mem_nil (by decide)]
    exact findTypeEntries_records _
  · exact findTypeEntries_records _

theorem nul_mem_globEscape (start : List Char) : '\x00' ∈ globEscape start ↔ '\x00' ∈ start := by
  rw [globEscape, List.mem_flatMap]
  constructor
  · intro h
    obtain ⟨c, hc, hm⟩ := h
    split at hm
    · have hc' : '\x00' = c := by
        rcases List.mem_cons.mp hm with h | hm
        · exact absurd h (by decide)
        · rcases List.mem_cons.mp hm with h | hm
          · exact h
          · exact absurd (List.mem_singleton.mp hm) (by decide)
      rw [hc']
      exact hc
    · rw [List.mem_singleton.mp hm]
      exact hc
  · exact fun h => ⟨'\x00', h, List.mem_singleton.mpr rfl⟩

theorem nul_mem_quoteEscape (text : List Char) : '\x00' ∈ quoteEscape text ↔ '\x00' ∈ text := by
  rw [quoteEscape, List.mem_flatMap]
  constructor
  · intro h
    obtain ⟨c, hc, hm⟩ := h
    split at hm
    · exact absurd hm (by decide)
    · rw [List.mem_singleton.mp hm]
      exact hc
  · exact fun h => ⟨'\x00', h, List.mem_singleton.mpr rfl⟩

/-- The script around a prefix has no NUL of its own. -/
theorem nul_mem_findScript (escaped : List Char) : '\x00' ∈ findScript escaped ↔ '\x00' ∈ escaped := by
  have hfront : '\x00' ∉ "find . -maxdepth 1 -name '".toList := by simp
  have hback : '\x00' ∉ "*' -printf '%P\\0%y\\0'".toList := by simp
  unfold findScript
  generalize "find . -maxdepth 1 -name '".toList = front at hfront ⊢
  generalize "*' -printf '%P\\0%y\\0'".toList = back at hback ⊢
  constructor
  · intro h
    rcases List.mem_append.mp h with h | h
    · exact absurd h hfront
    · rcases List.mem_append.mp h with h | h
      · exact h
      · exact absurd h hback
  · exact fun h => List.mem_append_right _ (List.mem_append_left _ h)

/-- **The live matches.** -/
theorem matches_live {context : ShellContext} (hc : context.isLive = true) (dir : Path) (start : List Char) :
    d.sortedMatches m context dir start
      = sortMatches (if '\x00' ∈ start then []
          else (d.found.filter fun item => m.fits (globEscape start ++ ['*']) item.name.1).map
            DirItem.shown) := by
  have hanswer : (answer m (.findNames dir (quoteEscape (globEscape start))) d).1
      = if '\x00' ∈ start then none else some (d.output m (globEscape start ++ ['*'])) := by
    show (if '\x00' ∈ findScript (quoteEscape (globEscape start)) then none
      else (Shell.simpleCommand (findScript (quoteEscape (globEscape start)))).bind (d.spawn m)) = _
    simp only [nul_mem_findScript, nul_mem_quoteEscape, nul_mem_globEscape]
    split
    · rfl
    · rw [simpleCommand_findScript]
      exact if_pos rfl
  have hrun : ((completionMatches context dir start).eval (answer m) d).1
      = (((answer m (.findNames dir (quoteEscape (globEscape start))) d).1).map
        parseFindTypeEntries).getD [] := by
    rw [completionMatches, if_pos hc]
    rfl
  rw [sortedMatches, hrun, hanswer]
  split
  · rfl
  · rw [Option.map_some, Option.getD_some, parse_output]

/-- **The stateless matches.** -/
theorem matches_stateless {context : ShellContext} (hc : context.isLive = false) (dir : Path)
    (start : List Char) :
    d.sortedMatches m context dir start
      = sortMatches ((d.listed.filter fun item => start.isPrefixOf item.name.1).map DirItem.shown) := by
  have hrun : ((completionMatches context dir start).eval (answer m) d).1
      = (d.listed.map fun item => (item.name.1, item.isDir)).filterMap fun entry =>
          if start.isPrefixOf entry.1 then some (if entry.2 then entry.1 ++ ['/'] else entry.1)
            else none := by
    rw [completionMatches, if_neg (by rw [hc]; exact Bool.false_ne_true)]
    rfl
  have hfilter : ∀ items : List DirItem,
      ((items.map fun item => (item.name.1, item.isDir)).filterMap fun entry =>
          if start.isPrefixOf entry.1 then some (if entry.2 then entry.1 ++ ['/'] else entry.1) else none)
        = (items.filter fun item => start.isPrefixOf item.name.1).map DirItem.shown := by
    intro items
    induction items with
    | nil => rfl
    | cons item items ih =>
        rw [List.map_cons, List.filterMap_cons, ih]
        by_cases hpre : start.isPrefixOf item.name.1 = true
        · rw [if_pos hpre, List.filter_cons, if_pos hpre]
          rfl
        · rw [if_neg hpre, List.filter_cons, if_neg hpre]
  rw [sortedMatches, hrun, hfilter]

end SearchDir

theorem sortMatches_perm {a b : List (List Char)} (h : a.Perm b) : sortMatches a = sortMatches b := by
  have hsorted (l : List String) : (l.mergeSort fun a b => decide (a ≤ b)).Pairwise (· ≤ ·) :=
    List.pairwise_mergeSort' (· ≤ ·) l
  refine ((List.mergeSort_perm _ _).trans
    ((h.map String.ofList).trans (List.mergeSort_perm _ _).symm)).eq_of_pairwise
    (fun x y _ _ hxy hyx => le_antisymm hxy hyx) (hsorted _) (hsorted _)

theorem length_sortMatches (found : List (List Char)) : (sortMatches found).length = found.length := by
  rw [sortMatches, List.length_mergeSort, List.length_map]

namespace Proof

/-- What is expected of a prefix: the shell reads one `find`, with the prefix and a `*` behind it as the
name, and in every directory the live matches are the stateless ones, which are the names that begin with
the prefix. -/
structure CompletionAgrees (m : Matcher) (start : List Char) : Prop where
  command : Shell.simpleCommand (findScript (quoteEscape (globEscape start)))
    = some (findWords (globEscape start ++ ['*']))
  live : ∀ (d : SearchDir) (live stateless : ShellContext) (dir : Path), live.isLive = true →
    stateless.isLive = false → d.sortedMatches m live dir start = d.sortedMatches m stateless dir start
  stateless : ∀ (d : SearchDir) (stateless : ShellContext) (dir : Path), stateless.isLive = false →
    d.sortedMatches m stateless dir start
      = sortMatches ((d.listed.filter fun item => start.isPrefixOf item.name.1).map DirItem.shown)

variable {m}

theorem agrees_of_filters {start : List Char}
    (h : ∀ items : List DirItem,
      (if '\x00' ∈ start then []
          else (items.filter fun item => m.fits (globEscape start ++ ['*']) item.name.1).map DirItem.shown)
        = (items.filter fun item => start.isPrefixOf item.name.1).map DirItem.shown) :
    CompletionAgrees m start where
  command := simpleCommand_findScript _
  live := by
    intro d live stateless dir hl hs
    rw [d.matches_live m hl, d.matches_stateless m hs, h]
    exact sortMatches_perm ((d.same.symm.filter _).map _)
  stateless := fun d _ dir hs => d.matches_stateless m hs dir start

/-- Any prefix without a backslash, and one with a NUL, which no name has. -/
theorem agrees_of_no_backslash {start : List Char} (h : '\\' ∉ start ∨ '\x00' ∈ start) :
    CompletionAgrees m start := by
  refine agrees_of_filters fun items => ?_
  by_cases hnul : '\x00' ∈ start
  · have hnone : (items.filter fun item => start.isPrefixOf item.name.1) = [] := by
      refine List.filter_eq_nil_iff.mpr fun item _ hpre => ?_
      exact item.named ((List.isPrefixOf_iff_prefix.mp hpre).subset hnul)
    rw [if_pos hnul, hnone]
    rfl
  · rw [if_neg hnul]
    simp only [fits_beginning m (h.resolve_right hnul)]

theorem letter_file : (102 : UInt8) = 100 ↔ false = true := by decide

theorem letter_file_ne : (102 : UInt8) ≠ 0 := by decide

/-- A directory with a single file in it. -/
def oneFile (n : Name) (hn : '\x00' ∉ n.1) : SearchDir where
  listed := [⟨n, false, 102, hn, letter_file, letter_file_ne⟩]
  found := [⟨n, false, 102, hn, letter_file, letter_file_ne⟩]
  same := List.Perm.refl _

/-- In a directory with one file, the two agree if the file fits exactly when it begins with the
prefix. -/
theorem fits_of_agrees {start : List Char} (h : CompletionAgrees m start) (hnul : '\x00' ∉ start) (n : Name)
    (hn : '\x00' ∉ n.1) : m.fits (globEscape start ++ ['*']) n.1 = start.isPrefixOf n.1 := by
  have hsame := h.live (oneFile n hn) (.live 1 none none) (.stateless none) .dot rfl rfl
  rw [SearchDir.matches_live m _ rfl, SearchDir.matches_stateless m _ rfl, if_neg hnul] at hsame
  have hlen := congrArg List.length hsame
  rw [length_sortMatches, length_sortMatches, List.length_map, List.length_map] at hlen
  simp only [oneFile, List.filter_cons, List.filter_nil] at hlen
  cases hfits : m.fits (globEscape start ++ ['*']) n.1 <;> cases hpre : start.isPrefixOf n.1 <;>
    simp [hfits, hpre] at hlen ⊢

theorem slash_notMem_searchIn (path : List Char) (resolved : Path) : '/' ∉ (searchIn path resolved).2 := by
  unfold searchIn
  split
  · exact List.not_mem_nil
  · cases resolved.fileName with
    | none => exact List.not_mem_nil
    | some n => exact n.2.2.2.2

/-- **Live and stateless completion agree on a prefix exactly if there is no backslash in it** (or a NUL,
with which there are no matches at all). The prefixes are those of any request, wherever it resolves. -/
theorem completion_agrees_iff (m : Matcher) (path : List Char) (resolved : Path) :
    CompletionAgrees m (searchIn path resolved).2
      ↔ '\\' ∉ (searchIn path resolved).2 ∨ '\x00' ∈ (searchIn path resolved).2 := by
  refine ⟨fun h => ?_, agrees_of_no_backslash⟩
  by_contra hcond
  rw [not_or, not_not] at hcond
  obtain ⟨n, hn, hmisfit⟩ := exists_misfit m hcond.1 (slash_notMem_searchIn path resolved) hcond.2
  exact hmisfit (fits_of_agrees h hcond.2 n hn)

/-- A file named `\` is not found: `[\]*` has no end of its bracket. -/
theorem backslash_not_found : ¬ ∀ m start, CompletionAgrees m start := by
  intro h
  have hfits := fits_of_agrees (h codeOrder ['\\']) (by decide) ⟨['\\'], by decide⟩ (by decide)
  have hself : (['\\'] : List Char).isPrefixOf ['\\'] = true := rfl
  obtain ⟨n', hn⟩ := codeOrder.fits_unclosed ['\\', ']', '*'] ['\\'] rfl (hfits.trans hself)
  cases hn

end Proof

end Irosh
