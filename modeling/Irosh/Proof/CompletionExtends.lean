import Irosh.Proof.PathCompletion

/-!
# Completing a path of the peer

The peer is asked about the token and answers with names. A name is written over the whole
token and not quoted. So a token with a slash in it is never extended, and one without is
exactly if the name that is found has neither a quote nor a whitespace in it.
-/

namespace Irosh

namespace CompleteLine

open Metadata Quoted Targets UnixPath

/-- What `handle_completion_request` answers, with the directories of the peer. -/
def serverAnswer (m : Fnmatch.Matcher) (context : ShellContext) (dirAt : Path → SearchDir)
    (path : List Char) : Except String (List String) :=
  match context.resolvePath path with
  | .error e => .error e.text
  | .ok resolved => .ok ((dirAt (Serve.searchIn path resolved).1).sortedMatches m context
      (Serve.searchIn path resolved).1 (Serve.searchIn path resolved).2)

/-- The directory that a token names on the peer. -/
def peerDir (context : ShellContext) (raw : List Char) : Except PathError Path :=
  if dirPart raw = [] then
    match context.cwd with
    | .ok base => .ok base.1
    | .error e => .error e
  else context.resolvePath (dirPart raw)

/-- The value leads to an entry of the directory that the token names on the peer. -/
def LeadsRemote (context : ShellContext) (dirAt : Path → SearchDir) (raw value : List Char) : Prop :=
  ∃ dir item, peerDir context raw = .ok dir ∧ item ∈ (dirAt dir).listed
    ∧ context.resolvePath value = .ok (dir.child item.name)

/-- A token that is neither the directory nor the home, and has no backslash. -/
structure PlainRemote (raw : List Char) : Prop where
  ne_dot : raw ≠ ['.']
  ne_home : raw ≠ ['~']
  no_backslash : '\\' ∉ raw

/-- A character that is written as it is and read as it is. -/
def IsBare (c : Char) : Prop := isQuote c = false ∧ isWhitespace c = false

/-- The token has no directory in it, and every entry that begins like it can be written as it is. -/
def RemoteWritable (context : ShellContext) (dirAt : Path → SearchDir) (raw : List Char) : Prop :=
  '/' ∉ raw ∧ ∀ dir, peerDir context raw = .ok dir → ∀ item ∈ (dirAt dir).listed, raw <+: item.name.1 →
    ∀ c ∈ item.name.1, IsBare c

variable {text : List Char} {cursor : Nat} {parsed : ParsedLine} {t : Token} {edit : CompletionEdit}
  {m : Fnmatch.Matcher} {context : ShellContext} {dirAt : Path → SearchDir} {raw : List Char}

/-! ## The answer -/

theorem shown_eq (item : DirItem) : item.shown = item.name.1 ++ slashIf item.isDir := by
  unfold DirItem.shown slashIf
  cases item.isDir with
  | true => rfl
  | false => exact (List.append_nil _).symm

/-- The match of the peer is a word. -/
theorem shown_wordAnd (item : DirItem) : ∃ gap,
    WordAnd (if item.shown.getLast? = some '/' then item.shown else item.shown ++ [' ']) item.shown gap := by
  have hne : item.shown ≠ [] := by
    rw [shown_eq]
    exact fun hnil => item.name.2.1 (List.append_eq_nil_iff.mp hnil).1
  split
  · rename_i hlast
    refine ⟨_, wordAnd_self hne ?_⟩
    rw [hlast]
    decide
  · exact ⟨_, wordAnd_blank hne⟩

theorem sortMatches_eq_singleton {found : List (List Char)} {single : String}
    (h : Serve.sortMatches found = [single]) : found = [single.toList] := by
  obtain ⟨s, rfl, hs⟩ := eq_singleton_of_mergeSort h
  rw [← hs, String.toList_ofList]

/-- A single answer is the name of an entry, and the only one that begins like the prefix unless the
prefix has a backslash. -/
theorem sortedMatches_single {d : SearchDir} {dir : Path} {start : List Char} {single : String}
    (h : d.sortedMatches m context dir start = [single]) :
    ∃ item ∈ d.listed, single.toList = item.shown
      ∧ ('\\' ∉ start → (d.listed.filter fun item => start.isPrefixOf item.name.1) = [item]) := by
  have hplain (hc : d.sortedMatches m context dir start
      = Serve.sortMatches ((d.listed.filter fun item => start.isPrefixOf item.name.1).map DirItem.shown)) :
      ∃ item ∈ d.listed, single.toList = item.shown
        ∧ ('\\' ∉ start → (d.listed.filter fun item => start.isPrefixOf item.name.1) = [item]) := by
    rw [hc] at h
    obtain ⟨item, hitem, hshown⟩ := List.map_eq_singleton_iff.mp (sortMatches_eq_singleton h)
    have hmem : item ∈ d.listed.filter fun item => start.isPrefixOf item.name.1 := by
      rw [hitem]
      exact List.mem_singleton.mpr rfl
    exact ⟨item, (List.mem_filter.mp hmem).1, hshown.symm, fun _ => hitem⟩
  cases hl : context.isLive with
  | false => exact hplain (d.matches_stateless m hl dir start)
  | true =>
      by_cases hback : '\\' ∈ start
      · rw [d.matches_live m hl] at h
        have hfound := sortMatches_eq_singleton h
        split at hfound
        · cases hfound
        · obtain ⟨item, hitem, hshown⟩ := List.map_eq_singleton_iff.mp hfound
          have hmem : item ∈ d.found.filter fun item =>
              m.fits (Serve.globEscape start ++ ['*']) item.name.1 := by
            rw [hitem]
            exact List.mem_singleton.mpr rfl
          exact ⟨item, d.same.symm.subset (List.mem_filter.mp hmem).1, hshown.symm,
            fun hnot => absurd hback hnot⟩
      · have hsame :=
          (Proof.agrees_of_no_backslash (m := m) (.inl hback)).live d context (.stateless none) dir hl rfl
        exact hplain (hsame.trans (d.matches_stateless m rfl dir start))

/-- A single match without a live shell is the answer. -/
theorem serverAnswer_single (m : Fnmatch.Matcher) {home : Option AbsPath} {resolved dir : Path}
    {start : List Char} {item : DirItem}
    (hresolve : ShellContext.resolvePath (.stateless home) raw = .ok resolved)
    (hsearch : Serve.searchIn raw resolved = (dir, start))
    (hone : ((dirAt dir).listed.filter fun item => start.isPrefixOf item.name.1) = [item]) :
    serverAnswer m (.stateless home) dirAt raw = .ok [String.ofList item.shown] := by
  rw [serverAnswer, hresolve]
  dsimp only
  rw [hsearch, SearchDir.matches_stateless m _ rfl, hone, List.map_singleton, Serve.sortMatches,
    List.map_singleton, List.mergeSort_singleton]

/-- A single answer is written. -/
theorem completeRemotePath_single (parsed : ParsedLine) (shown : List Char) :
    completeRemotePath parsed (.ok [String.ofList shown])
      = (replaceActive parsed (if shown.getLast? = some '/' then shown else shown ++ [' '])).map .ok := by
  rw [completeRemotePath, List.mergeSort_singleton]
  dsimp only
  rw [String.toList_ofList]

/-- A completion that is applied writes the one answer. -/
theorem completeRemotePath_applied
    (h : completeRemotePath parsed (serverAnswer m context dirAt raw) = some (.ok (.applied edit))) :
    ∃ resolved item, context.resolvePath raw = .ok resolved
      ∧ item ∈ (dirAt (Serve.searchIn raw resolved).1).listed
      ∧ ('\\' ∉ (Serve.searchIn raw resolved).2 →
        ((dirAt (Serve.searchIn raw resolved).1).listed.filter fun item =>
          (Serve.searchIn raw resolved).2.isPrefixOf item.name.1) = [item])
      ∧ replaceActive parsed (if item.shown.getLast? = some '/' then item.shown else item.shown ++ [' '])
        = some (.applied edit) := by
  rw [serverAnswer] at h
  cases hresolve : context.resolvePath raw with
  | error e =>
      rw [hresolve] at h
      cases h
  | ok resolved =>
      rw [hresolve, completeRemotePath] at h
      split at h
      · cases h
      · rename_i single hsingle
        rw [← List.map_id ((dirAt (Serve.searchIn raw resolved).1).sortedMatches m context _ _)] at hsingle
        obtain ⟨s, hs, rfl⟩ := eq_singleton_of_mergeSort hsingle
        obtain ⟨item, hitem, hshown, honly⟩ := sortedMatches_single hs
        obtain ⟨result, hresult, heq⟩ := Option.map_eq_some_iff.mp h
        cases heq
        rw [id, hshown] at hresult
        exact ⟨resolved, item, rfl, hitem, honly, hresult⟩
      · cases h

/-! ## One name -/

theorem parse_name (y : Name) (isDir : Bool) : parse (y.1 ++ slashIf isDir) = Path.ofName y :=
  parse_name_behind (.inl rfl) y (slashIf_cases isDir)

/-- A name that is not under the home. -/
theorem homeRelative_name {y : Name} (isDir : Bool) (hne : y.1 ≠ ['~'])
    (hback : ∀ s, y.1 ≠ '~' :: '\\' :: s) :
    homeRelative (y.1 ++ slashIf isDir) = none := by
  unfold homeRelative
  split
  · rename_i heq
    obtain ⟨name, hy, hslash⟩ := name_cons heq
    cases name with
    | nil => exact absurd hy hne
    | cons c name =>
        cases hslash
        exact absurd (by rw [hy]; simp) y.2.2.2.2
  · rename_i heq
    obtain ⟨name, hy, hslash⟩ := name_cons heq
    cases name with
    | nil => exact absurd hy hne
    | cons c name =>
        cases hslash
        exact absurd hy (hback name)
  · rfl

/-- What a name is resolved to, unless it is that of the home. -/
theorem resolvePath_one {y : Name} (isDir : Bool) {p : Path} (hne : y.1 ≠ ['~'])
    (hback : ∀ s, y.1 ≠ '~' :: '\\' :: s) (h : context.resolvePath (y.1 ++ slashIf isDir) = .ok p) :
    ∃ base, context.cwd = .ok base ∧ p = base.1.child y := by
  unfold ShellContext.resolvePath at h
  split at h
  · cases h
  rw [parse_name] at h
  split at h
  · rename_i habs
    cases habs
  split at h
  · rename_i htilde
    obtain ⟨name, hy, hnil⟩ := name_cons htilde
    rw [(List.append_eq_nil_iff.mp hnil.symm).1] at hy
    exact absurd hy hne
  rw [homeRelative_name isDir hne hback] at h
  dsimp only at h
  split at h
  · cases h
  · cases hcwd : context.cwd with
    | error e =>
        rw [hcwd] at h
        cases h
    | ok base =>
        rw [hcwd] at h
        cases h
        exact ⟨base, rfl, Path.join_ofName _ _⟩

/-- A name is no `..`, with a slash behind it or without. -/
theorem hasParentPiece_name (y : Name) (isDir : Bool) :
    hasParentPiece (· == '/') (y.1 ++ slashIf isDir) = false := by
  have hne : (y.1 == ['.', '.']) = false := beq_eq_false_iff_ne.mpr y.2.2.2.1
  have hname : y.1.splitOnP (· == '/') = [y.1] := splitOn_name y
  cases isDir with
  | false =>
      show ((y.1 ++ []).splitOnP (· == '/')).any (· == ['.', '.']) = false
      rw [List.append_nil, hname, List.any_cons, hne]
      rfl
  | true =>
      show ((y.1 ++ '/' :: []).splitOnP (· == '/')).any (· == ['.', '.']) = false
      rw [List.splitOnP_append_cons y.1 [] rfl, hname, List.singleton_append, List.any_cons, hne]
      rfl

theorem hasParentPiece_backslash {y : Name} (hback : '\\' ∉ y.1) (isDir : Bool) :
    hasParentPiece (· == '\\') (y.1 ++ slashIf isDir) = false := by
  have hpieces : (y.1 ++ slashIf isDir).splitOnP (· == '\\') = [y.1 ++ slashIf isDir] := by
    refine List.splitOnP_eq_singleton fun c hc => ?_
    refine beq_eq_false_iff_ne.mpr fun heq => ?_
    subst heq
    obtain hc | hc := List.mem_append.mp hc
    · exact hback hc
    · obtain hnil | hslash := slashIf_cases isDir
      · rw [hnil] at hc
        cases hc
      · rw [hslash] at hc
        exact absurd (List.mem_singleton.mp hc) (by decide)
  have hne : y.1 ++ slashIf isDir ≠ ['.', '.'] := by
    intro heq
    obtain hnil | hslash := slashIf_cases isDir
    · rw [hnil, List.append_nil] at heq
      exact y.2.2.2.1 heq
    · rw [hslash] at heq
      have hlast := congrArg List.getLast? heq
      rw [List.getLast?_concat] at hlast
      exact absurd hlast (by decide)
  rw [hasParentPiece, hpieces, List.any_cons, beq_eq_false_iff_ne.mpr hne]
  rfl

/-- A bare name is found where it is looked for. -/
theorem resolvePath_bare {base : AbsPath} (hcwd : context.cwd = .ok base) {y : Name} (isDir : Bool)
    (hne : y.1 ≠ ['~']) (hbare : ∀ c ∈ y.1, IsBare c) :
    context.resolvePath (y.1 ++ slashIf isDir) = .ok (base.1.child y) := by
  obtain ⟨c, name, hy⟩ := List.exists_cons_of_ne_nil y.2.1
  have hblank : ¬ (y.1 ++ slashIf isDir).all isWhitespace = true := by
    intro hall
    have hc := List.all_eq_true.mp hall c (by rw [hy]; simp)
    rw [(hbare c (by rw [hy]; exact List.mem_cons_self)).2] at hc
    cases hc
  have hback : '\\' ∉ y.1 := fun hmem => absurd (hbare _ hmem).1 (by decide)
  have hrel : ¬ (parse (y.1 ++ slashIf isDir)).isAbsolute = true := by
    rw [parse_name]
    exact Bool.false_ne_true
  have htilde : ¬ y.1 ++ slashIf isDir = ['~'] := by
    intro heq
    obtain ⟨name, hy, hnil⟩ := name_cons heq
    rw [(List.append_eq_nil_iff.mp hnil.symm).1] at hy
    exact hne hy
  have hhome : homeRelative (y.1 ++ slashIf isDir) = none :=
    homeRelative_name isDir hne fun s heq => hback (by rw [heq]; simp)
  have hparent : (hasParentPiece (· == '/') (y.1 ++ slashIf isDir)
      || hasParentPiece (· == '\\') (y.1 ++ slashIf isDir)) = false := by
    rw [hasParentPiece_name, hasParentPiece_backslash hback]
    rfl
  unfold ShellContext.resolvePath
  rw [if_neg hblank, if_neg hrel, if_neg htilde, hhome]
  dsimp only
  rw [hparent, if_neg Bool.false_ne_true, hcwd]
  dsimp only
  rw [parse_name, Path.join_ofName]

/-! ## The token and the match -/

/-- What is left of a name has at most the slash behind it. -/
theorem sublist_shown {item : DirItem} {value : List Char} (h : value.Sublist item.shown) :
    ∃ y isDir, value = y ++ slashIf isDir ∧ '/' ∉ y := by
  rw [shown_eq] at h
  obtain ⟨y, tail, rfl, hy, htail⟩ := List.sublist_append_iff.mp h
  have hnot : '/' ∉ y := fun hmem => item.name.2.2.2.2 (hy.subset hmem)
  obtain hnil | hslash := slashIf_cases item.isDir
  · rw [hnil] at htail
    exact ⟨y, false, by rw [List.sublist_nil.mp htail]; rfl, hnot⟩
  · rw [hslash] at htail
    obtain rfl | rfl := List.sublist_singleton.mp htail
    · exact ⟨y, false, rfl, hnot⟩
    · exact ⟨y, true, rfl, hnot⟩

/-- A token without a slash is the beginning of the name. -/
theorem prefix_of_prefix_slash {y : List Char} {isDir : Bool} (h : raw <+: y ++ slashIf isDir) :
    raw <+: y ∨ raw = y ++ ['/'] := by
  obtain hnil | hslash := slashIf_cases isDir
  · rw [hnil, List.append_nil] at h
    exact .inl h
  · rw [hslash] at h
    exact (List.prefix_concat_iff.mp h).symm

/-- What begins a single character is this character. -/
theorem eq_of_prefix_singleton {c : Char} (hne : raw ≠ []) (h : raw <+: [c]) : raw = [c] :=
  (List.prefix_cons_iff.mp h).elim (fun hnil => absurd hnil hne) fun hcons => by
    obtain ⟨rest, hraw, hnil⟩ := hcons
    rw [hraw, List.prefix_nil.mp hnil]

theorem dirPart_of_no_slash (h : '/' ∉ raw) : dirPart raw = [] := by
  obtain hnil | ⟨front, hfront⟩ := slashed_dirPart raw
  · exact hnil
  · have hraw := dirPart_append raw
    rw [hfront] at hraw
    exact absurd (by rw [hraw]; simp) h

theorem dirPart_slash (y : List Char) : dirPart (y ++ ['/']) = y ++ ['/'] :=
  dirPart_of_lastPiece (by simp [lastPiece])

theorem resolvePath_nil (p : Path) : context.resolvePath [] ≠ .ok p := fun h => nomatch h

/-- `..` is refused. -/
theorem resolvePath_dots (isDir : Bool) : ∀ p, context.resolvePath (['.', '.'] ++ slashIf isDir) ≠ .ok p := by
  cases isDir with
  | true => exact fun p h => nomatch h
  | false => exact fun p h => nomatch h

/-- A token with a slash in it is not extended. -/
theorem not_extends_of_slash (hslash : '/' ∈ raw) {item : DirItem} {q : Quotes} {value : List Char}
    (hread : readWord isWhitespace .off item.shown = some (q, value)) (hpre : raw <+: value)
    (hleads : LeadsRemote context dirAt raw value) : False := by
  obtain ⟨dir, item', hdir, -, hresolve⟩ := hleads
  obtain ⟨y, isDir, rfl, hy⟩ := sublist_shown (readWord_sublist hread)
  obtain hname | hraw := prefix_of_prefix_slash hpre
  · exact hy (hname.subset hslash)
  · -- it is a directory, and its match is that directory again
    have hvalue : y ++ slashIf isDir = raw := by
      rw [hraw] at hpre ⊢
      cases isDir with
      | true => rfl
      | false =>
          have hmem := hpre.subset (List.mem_append_right y (List.mem_singleton.mpr rfl))
          rw [slashIf, if_neg Bool.false_ne_true, List.append_nil] at hmem
          exact absurd hmem hy
    have hself : dirPart raw = raw := by
      rw [hraw]
      exact dirPart_slash y
    have hne : raw ≠ [] := fun hnil => by rw [hnil] at hslash; cases hslash
    rw [peerDir, hself, if_neg hne] at hdir
    rw [hvalue, hdir] at hresolve
    have hparts := congrArg (fun p => p.parts.length) (Except.ok.inj hresolve)
    simp [Path.child] at hparts

/-- **A path of the peer is extended exactly if it has no directory in it and its match can be
written as it is.** -/
theorem remote_extends_iff (hp : parseLine text cursor = some parsed) (ha : activeToken parsed = some t)
    (h : PlainRemote t.value)
    (happlied : completeRemotePath parsed (serverAnswer m context dirAt t.value)
      = some (.ok (.applied edit))) :
    Extends text t (LeadsRemote context dirAt t.value) edit ↔ RemoteWritable context dirAt t.value := by
  obtain ⟨resolved, item, hresolve, hitem, honly, hreplace⟩ := completeRemotePath_applied happlied
  obtain ⟨gap, hw⟩ := shown_wordAnd item
  generalize hraw : t.value = raw at h happlied hresolve hitem honly ⊢
  by_cases hslash : '/' ∈ raw
  · refine ⟨fun hext => ?_, fun hcond => absurd hslash hcond.1⟩
    obtain ⟨q, value, hread, hpre, hleads⟩ := extends_inv hp ha hw hreplace hext
    rw [hraw] at hpre
    exact (not_extends_of_slash hslash hread hpre hleads).elim
  have hne : raw ≠ [] := by
    intro hnil
    rw [hnil] at hresolve
    exact resolvePath_nil _ hresolve
  have hdots : raw ≠ ['.', '.'] := by
    intro heq
    rw [heq] at hresolve
    exact resolvePath_dots false _ hresolve
  have hback (y : List Char) (hy : raw <+: y) (s : List Char) : y ≠ '~' :: '\\' :: s := by
    intro heq
    rw [heq] at hy
    obtain hnil | ⟨rest, hrest, hy⟩ := List.prefix_cons_iff.mp hy
    · exact hne hnil
    · obtain hnil | ⟨rest', hrest', -⟩ := List.prefix_cons_iff.mp hy
      · rw [hnil] at hrest
        exact h.ne_home hrest
      · rw [hrest'] at hrest
        exact h.no_backslash (by rw [hrest]; simp)
  -- the token is a name in the directory of the peer
  obtain ⟨base, hcwd, hbase⟩ : ∃ base, context.cwd = .ok base
      ∧ resolved = base.1.child ⟨raw, hne, h.ne_dot, hdots, hslash⟩ := by
    refine resolvePath_one false h.ne_home (hback raw List.prefix_rfl) ?_
    rw [slashIf, if_neg Bool.false_ne_true, List.append_nil]
    exact hresolve
  have hsearch : Serve.searchIn raw resolved = (base.1, raw) := by
    have hlast : ¬ (raw.getLast? = some '/' ∨ raw = []) := by
      intro hor
      obtain hlast | hnil := hor
      · exact hslash (List.mem_of_getLast? hlast)
      · exact hne hnil
    rw [Serve.searchIn, if_neg hlast, hbase, Path.parent_child, Path.fileName_child]
    rfl
  rw [hsearch] at hitem honly
  have hone := honly h.no_backslash
  have hdir : peerDir context raw = .ok base.1 := by
    rw [peerDir, dirPart_of_no_slash hslash, if_pos rfl, hcwd]
  have hmatch (other : DirItem) (hin : other ∈ (dirAt base.1).listed) (hbegins : raw <+: other.name.1) :
      other = item := by
    have hmem : other ∈ (dirAt base.1).listed.filter fun item => raw.isPrefixOf item.name.1 :=
      List.mem_filter.mpr ⟨hin, List.isPrefixOf_iff_prefix.mpr hbegins⟩
    rw [hone] at hmem
    exact List.mem_singleton.mp hmem
  constructor
  · intro hext
    obtain ⟨q, value, hread, hpre, dir, item', hdir', hitem', hleads⟩ := extends_inv hp ha hw hreplace hext
    rw [hdir] at hdir'
    cases hdir'
    rw [hraw] at hpre
    obtain ⟨y, isDir, rfl, hy⟩ := sublist_shown (readWord_sublist hread)
    have hbegins : raw <+: y := by
      obtain hname | heq := prefix_of_prefix_slash hpre
      · exact hname
      · exact absurd (by rw [heq]; simp) hslash
    have hvalid : ValidName y := by
      refine ⟨fun heq => ?_, fun heq => ?_, fun heq => ?_, hy⟩
      · rw [heq] at hbegins
        exact hne (List.prefix_nil.mp hbegins)
      · rw [heq] at hbegins
        exact h.ne_dot (eq_of_prefix_singleton hne hbegins)
      · rw [heq] at hleads
        exact resolvePath_dots isDir _ hleads
    have htilde : y ≠ ['~'] := by
      intro heq
      rw [heq] at hbegins
      exact h.ne_home (eq_of_prefix_singleton hne hbegins)
    obtain ⟨base', hcwd', hchild⟩ := @resolvePath_one _ ⟨y, hvalid⟩ isDir _ htilde (hback y hbegins) hleads
    rw [hcwd] at hcwd'
    cases hcwd'
    -- the entry it leads to is the match, and nothing is left out of its name
    have hname := child_injective hchild
    have hsame := hmatch item' hitem' (by rw [hname]; exact hbegins)
    subst hsame
    have hself : y ++ slashIf isDir = item'.shown := by
      rw [shown_eq, hname] at hread ⊢
      cases hd : item'.isDir with
      | true =>
          rw [hd] at hread
          obtain ⟨front, hfront⟩ := readWord_last rfl hread
          cases isDir with
          | true => rfl
          | false =>
              rw [slashIf, if_neg Bool.false_ne_true, List.append_nil] at hfront
              exact absurd (by rw [hfront]; simp) hy
      | false =>
          rw [hd] at hread
          have hsub := readWord_sublist hread
          cases isDir with
          | false => rfl
          | true =>
              have hmem := hsub.subset (List.mem_append_right y (List.mem_singleton.mpr rfl))
              rw [slashIf, if_neg Bool.false_ne_true, List.append_nil] at hmem
              exact absurd hmem hy
    rw [hself] at hread
    have hbare := readWord_self hread
    refine ⟨hslash, fun dir hdir' other hin hother c hc => ?_⟩
    rw [hdir] at hdir'
    cases hdir'
    rw [hmatch other hin hother] at hc
    refine hbare c ?_
    rw [shown_eq]
    exact List.mem_append_left _ hc
  · intro hcond
    have hmem : item ∈ (dirAt base.1).listed.filter fun item => raw.isPrefixOf item.name.1 := by
      rw [hone]
      exact List.mem_singleton.mpr rfl
    have hbegins : raw <+: item.name.1 := List.isPrefixOf_iff_prefix.mp (List.mem_filter.mp hmem).2
    have hbare := hcond.2 base.1 hdir item hitem hbegins
    have htilde : item.name.1 ≠ ['~'] := by
      intro heq
      rw [heq] at hbegins
      exact h.ne_home (eq_of_prefix_singleton hne hbegins)
    have hread : readWord isWhitespace .off item.shown = some (.off, item.shown) := by
      refine readWord_plain fun c hc => ?_
      rw [shown_eq] at hc
      obtain hc | hc := List.mem_append.mp hc
      · exact hbare c hc
      · obtain hnil | hs := slashIf_cases item.isDir
        · rw [hnil] at hc
          cases hc
        · rw [hs] at hc
          rw [List.mem_singleton.mp hc]
          exact ⟨rfl, rfl⟩
    refine extends_of hp ha hw hreplace hread ?_ ⟨base.1, item, hdir, hitem, ?_⟩
    · rw [hraw, shown_eq]
      exact hbegins.trans (List.prefix_append _ _)
    · rw [shown_eq]
      exact resolvePath_bare hcwd item.isDir htilde hbare

end CompleteLine

namespace Proof

open CompleteLine Quoted UnixPath

/-- **What a completion that is applied does to its token.** A token on this side is extended
exactly if its one match can be written down, and one of the peer exactly if it has no directory in
it and its one match has neither a quote nor a whitespace. -/
theorem completion_extends_iff {quote : List Char → List Char} (hquote : Quoting quote)
    (disk : CompletionDisk) (localRoot : Path) (m : Fnmatch.Matcher) (context : ShellContext)
    (dirAt : Path → SearchDir) (mode : CompletionMode) (text : List Char) (cursor : Nat)
    {parsed : ParsedLine} {t : Token} {edit : CompletionEdit}
    (hparse : parseLine text cursor = some parsed) (hactive : activeToken parsed = some t)
    (happlied : completeLine quote disk localRoot (serverAnswer m context dirAt) mode
      (Utf8.encode text) cursor
      = some (.ok (.applied edit))) :
    (∀ raw, classifyCompletionTarget mode parsed ∈
        [.putLocalPath raw, .listLocalPath raw, .changeLocalPath raw] →
      raw = t.value ∧ (PlainLocal disk.toLocalDisk raw →
        (Extends text t (LeadsLocal disk localRoot raw) edit ↔ LocalWritable quote disk localRoot raw)))
    ∧ ∀ raw, classifyCompletionTarget mode parsed = .getRemotePath raw →
      raw = t.value ∧ (PlainRemote raw →
        (Extends text t (LeadsRemote context dirAt raw) edit ↔ RemoteWritable context dirAt raw)) := by
  rw [completeLine, Utf8.decodeLossy_encode, hparse] at happlied
  dsimp only at happlied
  constructor
  · intro raw htarget
    have hpath : (classifyCompletionTarget mode parsed).path = some raw
        ∧ completeLocalPath quote disk localRoot parsed raw = some (.applied edit) := by
      have hcases : classifyCompletionTarget mode parsed = .putLocalPath raw
          ∨ classifyCompletionTarget mode parsed = .listLocalPath raw
          ∨ classifyCompletionTarget mode parsed = .changeLocalPath raw := by simpa using htarget
      obtain hput | hlist | hchange := hcases
      · rw [hput] at happlied ⊢
        obtain ⟨result, hresult, heq⟩ := Option.map_eq_some_iff.mp happlied
        cases heq
        exact ⟨rfl, hresult⟩
      · rw [hlist] at happlied ⊢
        obtain ⟨result, hresult, heq⟩ := Option.map_eq_some_iff.mp happlied
        cases heq
        exact ⟨rfl, hresult⟩
      · rw [hchange] at happlied ⊢
        obtain ⟨result, hresult, heq⟩ := Option.map_eq_some_iff.mp happlied
        cases heq
        exact ⟨rfl, hresult⟩
    have hvalue : raw = t.value := classify_path hparse hactive mode hpath.1
    refine ⟨hvalue, fun hplain => ?_⟩
    subst hvalue
    exact local_extends_iff hquote hparse hactive hplain hpath.2
  · intro raw htarget
    rw [htarget] at happlied
    have hvalue : raw = t.value := by
      refine classify_path hparse hactive mode ?_
      rw [htarget]
      rfl
    refine ⟨hvalue, fun hplain => ?_⟩
    subst hvalue
    exact remote_extends_iff hparse hactive hplain happlied

/-! ## One file on each side -/

/-- The home of a user, here and on the peer. -/
def homeOfU : AbsPath :=
  ⟨⟨.rootDir, [.normal ⟨"home".toList, by decide +kernel⟩, .normal ⟨"u".toList, by decide +kernel⟩]⟩, rfl⟩

/-- A file with a blank in its name. -/
def notes : EntryName × Bool := (.utf8 ⟨"my notes.txt".toList, by decide +kernel⟩, false)

/-- A disk with this file in this directory. -/
def notesDisk : CompletionDisk where
  home := none
  present _ := false
  isDir _ := false
  readDir p := if p = homeOfU.1 then some [notes] else none

/-- A file. -/
def fileItem : DirItem where
  name := ⟨"file.txt".toList, by decide +kernel⟩
  isDir := false
  letter := 102
  named := by decide +kernel
  letter_dir := letter_file
  letter_ne := letter_file_ne

/-- A peer with this file in each directory. -/
def filePeer (_ : Path) : SearchDir := ⟨[fileItem], [fileItem], List.Perm.refl _⟩

/-- What the peer answers. -/
def fileAnswer : List Char → Except String (List String) :=
  serverAnswer Fnmatch.codeOrder (.stateless (some homeOfU)) filePeer

theorem fileAnswer_of {raw : List Char} (resolved dir : Path) (start : List Char)
    (hresolve : ShellContext.resolvePath (.stateless (some homeOfU)) raw = .ok resolved)
    (hsearch : Serve.searchIn raw resolved = (dir, start))
    (hstart : start.isPrefixOf fileItem.name.1 = true) :
    fileAnswer raw = .ok [String.ofList fileItem.shown] :=
  serverAnswer_single Fnmatch.codeOrder hresolve hsearch (List.filter_cons_of_pos hstart)

/-- The file is written over the token. -/
theorem completeRemotePath_file {raw : List Char} {parsed : ParsedLine} {edit : CompletionEdit}
    (hanswer : fileAnswer raw = .ok [String.ofList fileItem.shown])
    (hreplace : replaceActive parsed (fileItem.shown ++ [' ']) = some (.applied edit)) :
    completeRemotePath parsed (fileAnswer raw) = some (.ok (.applied edit)) := by
  have hend : ¬ fileItem.shown.getLast? = some '/' := by decide +kernel
  rw [hanswer, completeRemotePath_single, if_neg hend, hreplace]
  rfl

theorem completeLine_file {text raw : List Char} {cursor : Nat} {parsed : ParsedLine} {edit : CompletionEdit}
    (hparse : parseLine text cursor = some parsed)
    (hclass : classifyCompletionTarget .prompt parsed = .getRemotePath raw)
    (hanswer : fileAnswer raw = .ok [String.ofList fileItem.shown])
    (hreplace : replaceActive parsed (fileItem.shown ++ [' ']) = some (.applied edit)) :
    completeLine singleQuoted notesDisk homeOfU.1 fileAnswer .prompt (Utf8.encode text) cursor
      = some (.ok (.applied edit)) := by
  rw [completeLine, Utf8.decodeLossy_encode, hparse]
  dsimp only
  rw [hclass]
  exact completeRemotePath_file hanswer hreplace

/-- `put my`. -/
def putMy : ParsedLine := ⟨"put my".toList, 6, [⟨0, 3, "put".toList⟩, ⟨4, 6, "my".toList⟩]⟩

/-- `get fi`. -/
def getFi : ParsedLine := ⟨"get fi".toList, 6, [⟨0, 3, "get".toList⟩, ⟨4, 6, "fi".toList⟩]⟩

/-- `get sub/fi`. -/
def getSubFi : ParsedLine := ⟨"get sub/fi".toList, 10, [⟨0, 3, "get".toList⟩, ⟨4, 10, "sub/fi".toList⟩]⟩

/-- `put my` and `get fi` both go on to their file, and the name with a blank in it is quoted. -/
theorem completion_extends_files :
    Extends putMy.raw ⟨4, 6, "my".toList⟩ (LeadsLocal notesDisk homeOfU.1 "my".toList)
        ⟨Utf8.encode "put 'my notes.txt' ".toList, 19⟩
      ∧ Extends getFi.raw ⟨4, 6, "fi".toList⟩ (LeadsRemote (.stateless (some homeOfU)) filePeer "fi".toList)
        ⟨Utf8.encode "get file.txt ".toList, 13⟩ := by
  constructor
  · have hparse : parseLine putMy.raw 6 = some putMy := by decide +kernel
    have hactive : activeToken putMy = some ⟨4, 6, "my".toList⟩ := by decide +kernel
    have hclass : classifyCompletionTarget .prompt putMy = .putLocalPath "my".toList := by decide +kernel
    have hplain : PlainLocal notesDisk.toLocalDisk "my".toList :=
      ⟨by decide +kernel, by decide +kernel, fun _ => rfl⟩
    have happlied : completeLine singleQuoted notesDisk homeOfU.1 fileAnswer .prompt (Utf8.encode putMy.raw) 6
        = some (.ok (.applied ⟨Utf8.encode "put 'my notes.txt' ".toList, 19⟩)) := by
      have hparts :
          localCompletionParts "my".toList (Targets.resolveLocalInputPath notesDisk.toLocalDisk homeOfU.1
          "my".toList) = some (homeOfU.1, "my".toList, []) := by decide +kernel
      have hread : notesDisk.readDir homeOfU.1 = some [notes] := by decide +kernel
      have hbegins : ("my".toList).isPrefixOf notes.1.shown.1 = true := by decide +kernel
      have hreplace : replaceActive putMy (singleQuoted (shownEntry [] (notes.1.shown.1, notes.2)) ++ [' '])
          = some (.applied ⟨Utf8.encode "put 'my notes.txt' ".toList, 19⟩) := by decide +kernel
      have hsingle := completeLocalPath_single singleQuoted putMy hparts hread
        (List.filter_cons_of_pos hbegins)
      rw [completeLine, Utf8.decodeLossy_encode, hparse]
      dsimp only
      rw [hclass]
      dsimp only
      rw [hsingle, if_neg (by decide), hreplace]
      rfl
    have hiff := ((completion_extends_iff readWord_singleQuoted notesDisk homeOfU.1 Fnmatch.codeOrder
      (.stateless (some homeOfU)) filePeer .prompt putMy.raw 6 hparse hactive happlied).1 "my".toList
      (by rw [hclass]; exact List.mem_cons_self)).2 hplain
    refine hiff.mpr fun entry hentry => ?_
    have hone : localMatches notesDisk homeOfU.1 "my".toList = [notes] := by decide +kernel
    rw [hone] at hentry
    obtain rfl := List.mem_singleton.mp hentry
    exact ⟨_, rfl, by decide +kernel, fun hnil => absurd hnil (by decide +kernel)⟩
  · have hparse : parseLine getFi.raw 6 = some getFi := by decide +kernel
    have hactive : activeToken getFi = some ⟨4, 6, "fi".toList⟩ := by decide +kernel
    have hclass : classifyCompletionTarget .prompt getFi = .getRemotePath "fi".toList := by decide +kernel
    have hplain : PlainRemote "fi".toList := ⟨by decide +kernel, by decide +kernel, by decide +kernel⟩
    have hanswer : fileAnswer "fi".toList = .ok [String.ofList fileItem.shown] :=
      fileAnswer_of (homeOfU.1.join (parse "fi".toList)) homeOfU.1 "fi".toList (by decide +kernel)
        (by decide +kernel) (by decide +kernel)
    have hreplace : replaceActive getFi (fileItem.shown ++ [' '])
        = some (.applied ⟨Utf8.encode "get file.txt ".toList, 13⟩) := by decide +kernel
    have hiff := ((completion_extends_iff readWord_singleQuoted notesDisk homeOfU.1 Fnmatch.codeOrder
      (.stateless (some homeOfU)) filePeer .prompt getFi.raw 6 hparse hactive
      (completeLine_file hparse hclass hanswer hreplace)).2 "fi".toList hclass).2 hplain
    refine hiff.mpr ⟨by decide +kernel, fun dir hdir item hitem _ c hc => ?_⟩
    obtain rfl : item = fileItem := List.mem_singleton.mp hitem
    have hall : (fileItem.name.1.all fun c => !isQuote c && !isWhitespace c) = true := by decide +kernel
    simpa [IsBare] using List.all_eq_true.mp hall c hc

/-- `get sub/fi`: the directory is lost. -/
theorem directory_is_lost :
    parseLine getSubFi.raw 10 = some getSubFi ∧ activeToken getSubFi = some ⟨4, 10, "sub/fi".toList⟩
      ∧ classifyCompletionTarget .prompt getSubFi = .getRemotePath "sub/fi".toList
      ∧ completeLine singleQuoted notesDisk homeOfU.1 fileAnswer .prompt (Utf8.encode getSubFi.raw) 10
        = some (.ok (.applied ⟨Utf8.encode "get file.txt ".toList, 13⟩))
      ∧ ¬ Extends getSubFi.raw ⟨4, 10, "sub/fi".toList⟩
        (LeadsRemote (.stateless (some homeOfU)) filePeer "sub/fi".toList)
        ⟨Utf8.encode "get file.txt ".toList, 13⟩ := by
  have hparse : parseLine getSubFi.raw 10 = some getSubFi := by decide +kernel
  have hactive : activeToken getSubFi = some ⟨4, 10, "sub/fi".toList⟩ := by decide +kernel
  have hclass :
      classifyCompletionTarget .prompt getSubFi = .getRemotePath "sub/fi".toList := by decide +kernel
  have hanswer : fileAnswer "sub/fi".toList = .ok [String.ofList fileItem.shown] :=
    fileAnswer_of (homeOfU.1.join (parse "sub/fi".toList)) (homeOfU.1.join (parse "sub".toList)) "fi".toList
      (by decide +kernel) (by decide +kernel) (by decide +kernel)
  have hreplace : replaceActive getSubFi (fileItem.shown ++ [' '])
      = some (.applied ⟨Utf8.encode "get file.txt ".toList, 13⟩) := by decide +kernel
  refine ⟨hparse, hactive, hclass, completeLine_file hparse hclass hanswer hreplace, fun hext => ?_⟩
  have hplain : PlainRemote "sub/fi".toList := ⟨by decide +kernel, by decide +kernel, by decide +kernel⟩
  have hcond := (remote_extends_iff hparse hactive hplain (completeRemotePath_file hanswer hreplace)).mp hext
  exact absurd hcond.1 (by decide +kernel)

end Proof

end Irosh
