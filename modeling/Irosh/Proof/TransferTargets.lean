import Mathlib.Data.List.TakeWhile
import Irosh.Lib.Components
import Irosh.Proof.TokenRanges
import Irosh.Transfer.Targets

/-!
# A transfer lands in the directory that was chosen

The name comes from the text of a path, cut at the last separator of either system. If it is
an ordinary name, the target is the chosen directory with one more component. A source that
ends in a separator has no name at all.
-/

namespace Irosh

namespace Targets

open CompleteLine Components Metadata UnixPath

/-! ## The name -/

/-- A separator of either system. -/
def isSeparator (c : Char) : Bool := c == '/' || c == '\\'

/-- What comes after the last separator. -/
def lastPart (s : List Char) : List Char := (s.reverse.takeWhile fun c => !isSeparator c).reverse

theorem rfind_of_notMem {c : Char} {s : List Char} (h : c ∉ s) : rfind c s = none := by
  induction s with
  | nil => rfl
  | cons d s ih =>
      obtain ⟨hd, hs⟩ : c ≠ d ∧ c ∉ s := by simpa using h
      rw [rfind, ih hs]
      exact if_neg (Ne.symm hd)

/-- The last one is after everything before it. -/
theorem rfind_append {c : Char} (front : List Char) {t : List Char} (h : c ∉ t) :
    rfind c (front ++ c :: t) = some (byteLen front) := by
  induction front with
  | nil =>
      rw [List.nil_append, rfind, rfind_of_notMem h]
      exact if_pos rfl
  | cons d front ih =>
      rw [List.cons_append, rfind, ih]
      rfl

theorem rfind_skip {c : Char} (front : List Char) {t : List Char} (h : c ∉ t) :
    rfind c (front ++ t) = rfind c front := by
  induction front with
  | nil => rw [List.nil_append, rfind_of_notMem h, rfind]
  | cons d front ih => rw [List.cons_append, rfind, rfind, ih]

theorem rfind_lt {c : Char} {s : List Char} {i : Nat} (h : rfind c s = some i) : i < byteLen s := by
  induction s generalizing i with
  | nil => cases h
  | cons d s ih =>
      have hpos := d.utf8Size_pos
      rw [rfind] at h
      rw [byteLen_cons]
      cases hr : rfind c s with
      | none =>
          rw [hr] at h
          dsimp only at h
          split at h
          · cases h
            omega
          · cases h
      | some j =>
          rw [hr] at h
          cases h
          have hj := ih hr
          omega

theorem rfind_le (c : Char) (s : List Char) : (rfind c s).getD 0 ≤ byteLen s := by
  cases h : rfind c s with
  | none => exact Nat.zero_le _
  | some i => exact Nat.le_of_lt (rfind_lt h)

/-- A text without separators, or the last one and what comes after it. -/
theorem lastPart_cases (s : List Char) :
    (∀ c ∈ lastPart s, isSeparator c = false)
      ∧ (s = lastPart s ∨ ∃ front c, isSeparator c = true ∧ s = front ++ c :: lastPart s) := by
  have hsplit := List.takeWhile_append_dropWhile (p := fun c => !isSeparator c) (l := s.reverse)
  have hs : s = (s.reverse.dropWhile fun c => !isSeparator c).reverse ++ lastPart s := by
    rw [lastPart, ← List.reverse_append, hsplit, List.reverse_reverse]
  refine ⟨fun c hc => ?_, ?_⟩
  · have hkept := List.mem_takeWhile_imp (List.mem_reverse.mp hc)
    simpa using hkept
  · cases hd : s.reverse.dropWhile (fun c => !isSeparator c) with
    | nil =>
        rw [hd] at hs
        exact .inl hs
    | cons c rest =>
        rw [hd, List.reverse_cons, List.append_assoc] at hs
        have hnot := List.head?_dropWhile_not (fun c => !isSeparator c) s.reverse
        rw [hd] at hnot
        exact .inr ⟨rest.reverse, c, by simpa using hnot, hs⟩

theorem isSeparator_iff {c : Char} : isSeparator c = true ↔ c = '/' ∨ c = '\\' := by simp [isSeparator]

theorem notMem_of_plain {s : List Char} (h : ∀ c ∈ s, isSeparator c = false) : '/' ∉ s ∧ '\\' ∉ s :=
  ⟨fun hm => absurd (h _ hm) (by decide), fun hm => absurd (h _ hm) (by decide)⟩

/-- **The slices of `portable_file_name` never panic, and it is the last part it finds.** -/
theorem portableFileName_eq (s : List Char) : portableFileName s = some (lastPart s) := by
  obtain ⟨hplain, hs⟩ := lastPart_cases s
  obtain ⟨hslash, hback⟩ := notMem_of_plain hplain
  generalize lastPart s = name at hplain hslash hback hs
  obtain rfl | ⟨front, c, hc, rfl⟩ := hs
  · have hhead : ¬ (s.head? = some '/' ∨ s.head? = some '\\') := by
      rintro (h | h)
      · exact hslash (List.mem_of_mem_head? h)
      · exact hback (List.mem_of_mem_head? h)
    have hzero : max ((none : Option Nat).getD 0) ((none : Option Nat).getD 0) = 0 := rfl
    simp only [portableFileName, rfind_of_notMem hslash, rfind_of_notMem hback]
    rw [if_pos hzero, if_neg hhead]
  · -- the other separator comes earlier, if at all
    have hmax : max ((rfind '/' (front ++ c :: name)).getD 0) ((rfind '\\' (front ++ c :: name)).getD 0)
        = byteLen front := by
      have hle₁ := rfind_le '/' front
      have hle₂ := rfind_le '\\' front
      obtain rfl | rfl := isSeparator_iff.mp hc
      · rw [rfind_append front hslash, rfind_skip front (by simp [hback]), Option.getD_some]
        omega
      · rw [rfind_append front hback, rfind_skip front (by simp [hslash]), Option.getD_some]
        omega
    have hsize : byteLen [c] = 1 := by
      obtain rfl | rfl := isSeparator_iff.mp hc
      · rfl
      · rfl
    unfold portableFileName
    dsimp only
    rw [hmax]
    split
    · rename_i hzero
      rw [byteLen_eq_zero hzero, List.nil_append, if_pos (by simpa using isSeparator_iff.mp hc), ← hsize]
      exact dropBytes_append [c] name
    · have hdrop := dropBytes_append (front ++ [c]) name
      rw [byteLen_append, hsize, List.append_assoc] at hdrop
      exact hdrop

/-- A text that is fit for the name of a file. -/
structure Ordinary (name : List Char) : Prop where
  ne_nil : name ≠ []
  ne_dot : name ≠ ['.']
  ne_dots : name ≠ ['.', '.']
  plain : ∀ c ∈ name, isSeparator c = false

/-! ## The peer's side -/

/-- The separators of the peer's system. -/
def peerSeparator (isWindows : Bool) (c : Char) : Bool := c == '/' || isWindows && c == '\\'

/-- How the peer reads a path: whether it begins at the root, and its components. -/
def readPeer (isWindows : Bool) (s : List Char) : Bool × List (List Char) :=
  (s.head?.any (peerSeparator isWindows), components (peerSeparator isWindows) s)

/-- A directory under the home, or one below the one the peer is in, written with any separators. -/
def namedPeerDir (cwd : List Char) (isWindows : Bool) : List Char → Bool × List (List Char)
  | '~' :: '/' :: rest => readPeer isWindows ('~' :: '/' :: rest)
  | raw => ((readPeer isWindows cwd).1, (readPeer isWindows cwd).2 ++ components isSeparator raw)

/-- One under the home does not begin with a second separator; for one below the directory the
peer is in, that one has a text, which does not end in the other system's separator. -/
def NamesPeerDir (cwd : List Char) (isWindows : Bool) : List Char → Prop
  | '~' :: '/' :: rest => rest.head? ≠ some '/'
  | _ => cwd ≠ [] ∧ (isWindows = true ∨ cwd.getLast? ≠ some '\\')

/-- The directory that is chosen on the peer: the one the peer is in, or the one that is named. -/
def chosenPeerDir (cwd : List Char) (isWindows : Bool) : Option (List Char) → Bool × List (List Char)
  | none => readPeer isWindows cwd
  | some raw =>
      if raw = ['.'] ∨ raw = ['.', '/'] then readPeer isWindows cwd else namedPeerDir cwd isWindows raw

/-- No file is named but a directory, by a relative path. -/
def ChoosesPeerDir (cwd : List Char) (isWindows : Bool) : Option (List Char) → Prop
  | none => True
  | some raw => raw = ['.'] ∨ raw = ['.', '/']
      ∨ raw.getLast? = some '/' ∧ raw.head? ≠ some '/' ∧ NamesPeerDir cwd isWindows raw

variable {isWindows : Bool} {cwd raw name : List Char}

theorem Ordinary.peer (h : Ordinary name) : ∀ c ∈ name, peerSeparator isWindows c = false := by
  intro c hc
  have hplain := h.plain c hc
  cases isWindows with
  | true => exact hplain
  | false =>
      have hne : c ≠ '/' := fun heq => by rw [heq] at hplain; cases hplain
      simpa [peerSeparator] using hne

theorem Ordinary.head (h : Ordinary name) : name.head?.any (peerSeparator isWindows) = false := by
  cases name with
  | nil => rfl
  | cons c name => exact h.peer c List.mem_cons_self

theorem open_of_getLast? {isSep : Char → Bool} {s : List Char} {c : Char} (h : s.getLast? = some c)
    (hc : isSep c = true) : Open isSep s := by
  obtain ⟨front, rfl⟩ := List.getLast?_eq_some_iff.mp h
  exact .inr ⟨front, c, rfl, hc⟩

/-- Joining an ordinary name adds this component. -/
theorem readPeer_joinText (h : Ordinary name) (a : List Char) :
    readPeer isWindows (joinText a name)
      = ((readPeer isWindows a).1, (readPeer isWindows a).2 ++ [name]) := by
  have hrel : name.head? ≠ some '/' := by
    intro heq
    have hmem := List.mem_of_mem_head? heq
    exact absurd (h.plain _ hmem) (by decide)
  have hslash : peerSeparator isWindows '/' = true := rfl
  rw [joinText, if_neg hrel]
  split
  · rename_i hopen
    have ho : Open (peerSeparator isWindows) a := by
      obtain rfl | hlast := hopen
      · exact .inl rfl
      · exact open_of_getLast? hlast hslash
    unfold readPeer
    rw [ho.components_name h.peer h.ne_nil h.ne_dot]
    cases a with
    | nil => rw [List.nil_append, h.head]; rfl
    | cons c a => rfl
  · rename_i hclosed
    unfold readPeer
    rw [components_append_sep hslash, components_name h.peer h.ne_nil h.ne_dot]
    cases a with
    | nil => exact absurd (.inl rfl) hclosed
    | cons c a => rfl

/-- `sep` and `other_sep`. -/
def sep (isWindows : Bool) : Char := if isWindows then '\\' else '/'

def otherSep (isWindows : Bool) : Char := if isWindows then '/' else '\\'

/-- `normalized_parts`. -/
def normalized (isWindows : Bool) (parts : List Char) : List Char :=
  parts.map fun c => if c = otherSep isWindows then sep isWindows else c

theorem peerSeparator_sep (isWindows : Bool) : peerSeparator isWindows (sep isWindows) = true := by
  cases isWindows <;> rfl

/-- With the separators replaced, the peer reads the components that were meant. -/
theorem components_normalized (isWindows : Bool) (parts : List Char) :
    components (peerSeparator isWindows) (normalized isWindows parts) = components isSeparator parts := by
  refine components_map (fun c => ?_) (fun c hc => ?_) parts
  · split
    · rename_i hother
      rw [hother, peerSeparator_sep]
      cases isWindows <;> rfl
    · rename_i hother
      cases isWindows with
      | true => rfl
      | false =>
          have hne : (c == '\\') = false := beq_eq_false_iff_ne.mpr hother
          show (c == '/' || false) = (c == '/' || c == '\\')
          rw [hne]
  · have hne : c ≠ otherSep isWindows := by
      intro heq
      rw [heq] at hc
      cases isWindows <;> cases hc
    exact if_neg hne

/-- The base with a separator behind it. -/
theorem remoteJoin_joined (isWindows : Bool) {base : List Char} (hne : base ≠ [])
    (hend : isWindows = true ∨ base.getLast? ≠ some '\\') :
    ∃ joined, joined.head? = base.head? ∧ Open (peerSeparator isWindows) joined
      ∧ (joined.getLast? = some (sep isWindows) ∨ joined.getLast? = some (otherSep isWindows))
      ∧ components (peerSeparator isWindows) joined = components (peerSeparator isWindows) base
      ∧ ∀ parts, remoteJoin isWindows base parts
        = joined ++ (normalized isWindows parts).dropWhile (· = sep isWindows) := by
  have hhead (c : Char) : (base ++ [c]).head? = base.head? := by
    cases base with
    | nil => exact absurd rfl hne
    | cons d base => rfl
  by_cases hlast : base.getLast? ≠ some (sep isWindows) ∧ base.getLast? ≠ some (otherSep isWindows)
  · refine ⟨base ++ [sep isWindows], hhead _, .inr ⟨base, _, rfl, peerSeparator_sep isWindows⟩,
      .inl List.getLast?_concat, components_sep (peerSeparator_sep isWindows) base, fun parts => ?_⟩
    show (if base.getLast? ≠ some (sep isWindows) ∧ base.getLast? ≠ some (otherSep isWindows)
      then base ++ [sep isWindows] else base) ++ _ = _
    rw [if_pos hlast]
    rfl
  · have hsome : base.getLast? = some (sep isWindows) ∨ base.getLast? = some (otherSep isWindows) := by
      by_contra hnone
      exact hlast (not_or.mp hnone)
    refine ⟨base, rfl, ?_, hsome, rfl, fun parts => ?_⟩
    · obtain hsep | hother := hsome
      · exact open_of_getLast? hsep (peerSeparator_sep isWindows)
      · cases isWindows with
        | true => exact open_of_getLast? hother rfl
        | false =>
            obtain hwin | hback := hend
            · cases hwin
            · exact absurd hother hback
    · show (if base.getLast? ≠ some (sep isWindows) ∧ base.getLast? ≠ some (otherSep isWindows)
        then base ++ [sep isWindows] else base) ++ _ = _
      rw [if_neg hlast]
      rfl

/-- A base that ends in a separator only gets the name. -/
theorem remoteJoin_name (h : Ordinary name) {base : List Char}
    (hlast : base.getLast? = some (sep isWindows) ∨ base.getLast? = some (otherSep isWindows)) :
    remoteJoin isWindows base name = base ++ name := by
  have hne (c : Char) (hc : c ∈ name) : c ≠ sep isWindows ∧ c ≠ otherSep isWindows := by
    have hplain := h.plain c hc
    constructor
    · intro heq
      rw [heq] at hplain
      cases isWindows <;> cases hplain
    · intro heq
      rw [heq] at hplain
      cases isWindows <;> cases hplain
  have hsame : (normalized isWindows name).dropWhile (· = sep isWindows) = name := by
    have hmap : normalized isWindows name = name := by
      refine (List.map_congr_left fun c hc => ?_).trans (List.map_id name)
      exact if_neg (hne c hc).2
    rw [hmap]
    cases name with
    | nil => rfl
    | cons c name => exact List.dropWhile_cons_of_neg (by simpa using (hne c List.mem_cons_self).1)
  have hnot : ¬ (base.getLast? ≠ some (sep isWindows) ∧ base.getLast? ≠ some (otherSep isWindows)) := by
    intro hboth
    obtain hsep | hother := hlast
    · exact hboth.1 hsep
    · exact hboth.2 hother
  show (if base.getLast? ≠ some (sep isWindows) ∧ base.getLast? ≠ some (otherSep isWindows)
    then base ++ [sep isWindows] else base) ++ (normalized isWindows name).dropWhile (· = sep isWindows) = _
  rw [if_neg hnot, hsame]

/-- What is left of a directory's text without the separators in front: nothing, or it ends in one. -/
theorem normalized_dir (hdir : raw.getLast? = some '/') :
    (normalized isWindows raw).dropWhile (· = sep isWindows) = []
      ∨ ∃ front, (normalized isWindows raw).dropWhile (· = sep isWindows) = front ++ [sep isWindows] := by
  obtain ⟨front, rfl⟩ := List.getLast?_eq_some_iff.mp hdir
  have hslash : (if '/' = otherSep isWindows then sep isWindows else '/') = sep isWindows := by
    cases isWindows <;> rfl
  have hnorm : normalized isWindows (front ++ ['/']) = normalized isWindows front ++ [sep isWindows] := by
    rw [normalized, List.map_append, List.map_cons, List.map_nil, hslash]
    rfl
  rw [hnorm, List.dropWhile_append]
  split
  · exact .inl (List.dropWhile_cons_of_pos (by simp))
  · exact .inr ⟨_, rfl⟩

/-- A directory below the one the peer is in, and the name in it. -/
theorem readPeer_remoteJoin (h : Ordinary name) (hne : cwd ≠ [])
    (hend : isWindows = true ∨ cwd.getLast? ≠ some '\\') (hdir : raw.getLast? = some '/') :
    readPeer isWindows (remoteJoin isWindows (remoteJoin isWindows cwd raw) name)
      = ((readPeer isWindows cwd).1,
        (readPeer isWindows cwd).2 ++ components isSeparator raw ++ [name]) := by
  obtain ⟨joined, hhead, hopen, hlast, hcomponents, hjoin⟩ := remoteJoin_joined isWindows hne hend
  have hbase : components (peerSeparator isWindows) (remoteJoin isWindows cwd raw)
      = (readPeer isWindows cwd).2 ++ components isSeparator raw := by
    have hdrop :
        components (peerSeparator isWindows) ((normalized isWindows raw).dropWhile (· = sep isWindows))
        = components isSeparator raw := by
      rw [components_dropWhile _ (fun c hc => ?_), components_normalized]
      rw [decide_eq_true_eq.mp hc]
      exact peerSeparator_sep isWindows
    rw [hjoin, hopen.components_append, hcomponents, hdrop]
    rfl
  -- the base ends in a separator again
  have hclosed : Open (peerSeparator isWindows) (remoteJoin isWindows cwd raw)
      ∧ ((remoteJoin isWindows cwd raw).getLast? = some (sep isWindows)
        ∨ (remoteJoin isWindows cwd raw).getLast? = some (otherSep isWindows)) := by
    rw [hjoin]
    obtain hnil | ⟨front, hfront⟩ := @normalized_dir isWindows raw hdir
    · rw [hnil, List.append_nil]
      exact ⟨hopen, hlast⟩
    · rw [hfront, ← List.append_assoc]
      exact ⟨.inr ⟨joined ++ front, _, rfl, peerSeparator_sep isWindows⟩, .inl List.getLast?_concat⟩
  have hrooted : (remoteJoin isWindows cwd raw ++ name).head? = cwd.head? := by
    rw [hjoin]
    cases joined with
    | nil =>
        obtain hlast | hlast := hlast
        · cases hlast
        · cases hlast
    | cons c joined => exact hhead
  rw [remoteJoin_name h hclosed.2]
  unfold readPeer at hbase ⊢
  rw [hrooted, hclosed.1.components_name h.peer h.ne_nil h.ne_dot, hbase]

/-- An ordinary name goes into the directory that was chosen on the peer. -/
theorem putTarget_reads (h : Ordinary name) {localPath : List Char} (hname : lastPart localPath = name)
    {remote : Option (List Char)} (hdir : ChoosesPeerDir cwd isWindows remote) :
    ∃ target, putTarget cwd isWindows localPath remote = some (.ok target)
      ∧ readPeer isWindows target = ((chosenPeerDir cwd isWindows remote).1,
        (chosenPeerDir cwd isWindows remote).2 ++ [name]) := by
  rw [putTarget, portableFileName_eq, hname]
  cases remote with
  | none => exact ⟨_, rfl, readPeer_joinText h cwd⟩
  | some raw =>
      by_cases hdot : raw = ['.'] ∨ raw = ['.', '/']
      · have hchosen : chosenPeerDir cwd isWindows (some raw) = readPeer isWindows cwd := if_pos hdot
        refine ⟨joinText cwd name, ?_, ?_⟩
        · rw [Option.map_some]
          unfold resolveRemotePath
          dsimp only
          rw [if_pos hdot]
          rfl
        · rw [hchosen]
          exact readPeer_joinText h cwd
      have hchosen : chosenPeerDir cwd isWindows (some raw) = namedPeerDir cwd isWindows raw := if_neg hdot
      obtain ⟨hlast, hrel, hwhere⟩ : raw.getLast? = some '/' ∧ raw.head? ≠ some '/'
          ∧ NamesPeerDir cwd isWindows raw := by
        obtain hone | htwo | hrest := hdir
        · exact absurd (.inl hone) hdot
        · exact absurd (.inr htwo) hdot
        · exact hrest
      rw [Option.map_some, hchosen]
      unfold resolveRemotePath
      dsimp only
      rw [if_neg hdot, if_neg hrel]
      split
      · cases hlast
      · -- below the home
        rename_i rest
        have hjoin : joinText ['~', '/'] rest = '~' :: '/' :: rest := by
          rw [joinText, if_neg hwhere, if_pos (.inr rfl)]
          rfl
        rw [if_pos hlast, hjoin]
        exact ⟨_, rfl, readPeer_joinText h _⟩
      · rename_i hnothome hnotbelow
        have hexplicit : isExplicitDir raw = true := by
          rw [isExplicitDir, hlast]
          rfl
        have hcwd : cwd ≠ [] ∧ (isWindows = true ∨ cwd.getLast? ≠ some '\\') := by
          unfold NamesPeerDir at hwhere
          split at hwhere
          · rename_i rest
            exact absurd rfl (hnotbelow rest)
          · exact hwhere
        rw [hexplicit]
        refine ⟨_, rfl, ?_⟩
        rw [readPeer_remoteJoin h hcwd.1 hcwd.2 hlast]
        unfold namedPeerDir
        split
        · rename_i rest
          exact absurd rfl (hnotbelow rest)
        · rfl

/-! ## This side -/

theorem Ordinary.valid (h : Ordinary name) : ValidName name :=
  ⟨h.ne_nil, h.ne_dot, h.ne_dots, (notMem_of_plain h.plain).1⟩

theorem join_name (dir : Path) (n : Name) : dir.join (parse n.1) = dir.child n := by
  have hparse : parse n.1 = Path.ofName n := by
    have hread := parse_display_names (List.cons_ne_nil n [])
    rwa [display_singleton] at hread
  rw [hparse, Path.join_ofName]

/-- The pieces of a file name are made of its characters. -/
theorem mem_rsplitFileAtDot {file piece : List Char} {c : Char} (hc : c ∈ piece)
    (h : (rsplitFileAtDot file).1 = some piece ∨ (rsplitFileAtDot file).2 = some piece) : c ∈ file := by
  unfold rsplitFileAtDot at h
  split at h
  · obtain h | h := h
    · cases h
      exact hc
    · cases h
  · split at h
    · obtain h | h := h
      · cases h
      · cases h
        exact hc
    · rename_i x before hbefore
      split at h
      · obtain h | h := h
        · cases h
          exact hc
        · cases h
      · have hdrop : before ⊆ file.reverse := by
          intro d hd
          refine (List.dropWhile_sublist (· ≠ '.')).subset ?_
          rw [hbefore]
          exact List.mem_cons_of_mem x hd
        obtain h | h := h
        · cases h
          exact List.mem_reverse.mp (hdrop (List.mem_reverse.mp hc))
        · cases h
          exact List.mem_reverse.mp ((List.takeWhile_sublist _).subset (List.mem_reverse.mp hc))

theorem mem_fileStem {file piece : List Char} {c : Char} (h : fileStem file = some piece) (hc : c ∈ piece) :
    c ∈ file := by
  unfold fileStem at h
  cases hfirst : (rsplitFileAtDot file).1 with
  | none =>
      rw [hfirst, Option.none_or] at h
      exact mem_rsplitFileAtDot hc (.inr h)
  | some first =>
      rw [hfirst, Option.some_or] at h
      cases h
      exact mem_rsplitFileAtDot hc (.inl hfirst)

theorem mem_extension {file piece : List Char} {c : Char} (h : extension file = some piece) (hc : c ∈ piece) :
    c ∈ file := by
  unfold extension at h
  obtain ⟨first, -, hsecond⟩ := Option.bind_eq_some_iff.mp h
  exact mem_rsplitFileAtDot hc (.inr hsecond)

/-- A numbered variant is the name of a file too. -/
theorem candidateName_valid {stem : List Char} {ext : Option (List Char)} (hstem : '/' ∉ stem)
    (hext : ∀ e, ext = some e → '/' ∉ e) (index : Nat) : ValidName (candidateName stem ext index) := by
  have hspace : ' ' ∈ candidateName stem ext index := by simp [candidateName]
  refine ⟨?_, ?_, ?_, ?_⟩
  · intro heq
    rw [heq] at hspace
    cases hspace
  · intro heq
    rw [heq] at hspace
    exact absurd hspace (by decide)
  · intro heq
    rw [heq] at hspace
    exact absurd hspace (by decide)
  · have hdigits : '/' ∉ Nat.toDigits 10 index := by
      intro hmem
      exact absurd (Nat.isDigit_of_mem_toDigits (by decide) (by decide) hmem) (by decide)
    intro hmem
    cases ext with
    | none => simp [candidateName, hdigits, hstem] at hmem
    | some e => simp [candidateName, hdigits, hstem, hext e rfl] at hmem

theorem firstFree_found {present : Path → Bool} {candidate : Nat → Path} {start n : Nat} {q : Path}
    (h : firstFree present candidate start n = some q) :
    ∃ i, start ≤ i ∧ i < start + n ∧ q = candidate i ∧ present q = false := by
  induction n generalizing start with
  | zero => cases h
  | succ n ih =>
      rw [firstFree] at h
      split at h
      · obtain ⟨i, hle, hlt, hq⟩ := ih h
        exact ⟨i, by omega, by omega, hq⟩
      · rename_i hfree
        cases h
        exact ⟨start, Nat.le_refl _, by omega, rfl, by simpa using hfree⟩

/-- `m` is `n` with a number, because `n` is taken. -/
def Numbered (disk : LocalDisk) (dir : Path) (n m : Name) : Prop :=
  disk.present (dir.child n) = true ∧ disk.present (dir.child m) = false
    ∧ ∃ i, 1 ≤ i ∧ i ≤ 1000000 ∧ m.1 = candidateName ((fileStem n.1).getD "download".toList) (extension n.1) i

/-- The name, or a numbered variant in the same directory. -/
theorem autoRename_child (disk : LocalDisk) (dir : Path) (n : Name) :
    ∃ m, autoRenameDownloadTarget disk (dir.child n) = dir.child m ∧ (m = n ∨ Numbered disk dir n m) := by
  unfold autoRenameDownloadTarget
  split
  · exact ⟨n, rfl, .inl rfl⟩
  · rename_i hthere
    have hpresent : disk.present (dir.child n) = true := by simpa using hthere
    have hslash : '/' ∉ n.1 := n.2.2.2.2
    have hstem : '/' ∉ (fileStem n.1).getD "download".toList := by
      cases hs : fileStem n.1 with
      | none => decide
      | some stem => exact fun hmem => hslash (mem_fileStem hs hmem)
    have hext : ∀ e, extension n.1 = some e → '/' ∉ e := fun e he hmem => hslash (mem_extension he hmem)
    dsimp only
    rw [Path.parent_child, Path.fileName_child, Option.getD_some, Option.bind_some, Option.bind_some]
    cases hfree : firstFree disk.present (fun index => dir.join
        (parse (candidateName ((fileStem n.1).getD "download".toList) (extension n.1) index))) 1 1000000 with
    | none => exact ⟨n, rfl, .inl rfl⟩
    | some q =>
        obtain ⟨i, hle, hlt, hq, hnot⟩ := firstFree_found hfree
        have hchild := join_name dir ⟨_, candidateName_valid hstem hext i⟩
        refine ⟨⟨_, candidateName_valid hstem hext i⟩, hq.trans hchild,
          .inr ⟨hpresent, ?_, i, hle, by omega, rfl⟩⟩
        rw [← hchild, ← hq]
        exact hnot

/-- The directory that is chosen on this side. -/
def chosenLocalDir (disk : LocalDisk) (localRoot : Path) : Option (List Char) → Path
  | none => localRoot
  | some raw =>
      if raw = ['.'] ∨ raw = ['.', '/'] then localRoot else resolveLocalInputPath disk localRoot raw

/-- No file is named but a directory. -/
def ChoosesLocalDir : Option (List Char) → Prop
  | none => True
  | some raw => raw = ['.'] ∨ raw = ['.', '/'] ∨ raw.getLast? = some '/'

/-- A directory that is named by more than a dot. -/
def NamesLocalDir (raw : Option (List Char)) : Prop := ∃ s, raw = some s ∧ s ≠ ['.'] ∧ s ≠ ['.', '/']

/-- An ordinary name goes into the directory that was chosen here; into one that was named, under
another number if it is taken. -/
theorem getTarget_child (disk : LocalDisk) (localRoot : Path) (h : Ordinary name) {remotePath : List Char}
    (hname : lastPart remotePath = name) {target : Option (List Char)} (hdir : ChoosesLocalDir target) :
    ∃ m : Name, getTarget disk localRoot remotePath target
        = some ((chosenLocalDir disk localRoot target).child m)
      ∧ (m.1 = name ∨ NamesLocalDir target
        ∧ Numbered disk (chosenLocalDir disk localRoot target) ⟨name, h.valid⟩ m) := by
  have hjoin (dir : Path) : dir.join (parse name) = dir.child ⟨name, h.valid⟩ := join_name dir ⟨name, h.valid⟩
  rw [getTarget, portableFileName_eq, hname, Option.map_some]
  cases target with
  | none => exact ⟨⟨name, h.valid⟩, congrArg some (hjoin localRoot), .inl rfl⟩
  | some raw =>
      unfold resolveLocalTarget
      dsimp only
      by_cases hdot : raw = ['.'] ∨ raw = ['.', '/']
      · have hchosen : chosenLocalDir disk localRoot (some raw) = localRoot := if_pos hdot
        rw [if_pos hdot, hchosen]
        exact ⟨⟨name, h.valid⟩, congrArg some (hjoin localRoot), .inl rfl⟩
      · have hchosen : chosenLocalDir disk localRoot (some raw) = resolveLocalInputPath disk localRoot raw :=
          if_neg hdot
        have hlast : raw.getLast? = some '/' := by
          obtain hone | htwo | hlast := hdir
          · exact absurd (.inl hone) hdot
          · exact absurd (.inr htwo) hdot
          · exact hlast
        have hexplicit :
            (isExplicitDir raw || disk.isDir (resolveLocalInputPath disk localRoot raw)) = true := by
          rw [isExplicitDir, hlast]
          rfl
        rw [if_neg hdot, if_pos hexplicit, hjoin, hchosen]
        obtain ⟨m, hm, hcase⟩ :=
          autoRename_child disk (resolveLocalInputPath disk localRoot raw) ⟨name, h.valid⟩
        refine ⟨m, congrArg some hm, ?_⟩
        obtain hsame | hnumbered := hcase
        · exact .inl (congrArg Subtype.val hsame)
        · exact .inr ⟨⟨raw, rfl, (not_or.mp hdot).1, (not_or.mp hdot).2⟩, hnumbered⟩

end Targets

/-! ## Both ways -/

namespace Proof

open Targets UnixPath

/-- **A source with an ordinary last part goes to a direct child of the directory that was chosen:**
on the peer, a path that reads as that directory and this name; on this side, the directory's
child of this name, or of a numbered variant where the directory was named and the name is taken. -/
theorem transfer_targets (cwd : List Char) (isWindows : Bool) (disk : LocalDisk) (localRoot : Path)
    {source : List Char} (h : Ordinary (lastPart source)) (target : Option (List Char)) :
    (ChoosesPeerDir cwd isWindows target →
      ∃ q, putTarget cwd isWindows source target = some (.ok q)
        ∧ readPeer isWindows q = ((chosenPeerDir cwd isWindows target).1,
          (chosenPeerDir cwd isWindows target).2 ++ [lastPart source]))
    ∧ (ChoosesLocalDir target →
      ∃ m : Name, getTarget disk localRoot source target
          = some ((chosenLocalDir disk localRoot target).child m)
        ∧ (m.1 = lastPart source ∨ NamesLocalDir target
          ∧ Numbered disk (chosenLocalDir disk localRoot target) ⟨lastPart source, h.valid⟩ m)) :=
  ⟨fun hdir => putTarget_reads h rfl hdir, fun hdir => getTarget_child disk localRoot h rfl hdir⟩

/-- A file goes into `in/`, on a Windows peer and into the home of this side. -/
theorem transfer_targets_file :
    (∃ q, putTarget "C:\\work".toList true "/srv/f.txt".toList (some "in/".toList) = some (.ok q)
      ∧ readPeer true q = (false, ["C:".toList, "work".toList] ++ ["in".toList] ++ ["f.txt".toList]))
    ∧ ∃ m : Name, getTarget ⟨none, fun _ => false, fun _ => false⟩ (parse "/home/u".toList)
        "/srv/f.txt".toList (some "in/".toList)
        = some ((chosenLocalDir ⟨none, fun _ => false, fun _ => false⟩ (parse "/home/u".toList)
          (some "in/".toList)).child m) := by
  have hname : lastPart "/srv/f.txt".toList = "f.txt".toList := by decide +kernel
  have h : Ordinary (lastPart "/srv/f.txt".toList) :=
    ⟨by decide +kernel, by decide +kernel, by decide +kernel, (lastPart_cases _).1⟩
  obtain ⟨hput, hget⟩ := transfer_targets "C:\\work".toList true ⟨none, fun _ => false, fun _ => false⟩
    (parse "/home/u".toList) h (some "in/".toList)
  obtain ⟨q, hq, hreads⟩ :=
    hput (.inr (.inr ⟨by decide +kernel, by decide +kernel, by decide +kernel, .inl rfl⟩))
  obtain ⟨m, hm, -⟩ := hget (.inr (.inr (by decide +kernel)))
  rw [hname] at hreads
  exact ⟨⟨q, hq, hreads.trans (by decide +kernel)⟩, m, hm⟩

/-- A name that is taken gets a number, and a source that ends in a separator gets no name: its
target is the directory itself. -/
theorem taken_and_nameless :
    getTarget ⟨none, fun p => p = parse "/home/u/in/f.txt".toList, fun _ => false⟩ (parse "/home/u".toList)
        "/srv/f.txt".toList (some "in/".toList)
        = some (parse "/home/u/in/f (1).txt".toList)
    ∧ parse "/home/u/in/f (1).txt".toList ≠ parse "/home/u/in/f.txt".toList
    ∧ putTarget "/home/u".toList false "/srv/docs/".toList none = some (.ok "/home/u/".toList)
    ∧ readPeer false "/home/u/".toList = readPeer false "/home/u".toList := by
  decide +kernel

end Proof

end Irosh
