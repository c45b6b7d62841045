import Irosh.Input.CompletePath
import Irosh.Proof.Completion
import Irosh.Proof.Retokenise
import Irosh.Proof.TransferTargets

/-!
# Completion extends what was typed

A single match is written over the token, and the line is read again. On this side the match
is quoted, so it is read back unless it has a whitespace that the quoting leaves alone. The
peer answers with names alone, and these are written as they are: a token with a directory in
it loses the directory, and a name with a space or a quote is torn apart.
-/

namespace Irosh

namespace CompleteLine

open Metadata Quoted Targets UnixPath

/-! ## The new line -/

/-- Without the blank that is written behind a file. -/
def withoutBlank (replacement : List Char) : List Char :=
  if replacement.getLast? = some ' ' then replacement.dropLast else replacement

/-- What is expected of a completion: only the token changes, what stands there now is read as one
token, its value goes on from the old one, and it leads where it should. -/
def Extends (text : List Char) (t : Token) (leads : List Char → Prop) (edit : CompletionEdit) : Prop :=
  ∃ front mid back replacement parsed value, text = front ++ mid ++ back ∧ byteLen front = t.rawStart
    ∧ byteLen (front ++ mid) = t.rawEnd
    ∧ edit = ⟨Utf8.encode (front ++ replacement ++ back), byteLen (front ++ replacement)⟩
    ∧ parseLine (front ++ replacement ++ back) edit.cursor = some parsed
    ∧ Alone parsed.tokens ⟨byteLen front, byteLen (front ++ withoutBlank replacement), value⟩
    ∧ t.value <+: value ∧ leads value

/-- A replacement is a word, and perhaps a blank behind it. -/
structure WordAnd (replacement word gap : List Char) : Prop where
  eq : replacement = word ++ gap
  gap : gap = [] ∨ gap = [' ']
  ne_nil : word ≠ []
  trimmed : withoutBlank replacement = word

theorem wordAnd_blank {word : List Char} (h : word ≠ []) : WordAnd (word ++ [' ']) word [' '] where
  eq := rfl
  gap := .inr rfl
  ne_nil := h
  trimmed := by rw [withoutBlank, List.getLast?_concat, if_pos rfl, List.dropLast_concat]

theorem wordAnd_self {word : List Char} (h : word ≠ []) (hlast : word.getLast? ≠ some ' ') :
    WordAnd word word [] where
  eq := (List.append_nil word).symm
  gap := .inl rfl
  ne_nil := h
  trimmed := if_neg hlast

variable {text : List Char} {cursor : Nat} {parsed : ParsedLine} {t : Token}
  {replacement word gap : List Char}
  {edit : CompletionEdit} {leads : List Char → Prop}

theorem encode_injective {s s' : List Char} (h : Utf8.encode s = Utf8.encode s') : s = s' := by
  rw [← Utf8.decodeLossy_encode s, h, Utf8.decodeLossy_encode]

/-- What the edit is, and how its line is read. -/
theorem replaceActive_reads (hp : parseLine text cursor = some parsed) (ha : activeToken parsed = some t)
    (hw : WordAnd replacement word gap) (h : replaceActive parsed replacement = some (.applied edit)) :
    ∃ front mid back, text = front ++ mid ++ back ∧ byteLen front = t.rawStart
      ∧ byteLen (front ++ mid) = t.rawEnd ∧ Between front ∧ Apart (gap ++ back)
      ∧ edit = ⟨Utf8.encode (front ++ replacement ++ back), byteLen (front ++ replacement)⟩ := by
  obtain ⟨front, mid, back, htext, hstart, htail, hbetween, hapart⟩ := active_split hp ha
  obtain ⟨extra, hparse, -⟩ := parseLine_spec text cursor
  have hraw : parsed.raw = front ++ mid ++ back := by
    rw [hp] at hparse
    cases hparse
    exact htext
  rw [replaceActive, ha] at h
  dsimp only at h
  rw [← hstart, ← htail, replaceRange_between hraw replacement] at h
  cases h
  refine ⟨front, mid, back, htext, hstart, htail, hbetween, ?_, rfl⟩
  obtain rfl | rfl := hw.gap
  · exact hapart
  · exact .inr ⟨' ', back, rfl, rfl⟩

/-- A word that is read outside of all quotes and leads on extends the token. -/
theorem extends_of (hp : parseLine text cursor = some parsed) (ha : activeToken parsed = some t)
    (hw : WordAnd replacement word gap) (h : replaceActive parsed replacement = some (.applied edit))
    {value : List Char} (hread : readWord isWhitespace .off word = some (.off, value))
    (hpre : t.value <+: value) (hleads : leads value) : Extends text t leads edit := by
  obtain ⟨front, mid, back, htext, hstart, htail, hbetween, hapart, rfl⟩ := replaceActive_reads hp ha hw h
  obtain ⟨extra, hparse, -⟩ := parseLine_spec (front ++ replacement ++ back) (byteLen (front ++ replacement))
  refine ⟨front, mid, back, replacement, _, value, htext, hstart, htail, rfl, hparse, ?_, hpre, hleads⟩
  rw [hw.trimmed]
  rw [hw.eq] at hparse ⊢
  exact (alone_iff hw.ne_nil hparse).mpr ⟨hbetween, hw.ne_nil, _, hread, .inr ⟨rfl, hapart⟩⟩

/-- If the token is extended, it is by what is read of the word. -/
theorem extends_inv (hp : parseLine text cursor = some parsed) (ha : activeToken parsed = some t)
    (hw : WordAnd replacement word gap) (h : replaceActive parsed replacement = some (.applied edit))
    (he : Extends text t leads edit) :
    ∃ q value, readWord isWhitespace .off word = some (q, value) ∧ t.value <+: value ∧ leads value := by
  obtain ⟨front, mid, back, htext, hstart, htail, -, -, rfl⟩ := replaceActive_reads hp ha hw h
  obtain ⟨front', mid', back', replacement', parsed', value, htext', hstart', htail', heq, hparse, halone,
    hpre, hleads⟩ := he
  -- the same token is replaced by the same text
  rw [htext] at htext'
  obtain ⟨hboth, rfl⟩ := append_inj_byteLen htext' (htail.trans htail'.symm)
  obtain ⟨rfl, rfl⟩ := append_inj_byteLen hboth (hstart.trans hstart'.symm)
  have hline := encode_injective (congrArg CompletionEdit.line heq)
  have hsame : replacement = replacement' :=
    List.append_cancel_left (List.append_cancel_right hline)
  subst hsame
  rw [hw.trimmed] at halone
  dsimp only at hparse
  rw [hw.eq] at hparse
  obtain ⟨q, hread, -⟩ := ((alone_iff hw.ne_nil hparse).mp halone).read
  exact ⟨q, value, hread, hpre, hleads⟩

/-! ## The token -/

/-- The path that is completed. -/
def CompletionTarget.path : CompletionTarget → Option (List Char)
  | .putLocalPath raw => some raw
  | .getRemotePath raw => some raw
  | .listLocalPath raw => some raw
  | .changeLocalPath raw => some raw
  | .keyword _ => Option.none
  | .none => Option.none

/-- Tokens that lie in the same place are the same. -/
theorem token_eq_of_range (hp : parseLine text cursor = some parsed) {a b : Token} (ha : a ∈ parsed.tokens)
    (hb : b ∈ parsed.tokens) (hstart : a.rawStart = b.rawStart) (htail : a.rawEnd = b.rawEnd) : a = b := by
  obtain ⟨extra, hparse, hextra⟩ := parseLine_spec text cursor
  have hwords := wordsOf_words text
  rw [hp] at hparse
  cases hparse
  obtain ha | ha := List.mem_append.mp ha
  · have hword := (hwords.words a ha).nonempty
    obtain hb | hb := List.mem_append.mp hb
    · exact hwords.eq_of_overlap ha hb (by omega) (by omega)
    · -- the empty token takes up nothing
      obtain rfl | rfl := hextra
      · cases hb
      · rw [List.mem_singleton.mp hb] at hstart htail
        dsimp only at hstart htail
        omega
  · obtain rfl | rfl := hextra
    · cases ha
    · rw [List.mem_singleton.mp ha] at hstart htail ⊢
      obtain hb | hb := List.mem_append.mp hb
      · have hword := (hwords.words b hb).nonempty
        dsimp only at hstart htail
        omega
      · exact (List.mem_singleton.mp hb).symm

theorem classifyPositionalTarget_path {mode : CompletionMode} {command value raw : List Char} {i : Nat}
    (h : (classifyPositionalTarget mode command i value).path = some raw) : raw = value := by
  unfold classifyPositionalTarget at h
  split at h
  all_goals
    cases h
    try rfl

theorem classifyFrom_path {mode : CompletionMode} {command raw : List Char} {active : Token}
    {tokens : List Token}
    (honly : ∀ token ∈ tokens, token.rawStart = active.rawStart → token.rawEnd = active.rawEnd →
      token = active)
    {i : Nat} (h : (classifyFrom mode command active i tokens).path = some raw) : raw = active.value := by
  induction tokens generalizing i with
  | nil => cases h
  | cons token rest ih =>
      rw [classifyFrom] at h
      split at h
      · rename_i hrange
        rw [← honly token List.mem_cons_self hrange.1 hrange.2]
        exact classifyPositionalTarget_path h
      · exact ih (fun token ht => honly token (List.mem_cons_of_mem _ ht)) h

/-- The path that is completed is the value of the active token. -/
theorem classify_path (hp : parseLine text cursor = some parsed) (ha : activeToken parsed = some t)
    (mode : CompletionMode) {raw : List Char} (h : (classifyCompletionTarget mode parsed).path = some raw) :
    raw = t.value := by
  rw [classifyCompletionTarget, ha] at h
  dsimp only at h
  split at h
  · cases h
  · split at h
    · cases h
    · rename_i command rest htokens
      split at h
      · cases h
      · refine classifyFrom_path (fun token ht hstart htail => ?_) h
        have hmem : token ∈ parsed.tokens := by
          rw [htokens]
          exact List.mem_cons_of_mem command ht
        exact token_eq_of_range hp hmem (List.mem_of_find?_eq_some ha) hstart htail

/-! ## The directory of a path -/

/-- A path up to its last slash. -/
def dirPart (raw : List Char) : List Char := (raw.reverse.dropWhile (· != '/')).reverse

/-- What comes behind the last slash. -/
def lastPiece (raw : List Char) : List Char := (raw.reverse.takeWhile (· != '/')).reverse

/-- Nothing, or it ends in a slash. -/
def Slashed (d : List Char) : Prop := d = [] ∨ ∃ front, d = front ++ ['/']

theorem dirPart_append (raw : List Char) : raw = dirPart raw ++ lastPiece raw := by
  rw [dirPart, lastPiece, ← List.reverse_append, List.takeWhile_append_dropWhile, List.reverse_reverse]

theorem slash_notMem_lastPiece (raw : List Char) : '/' ∉ lastPiece raw := by
  intro h
  have hkept := List.mem_takeWhile_imp (List.mem_reverse.mp h)
  cases hkept

theorem slashed_dirPart (raw : List Char) : Slashed (dirPart raw) := by
  rw [dirPart]
  cases hd : raw.reverse.dropWhile (· != '/') with
  | nil => exact .inl rfl
  | cons c rest =>
      have hnot := List.head?_dropWhile_not (· != '/') raw.reverse
      rw [hd] at hnot
      have hc : c = '/' := by simpa using hnot
      exact .inr ⟨rest.reverse, by rw [List.reverse_cons, hc]⟩

theorem Slashed.eq_nil_or_getLast? {d : List Char} (h : Slashed d) : d = [] ∨ d.getLast? = some '/' := by
  obtain rfl | ⟨front, rfl⟩ := h
  · exact .inl rfl
  · exact .inr List.getLast?_concat

/-- A path that ends in a slash is its own directory. -/
theorem dirPart_of_lastPiece {raw : List Char} (h : lastPiece raw = []) : dirPart raw = raw := by
  have happend := dirPart_append raw
  rw [h, List.append_nil] at happend
  exact happend.symm

theorem readPart_name (n : Name) : readPart n.1 = some (.normal n) := readPart_chars (.normal n)

theorem splitOn_name (n : Name) : n.1.splitOn '/' = [n.1] :=
  List.splitOnP_eq_singleton fun c hc => by
    have hne : c ≠ '/' := fun heq => n.2.2.2.2 (heq ▸ hc)
    simpa using hne

theorem splitOn_append_slash (s t : List Char) :
    (s ++ '/' :: t).splitOn '/' = s.splitOn '/' ++ t.splitOn '/' :=
  List.splitOnP_append_cons s t rfl

/-- The pieces of a name, with or without a slash behind it, are this name. -/
theorem pieces_name (n : Name) {tail : List Char} (htail : tail = [] ∨ tail = ['/']) :
    ∃ rest, (n.1 ++ tail).splitOn '/' = n.1 :: rest ∧ ((n.1 :: rest).filterMap readPart) = [.normal n] := by
  obtain rfl | rfl := htail
  · exact ⟨[], by rw [List.append_nil, splitOn_name], by rw [List.filterMap_cons_some (readPart_name n)]; rfl⟩
  · refine ⟨[[]], ?_, by rw [List.filterMap_cons_some (readPart_name n)]; rfl⟩
    rw [splitOn_append_slash, splitOn_name]
    rfl

/-- What is read of the pieces of a path that does not begin with a slash. -/
def readPieces : List (List Char) → Path
  | ['.'] :: rest => ⟨.curDir, rest.filterMap readPart⟩
  | pieces => ⟨.plain, pieces.filterMap readPart⟩

theorem parse_relative {s : List Char} (h : s.head? ≠ some '/') : parse s = readPieces (s.splitOn '/') := by
  unfold parse
  split
  · exact absurd rfl h
  · rfl

theorem parse_rooted (s : List Char) :
    parse ('/' :: s) = ⟨.rootDir, (s.splitOn '/').filterMap readPart⟩ := rfl

/-- More pieces are more parts. -/
theorem readPieces_append {xs ys : List (List Char)} (hne : xs ≠ []) :
    readPieces (xs ++ ys)
      = ⟨(readPieces xs).head, (readPieces xs).parts ++ ys.filterMap readPart⟩ := by
  obtain ⟨x, xs, rfl⟩ := List.exists_cons_of_ne_nil hne
  rw [List.cons_append]
  unfold readPieces
  split
  · rename_i heq
    obtain ⟨rfl, rfl⟩ := List.cons.inj heq
    rw [List.filterMap_append]
    rfl
  · rename_i hplain
    split
    · rename_i heq
      obtain ⟨rfl, rfl⟩ := List.cons.inj heq
      exact absurd rfl (hplain _)
    · dsimp only
      rw [← List.cons_append, List.filterMap_append]

/-- Reading a name behind a directory. -/
theorem parse_name_behind {d : List Char} (hd : Slashed d) (n : Name) {tail : List Char}
    (htail : tail = [] ∨ tail = ['/']) : parse (d ++ (n.1 ++ tail)) = (parse d).child n := by
  obtain ⟨rest, hpieces, hread⟩ := pieces_name n htail
  obtain rfl | ⟨front, rfl⟩ := hd
  · have hrel : (n.1 ++ tail).head? ≠ some '/' := by
      obtain ⟨c, name, hn⟩ := List.exists_cons_of_ne_nil n.2.1
      intro heq
      rw [hn] at heq
      have hc : c = '/' := by simpa using heq
      exact n.2.2.2.2 (by rw [hn, hc]; exact List.mem_cons_self)
    rw [List.nil_append, parse_relative hrel, hpieces]
    unfold readPieces
    split
    · rename_i heq
      exact absurd (List.cons.inj heq).1 n.2.2.1
    · rw [hread]
      rfl
  · have hsplit : front ++ ['/'] ++ (n.1 ++ tail) = front ++ '/' :: (n.1 ++ tail) := by simp
    cases front with
    | nil =>
        rw [List.nil_append, List.singleton_append, parse_rooted, hpieces, hread]
        rfl
    | cons c front =>
        rw [hsplit]
        by_cases hc : c = '/'
        · subst hc
          rw [List.cons_append, List.cons_append, parse_rooted, parse_rooted, splitOn_append_slash,
            splitOn_append_slash, hpieces, List.filterMap_append, List.filterMap_append, hread]
          simp [Path.child, readPart, ValidName]
        · have hrel (s : List Char) : (c :: front ++ s).head? ≠ some '/' := by simpa using hc
          have hne : (c :: front).splitOn '/' ≠ [] := List.splitOnP_ne_nil _ _
          rw [parse_relative (hrel _), parse_relative (hrel _), splitOn_append_slash, splitOn_append_slash,
            hpieces, readPieces_append hne, readPieces_append hne, hread]
          simp [Path.child, readPart, ValidName]

/-! ## Paths on this side -/

section

variable {disk : LocalDisk} {root : Path}

theorem child_join (a b : Path) (n : Name) : a.join (b.child n) = (a.join b).child n := by
  by_cases hb : b.head = .rootDir
  · have habs (c : Path) (hc : c.head = .rootDir) : a.join c = c := by
      unfold Path.join
      rw [hc]
    rw [habs b hb, habs (b.child n) hb]
  · exact Path.join_child hb n

theorem child_isAbsolute (p : Path) (n : Name) : (p.child n).isAbsolute = p.isAbsolute := rfl

theorem join_nil (p : Path) : p.join (parse []) = p := by
  have hparse : parse [] = ⟨.plain, []⟩ := rfl
  unfold Path.join
  rw [hparse]
  dsimp only
  split
  · rename_i hp
    exact hp.symm
  · rw [List.append_nil]

/-- A relative path that is not under the home. -/
def Homeless (disk : LocalDisk) (raw : List Char) : Prop :=
  disk.home = none ∨ (∀ rest, raw ≠ '~' :: '/' :: rest) ∧ raw ≠ ['~']

theorem resolve_absolute {raw : List Char} (h : (parse raw).isAbsolute = true) :
    resolveLocalInputPath disk root raw = parse raw := if_pos h

theorem resolve_homeless {raw : List Char} (habs : ¬ (parse raw).isAbsolute = true) (h : Homeless disk raw) :
    resolveLocalInputPath disk root raw = root.join (parse raw) := by
  unfold resolveLocalInputPath
  rw [if_neg habs]
  split
  · rename_i hhome
    obtain hnone | ⟨hne, -⟩ := h
    · cases hnone.symm.trans hhome
    · exact absurd rfl (hne _)
  · rename_i hhome
    obtain hnone | ⟨-, hne⟩ := h
    · cases hnone.symm.trans hhome
    · exact absurd rfl hne
  · rfl

theorem resolve_home (root : Path) {home : Path} (hhome : disk.home = some home) (rest : List Char) :
    resolveLocalInputPath disk root ('~' :: '/' :: rest) = home.join (parse rest) := by
  have habs : ¬ (parse ('~' :: '/' :: rest)).isAbsolute = true := by
    have hrel : ('~' :: '/' :: rest).head? ≠ some '/' := by simp
    rw [parse_relative hrel]
    unfold readPieces
    split
    · exact Bool.false_ne_true
    · exact Bool.false_ne_true
  unfold resolveLocalInputPath
  rw [if_neg habs, hhome]
  rfl

theorem Slashed.tail {c d : Char} {rest : List Char} (h : Slashed (c :: d :: rest)) : Slashed rest := by
  obtain h | ⟨front, h⟩ := h
  · cases h
  · cases front with
    | nil => cases h
    | cons c' front =>
        cases front with
        | nil =>
            cases h
            exact .inl rfl
        | cons d' front =>
            cases h
            exact .inr ⟨front, rfl⟩

/-- The beginning of a name. -/
theorem name_cons {n : Name} {tail rest : List Char} {c : Char}
    (h : n.1 ++ tail = c :: rest) : ∃ name, n.1 = c :: name ∧ rest = name ++ tail := by
  obtain ⟨d, name, hn⟩ := List.exists_cons_of_ne_nil n.2.1
  rw [hn] at h ⊢
  cases h
  exact ⟨name, rfl, rfl⟩

/-- **A name behind a directory is resolved in that directory**, unless the name is that of the home. -/
theorem resolve_name (root : Path) {d : List Char} (hd : Slashed d) (n : Name) {tail : List Char}
    (htail : tail = [] ∨ tail = ['/']) (hhome : d = [] → n.1 = ['~'] → disk.home = none) :
    resolveLocalInputPath disk root (d ++ (n.1 ++ tail)) = (resolveLocalInputPath disk root d).child n := by
  have hparse := parse_name_behind hd n htail
  have habs : (parse (d ++ (n.1 ++ tail))).isAbsolute = (parse d).isAbsolute := by
    rw [hparse, child_isAbsolute]
  by_cases hrooted : (parse d).isAbsolute = true
  · rw [resolve_absolute hrooted, resolve_absolute (habs.trans hrooted), hparse]
  cases hh : disk.home with
  | none =>
      rw [resolve_homeless hrooted (.inl hh), resolve_homeless (habs ▸ hrooted) (.inl hh), hparse, child_join]
  | some home =>
      by_cases hunder : ∃ rest, d = '~' :: '/' :: rest
      · obtain ⟨rest, rfl⟩ := hunder
        rw [List.cons_append, List.cons_append, resolve_home root hh, resolve_home root hh,
          parse_name_behind hd.tail n htail, child_join]
      · have hd' : Homeless disk d := by
          refine .inr ⟨fun rest heq => hunder ⟨rest, heq⟩, fun heq => ?_⟩
          obtain hnil | ⟨front, hfront⟩ := hd
          · rw [hnil] at heq
            cases heq
          · have hlast := congrArg List.getLast? (heq.symm.trans hfront)
            rw [List.getLast?_concat] at hlast
            cases hlast
        have hs : Homeless disk (d ++ (n.1 ++ tail)) := by
          refine .inr ⟨fun rest heq => ?_, fun heq => ?_⟩
          · cases d with
            | nil =>
                obtain ⟨name, hn, hrest⟩ := name_cons heq
                cases name with
                | nil =>
                    have hnone := hhome rfl hn
                    rw [hh] at hnone
                    cases hnone
                | cons c name =>
                    cases hrest
                    exact n.2.2.2.2 (by rw [hn]; simp)
            | cons c d =>
                cases d with
                | nil =>
                    obtain h | ⟨front, h⟩ := hd
                    · cases h
                    · cases front with
                      | nil =>
                          cases h
                          cases heq
                      | cons c' front => simp at h
                | cons c' d =>
                    cases heq
                    exact hunder ⟨d, rfl⟩
          · cases d with
            | nil =>
                obtain ⟨name, hn, hrest⟩ := name_cons heq
                obtain ⟨rfl, -⟩ := List.append_eq_nil_iff.mp hrest.symm
                have hnone := hhome rfl hn
                rw [hh] at hnone
                cases hnone
            | cons c d =>
                have hnil := (List.append_eq_nil_iff.mp (List.cons.inj heq).2).2
                exact n.2.1 (List.append_eq_nil_iff.mp hnil).1
        rw [resolve_homeless hrooted hd', resolve_homeless (habs ▸ hrooted) hs, hparse, child_join]

/-- A token that names what it looks like: its last piece is a name, or there is none, and it is not
the home. -/
structure PlainLocal (disk : LocalDisk) (raw : List Char) : Prop where
  ne_dot : lastPiece raw ≠ ['.']
  ne_dots : lastPiece raw ≠ ['.', '.']
  ne_home : raw = ['~'] → disk.home = none

/-- Of such a token the directory and the beginning of the name are found. -/
theorem localCompletionParts_eq {raw : List Char} (h : PlainLocal disk raw) :
    localCompletionParts raw (resolveLocalInputPath disk root raw)
      = some (resolveLocalInputPath disk root (dirPart raw), lastPiece raw, dirPart raw) := by
  have hraw := dirPart_append raw
  have hslash := slash_notMem_lastPiece raw
  unfold localCompletionParts
  by_cases hpiece : lastPiece raw = []
  · have hdir := dirPart_of_lastPiece hpiece
    obtain hnil | hlast := (slashed_dirPart raw).eq_nil_or_getLast?
    · have hempty : raw = [] := hdir.symm.trans hnil
      rw [if_pos hempty, hdir, hpiece, hempty]
    · rw [hdir] at hlast
      have hne : raw ≠ [] := by
        intro hnil
        rw [hnil] at hlast
        cases hlast
      rw [if_neg hne, if_pos hlast, hdir, hpiece]
  · obtain ⟨n, hn⟩ : ∃ n : Name, n.1 = lastPiece raw := ⟨⟨_, hpiece, h.ne_dot, h.ne_dots, hslash⟩, rfl⟩
    have hne : raw ≠ [] := by
      intro hnil
      rw [hnil] at hpiece
      exact hpiece rfl
    have hlast : raw.getLast? ≠ some '/' := by
      intro hlast
      rw [hraw, List.getLast?_append_of_ne_nil _ hpiece] at hlast
      exact hslash (List.mem_of_getLast? hlast)
    have hhome : dirPart raw = [] → n.1 = ['~'] → disk.home = none := by
      intro hnil htilde
      rw [hnil, ← hn, htilde] at hraw
      exact h.ne_home hraw
    have hresolve : resolveLocalInputPath disk root raw
        = (resolveLocalInputPath disk root (dirPart raw)).child n := by
      have hname := resolve_name root (slashed_dirPart raw) n (.inl rfl) hhome
      rwa [List.append_nil, hn, ← hraw] at hname
    rw [if_neg hne, if_neg hlast, hresolve, Path.fileName_child, Path.parent_child]
    dsimp only [Option.map_some, Option.getD_some]
    rw [hn]
    obtain hnil | ⟨front, hfront⟩ := slashed_dirPart raw
    · have hnone : rfind '/' raw = none := by
        rw [hraw, hnil, List.nil_append]
        exact rfind_of_notMem hslash
      rw [hnone, hnil]
    · have hcut : raw = front ++ '/' :: lastPiece raw := by
        rw [hfront] at hraw
        simpa using hraw
      have hfound : rfind '/' raw = some (byteLen front) := by
        rw [hcut]
        exact rfind_append front (slash_notMem_lastPiece raw)
      have htake : takeBytes (byteLen front + 1) raw = some (front ++ ['/']) := by
        have htake := takeBytes_append (front ++ ['/']) (lastPiece raw)
        rw [byteLen_append, ← hfront, ← hraw] at htake
        rw [← hfront]
        exact htake
      rw [hfound]
      dsimp only
      rw [htake, hfront]
      rfl

end

section

variable {quote : List Char → List Char} {disk : CompletionDisk} {root : Path} {raw : List Char}

/-- The directory that a token names. -/
def namedDir (disk : CompletionDisk) (root : Path) (raw : List Char) : Path :=
  resolveLocalInputPath disk.toLocalDisk root (dirPart raw)

/-- The entries of the directory that a token names, as far as they begin like it. -/
def localMatches (disk : CompletionDisk) (root : Path) (raw : List Char) : List (EntryName × Bool) :=
  ((disk.readDir (namedDir disk root raw)).getD []).filter fun entry =>
    (lastPiece raw).isPrefixOf entry.1.shown.1

/-- The value leads to an entry of the directory that the token names. -/
def LeadsLocal (disk : CompletionDisk) (root : Path) (raw value : List Char) : Prop :=
  ∃ entries n isDir, disk.readDir (namedDir disk root raw) = some entries
    ∧ (EntryName.utf8 n, isDir) ∈ entries
    ∧ resolveLocalInputPath disk.toLocalDisk root value = (namedDir disk root raw).child n

/-- A match that can be written down: its name is UTF-8, nothing that the tokenizer takes for a
whitespace is left outside of the quotes, and it is not mistaken for the home. -/
def LocalWritable (quote : List Char → List Char) (disk : CompletionDisk) (root : Path) (raw : List Char) :
    Prop :=
  ∀ entry ∈ localMatches disk root raw, ∃ n, entry.1 = .utf8 n
    ∧ (readWord isWhitespace .off (quote (shownEntry (dirPart raw) (n.1, entry.2)))).isSome = true
    ∧ (raw = [] → n.1 = ['~'] → ∀ home, disk.home = some home → home = root.child n)

/-- Sorting finds a single match if there is one. -/
theorem eq_singleton_of_mergeSort {α β : Type} {l : List α} {f : α → β} {le : β → β → Bool} {x : β}
    (h : (l.map f).mergeSort le = [x]) : ∃ a, l = [a] ∧ f a = x := by
  have hperm := List.mergeSort_perm (l.map f) le
  rw [h] at hperm
  obtain ⟨a, ha, hx⟩ := List.map_eq_singleton_iff.mp (List.perm_singleton.mp hperm.symm)
  exact ⟨a, ha, hx⟩

/-- A single match is written. -/
theorem completeLocalPath_single (quote : List Char → List Char) (parsed : ParsedLine) {searchDir : Path}
    {start base : List Char} {entries : List (EntryName × Bool)} {entry : EntryName × Bool}
    (hparts : localCompletionParts raw (resolveLocalInputPath disk.toLocalDisk root raw)
      = some (searchDir, start, base))
    (hread : disk.readDir searchDir = some entries)
    (hone : (entries.filter fun entry => start.isPrefixOf entry.1.shown.1) = [entry]) :
    completeLocalPath quote disk root parsed raw = replaceActive parsed
      (if entry.2 then quote (shownEntry base (entry.1.shown.1, entry.2))
        else quote (shownEntry base (entry.1.shown.1, entry.2)) ++ [' ']) := by
  rw [completeLocalPath, hparts]
  dsimp only
  rw [hread]
  dsimp only
  rw [hone, List.map_singleton, List.mergeSort_singleton]

/-- A completion that is applied writes the one match. -/
theorem completeLocalPath_applied (h : PlainLocal disk.toLocalDisk raw)
    (happlied : completeLocalPath quote disk root parsed raw = some (.applied edit)) :
    ∃ entry, localMatches disk root raw = [entry] ∧ replaceActive parsed
      (if entry.2 then quote (shownEntry (dirPart raw) (entry.1.shown.1, entry.2))
        else quote (shownEntry (dirPart raw) (entry.1.shown.1, entry.2)) ++ [' '])
          = some (.applied edit) := by
  rw [completeLocalPath, localCompletionParts_eq h] at happlied
  dsimp only at happlied
  rw [localMatches, namedDir]
  cases hread : disk.readDir (resolveLocalInputPath disk.toLocalDisk root (dirPart raw)) with
  | none =>
      rw [hread] at happlied
      cases happlied
  | some entries =>
      rw [hread] at happlied
      dsimp only at happlied
      split at happlied
      · cases happlied
      · rename_i single hsingle
        obtain ⟨entry, hentry, rfl⟩ := eq_singleton_of_mergeSort hsingle
        exact ⟨entry, hentry, happlied⟩
      · cases happlied

/-- The separators of a shell. -/
def isBlank (c : Char) : Bool := c == ' ' || c == '\t' || c == '\n'

theorem isWhitespace_of_isBlank (c : Char) (h : isBlank c = true) : isWhitespace c = true := by
  have hc : (c = ' ' ∨ c = '\t') ∨ c = '\n' := by simpa [isBlank] using h
  obtain (rfl | rfl) | rfl := hc
  · rfl
  · rfl
  · rfl

/-- What is relied on: a shell reads a quoted text as the one word it stands for. -/
def Quoting (quote : List Char → List Char) : Prop := ∀ s, readWord isBlank .off (quote s) = some (.off, s)

/-- A slash behind a directory. -/
def slashIf (isDir : Bool) : List Char := if isDir then ['/'] else []

theorem slashIf_cases (isDir : Bool) : slashIf isDir = [] ∨ slashIf isDir = ['/'] := by
  cases isDir with
  | true => exact .inr rfl
  | false => exact .inl rfl

theorem shownEntry_eq (d name : List Char) (isDir : Bool) :
    shownEntry d (name, isDir) = d ++ (name ++ slashIf isDir) := by
  cases isDir with
  | true => exact List.append_assoc d name ['/']
  | false => exact congrArg (d ++ ·) (List.append_nil name).symm

/-- The quoted match is a word. -/
theorem Quoting.wordAnd (hquote : Quoting quote) (d : List Char) (n : Name) (isDir : Bool) :
    ∃ gap, WordAnd (if isDir then quote (shownEntry d (n.1, isDir))
      else quote (shownEntry d (n.1, isDir)) ++ [' '])
      (quote (shownEntry d (n.1, isDir))) gap := by
  have hread := hquote (shownEntry d (n.1, isDir))
  have hne : quote (shownEntry d (n.1, isDir)) ≠ [] := by
    intro hnil
    rw [hnil, readWord, shownEntry_eq] at hread
    have hempty : [] = d ++ (n.1 ++ slashIf isDir) := congrArg Prod.snd (Option.some.inj hread)
    exact n.2.1 (List.append_eq_nil_iff.mp (List.append_eq_nil_iff.mp hempty.symm).2).1
  cases isDir with
  | false => exact ⟨_, wordAnd_blank hne⟩
  | true =>
      refine ⟨_, wordAnd_self hne fun hlast => ?_⟩
      rw [if_pos rfl] at hlast
      obtain ⟨front, hfront⟩ := List.getLast?_eq_some_iff.mp hlast
      rw [hfront] at hread
      obtain ⟨rest, hrest⟩ := readWord_last rfl hread
      have hlast' := congrArg List.getLast? hrest
      rw [shownEntry_eq, ← List.append_assoc, slashIf, if_pos rfl, List.getLast?_concat,
        List.getLast?_concat] at hlast'
      cases hlast'

theorem child_injective {p : Path} {n n' : Name} (h : p.child n = p.child n') : n = n' := by
  have hparts := congrArg Path.parts h
  have hlast := List.cons.inj (List.append_cancel_left hparts)
  cases hlast.1
  rfl

theorem namedDir_nil (hdir : dirPart raw = []) : namedDir disk root raw = root := by
  have hnot : ¬ (parse []).isAbsolute = true := Bool.false_ne_true
  rw [namedDir, hdir,
    resolve_homeless hnot (.inr ⟨(fun rest heq => nomatch heq), (fun heq => nomatch heq)⟩), join_nil]

/-- The home with a slash behind it, or without. -/
theorem resolve_tilde {home : Path} (hhome : disk.home = some home) (isDir : Bool) :
    resolveLocalInputPath disk.toLocalDisk root (['~'] ++ slashIf isDir) = home := by
  cases isDir with
  | true =>
      have hunder := resolve_home root hhome []
      rw [join_nil] at hunder
      exact hunder
  | false =>
      have hnot : ¬ (parse ['~']).isAbsolute = true := by decide
      show resolveLocalInputPath disk.toLocalDisk root ['~'] = home
      unfold resolveLocalInputPath
      rw [if_neg hnot, hhome]
      rfl

/-- **A path on this side is extended exactly if its match can be written down.** -/
theorem local_extends_iff (hquote : Quoting quote) (hp : parseLine text cursor = some parsed)
    (ha : activeToken parsed = some t) (h : PlainLocal disk.toLocalDisk t.value)
    (happlied : completeLocalPath quote disk root parsed t.value = some (.applied edit)) :
    Extends text t (LeadsLocal disk root t.value) edit ↔ LocalWritable quote disk root t.value := by
  obtain ⟨⟨name, isDir⟩, hone, hreplace⟩ := completeLocalPath_applied h happlied
  dsimp only at hreplace
  generalize hraw : t.value = raw at h happlied hone hreplace ⊢
  obtain ⟨gap, hw⟩ := hquote.wordAnd (dirPart raw) name.shown isDir
  have hmem : (name, isDir) ∈ localMatches disk root raw := by
    rw [hone]
    exact List.mem_singleton.mpr rfl
  obtain ⟨hentry, hpre⟩ := List.mem_filter.mp hmem
  have hpre' : lastPiece raw <+: name.shown.1 := List.isPrefixOf_iff_prefix.mp hpre
  -- a name that leads where it should
  have hresolve : (dirPart raw = [] → name.shown.1 = ['~'] → disk.home = none) →
      resolveLocalInputPath disk.toLocalDisk root (shownEntry (dirPart raw) (name.shown.1, isDir))
        = (namedDir disk root raw).child name.shown := by
    intro hhome
    rw [shownEntry_eq]
    exact resolve_name root (slashed_dirPart raw) name.shown (slashIf_cases isDir) hhome
  -- the token is empty if its match is mistaken for the home
  have hempty : dirPart raw = [] → name.shown.1 = ['~'] → disk.home ≠ none → raw = [] := by
    intro hdir htilde hhome
    have happend := dirPart_append raw
    rw [hdir, List.nil_append] at happend
    rw [htilde] at hpre'
    obtain hnil | hself := List.prefix_cons_iff.mp hpre'
    · exact happend.trans hnil
    · obtain ⟨rest, hrest, hnil⟩ := hself
      rw [List.prefix_nil.mp hnil] at hrest
      exact absurd (h.ne_home (happend.trans hrest)) hhome
  constructor
  · intro hext
    obtain ⟨q, value, hread, -, entries, n, isDir', hentries, hmem', hleads⟩ :=
      extends_inv hp ha hw hreplace hext
    have hvalue : value = shownEntry (dirPart raw) (name.shown.1, isDir) := by
      have hblank := readWord_mono isWhitespace_of_isBlank hread
      rw [hquote] at hblank
      cases hblank
      rfl
    subst hvalue
    -- the entry it leads to is the match
    have hsame :
        name = .utf8 n ∧ (raw = [] → n.1 = ['~'] → ∀ home, disk.home = some home → home = root.child n) := by
      have hfound (hbegins : lastPiece raw <+: n.1) : name = .utf8 n := by
        have hmatch : (EntryName.utf8 n, isDir') ∈ localMatches disk root raw := by
          rw [localMatches, hentries]
          exact List.mem_filter.mpr ⟨hmem', List.isPrefixOf_iff_prefix.mpr hbegins⟩
        rw [hone] at hmatch
        exact (congrArg Prod.fst (List.mem_singleton.mp hmatch)).symm
      by_cases hmistaken : dirPart raw = [] ∧ name.shown.1 = ['~'] ∧ disk.home ≠ none
      · obtain ⟨hdir, htilde, hhome⟩ := hmistaken
        obtain rfl := hempty hdir htilde hhome
        have hname := hfound (List.nil_prefix)
        subst hname
        refine ⟨rfl, fun _ _ home hsome => ?_⟩
        have htilde' : n.1 = ['~'] := htilde
        rw [shownEntry_eq, hdir, List.nil_append] at hleads
        rw [show (EntryName.utf8 n).shown.1 = ['~'] from htilde', resolve_tilde hsome,
          namedDir_nil hdir] at hleads
        exact hleads
      · have hhome : dirPart raw = [] → name.shown.1 = ['~'] → disk.home = none := by
          intro hdir htilde
          by_contra hne
          exact hmistaken ⟨hdir, htilde, hne⟩
        rw [hresolve hhome] at hleads
        have hn := child_injective hleads
        have hname := hfound (hn ▸ hpre')
        refine ⟨hname, fun hnil htilde home hsome => ?_⟩
        have hnone := hhome (by rw [hnil]; rfl) (by rw [hn]; exact htilde)
        rw [hnone] at hsome
        cases hsome
    obtain ⟨rfl, hhome⟩ := hsame
    intro entry hmatch
    rw [hone] at hmatch
    rw [List.mem_singleton.mp hmatch]
    refine ⟨n, rfl, ?_, hhome⟩
    rw [show (EntryName.utf8 n).shown = n from rfl] at hread
    rw [hread]
    rfl
  · intro hcond
    obtain ⟨n, hname, hwhole, hhome⟩ := hcond _ hmem
    dsimp only at hname hwhole
    subst hname
    obtain ⟨⟨q, value⟩, hread⟩ := Option.isSome_iff_exists.mp hwhole
    have hblank := readWord_mono isWhitespace_of_isBlank hread
    rw [hquote] at hblank
    cases hblank
    refine extends_of hp ha hw hreplace hread ?_ ?_
    · rw [hraw, shownEntry_eq]
      conv_lhs => rw [dirPart_append raw]
      exact (List.prefix_append_right_inj _).mpr (hpre'.trans (List.prefix_append _ _))
    · have hentries : ∃ entries, disk.readDir (namedDir disk root raw) = some entries
          ∧ (EntryName.utf8 n, isDir) ∈ entries := by
        cases hread' : disk.readDir (namedDir disk root raw) with
        | none =>
            rw [hread'] at hentry
            cases hentry
        | some entries =>
            rw [hread'] at hentry
            exact ⟨entries, rfl, hentry⟩
      obtain ⟨entries, hdir, hin⟩ := hentries
      refine ⟨entries, n, isDir, hdir, hin, ?_⟩
      by_cases hmistaken : dirPart raw = [] ∧ n.1 = ['~'] ∧ disk.home ≠ none
      · obtain ⟨hnil, htilde, hsome⟩ := hmistaken
        obtain ⟨home, hsome'⟩ := Option.ne_none_iff_exists'.mp hsome
        rw [shownEntry_eq, hnil, List.nil_append, htilde, resolve_tilde hsome', namedDir_nil hnil]
        exact hhome (hempty hnil htilde hsome) htilde home hsome'
      · refine hresolve fun hnil htilde => ?_
        by_contra hne
        exact hmistaken ⟨hnil, htilde, hne⟩

end

end CompleteLine

end Irosh
