import Irosh.Lib.UnixPath

/-!
# Paths from the other side

Entry names come from the peer. The server checks them with
`sanitize_relative_path`, which looks at the text and hands it on unchanged; the
client checks them with `sanitize_remote_path`, which rebuilds the path from its
components. Request paths are resolved against the home directory or the shell's
working directory, and may be absolute.
-/

namespace Irosh

open UnixPath

/-- Why a path is turned down. -/
inductive PathError where
  | pathInvalid (message : String)
  | shellError (details : String)
  deriving DecidableEq, Repr

def PathError.text : PathError → String
  | .pathInvalid message => message
  | .shellError details => details

/-! ## `sanitize_relative_path` -/

/-- Whether some piece between separators is `..`. -/
def hasParentPiece (isSep : Char → Bool) (raw : List Char) : Bool :=
  (raw.splitOnP isSep).any (· == ['.', '.'])

/-- A drive letter and a colon. -/
def startsWithDrive : List Char → Bool
  | c :: ':' :: _ => c.isAlpha
  | _ => false

/-- `sanitize_relative_path`. -/
def sanitizeRelativePath (raw : List Char) : Except String (List Char) :=
  if raw.isEmpty then .error "entry path is empty"
  else if (parse raw).isAbsolute then .error "absolute entry paths are not allowed"
  -- defence in depth for mixed platforms: on Unix only the backslash forms are left
  else if raw.head? = some '/' ∨ raw.head? = some '\\' then
    .error "absolute entry paths are not allowed"
  else if startsWithDrive raw then .error "drive-letter entry paths are not allowed"
  else if raw.take 2 = ['\\', '\\'] ∧ 3 ≤ raw.length then .error "UNC entry paths are not allowed"
  else if hasParentPiece (fun c => c == '/' || c == '\\') raw then
    .error "path traversal detected in entry path"
  else .ok raw

/-- A piece that has no further separator in it is a piece of the finer split as well. -/
theorem mem_splitOnP_finer {α : Type} {f g : α → Bool} {x : List α} (hx : ∀ a ∈ x, g a = false) :
    ∀ l : List α, (∀ h t, l.splitOnP f = h :: t → h = x →
        ∃ t', l.splitOnP (fun a => f a || g a) = x :: t')
      ∧ (∀ h t, l.splitOnP f = h :: t → x ∈ t →
        x ∈ (l.splitOnP (fun a => f a || g a)).tail) := by
  intro l
  induction l generalizing x with
  | nil =>
      refine ⟨?_, ?_⟩
      · intro h t he hh
        rw [List.splitOnP_nil] at he ⊢
        cases he
        exact ⟨[], by rw [hh]⟩
      · intro h t he hm
        rw [List.splitOnP_nil] at he
        cases he
        cases hm
  | cons a l ih =>
      obtain ⟨h₁, t₁, hs⟩ := List.exists_cons_of_ne_nil (List.splitOnP_ne_nil f l)
      obtain ⟨h₂, t₂, hs'⟩ :=
        List.exists_cons_of_ne_nil (List.splitOnP_ne_nil (fun a => f a || g a) l)
      rw [List.splitOnP_cons_eq_if_modifyHead, List.splitOnP_cons_eq_if_modifyHead, hs, hs']
      cases hfa : f a with
      | true =>
          simp only [Bool.true_or, if_true, List.cons.injEq, List.tail_cons]
          refine ⟨?_, ?_⟩
          · rintro h t ⟨rfl, rfl⟩ hh
            exact ⟨h₂ :: t₂, hh, rfl⟩
          · rintro h t ⟨rfl, rfl⟩ hm
            rcases List.mem_cons.mp hm with hm | hm
            · obtain ⟨t', ht'⟩ := (ih hx).1 h₁ t₁ hs hm.symm
              rw [hs'] at ht'
              cases ht'
              exact List.mem_cons_self
            · have := (ih hx).2 h₁ t₁ hs hm
              rw [hs'] at this
              exact List.mem_cons_of_mem _ this
      | false =>
          simp only [Bool.false_or, Bool.false_eq_true, if_false, List.modifyHead_cons,
            List.cons.injEq]
          refine ⟨?_, ?_⟩
          · rintro h t ⟨rfl, rfl⟩ hh
            have hga : g a = false := hx a (by rw [← hh]; exact List.mem_cons_self)
            have hh₁ : ∀ b ∈ h₁, g b = false := by
              intro b hb
              exact hx b (by rw [← hh]; exact List.mem_cons_of_mem _ hb)
            obtain ⟨t', ht'⟩ := (ih hh₁).1 h₁ t₁ hs rfl
            rw [hs'] at ht'
            cases ht'
            exact ⟨t₂, by simp [hga, hh]⟩
          · rintro h t ⟨rfl, rfl⟩ hm
            have := (ih hx).2 h₁ t₁ hs hm
            rw [hs'] at this
            cases g a with
            | true => exact List.mem_cons_of_mem _ this
            | false => exact this

/-- A path with a `..` in it has such a piece in its text. -/
theorem parent_mem_parse {s : List Char} (h : Part.parent ∈ (parse s).parts) :
    ['.', '.'] ∈ s.splitOn '/' := by
  have hpiece : ∀ pieces : List (List Char), Part.parent ∈ pieces.filterMap readPart →
      ['.', '.'] ∈ pieces := by
    intro pieces hm
    obtain ⟨piece, hp, hr⟩ := List.mem_filterMap.mp hm
    unfold readPart at hr
    split at hr
    · rename_i he
      rw [← he]
      exact hp
    · split at hr <;> cases hr
  unfold parse at h
  split at h
  · rename_i rest
    have hsplit : ('/' :: rest).splitOn '/' = [] :: rest.splitOn '/' := by
      simp [List.splitOn_cons_eq_if_modifyHead]
    rw [hsplit]
    exact List.mem_cons_of_mem _ (hpiece _ h)
  · split at h
    · rename_i rest hs
      rw [hs]
      exact List.mem_cons_of_mem _ (hpiece _ h)
    · exact hpiece _ h

/-- **What the server's check lets through**: the text itself, relative and without `..`. -/
theorem sanitizeRelativePath_ok {raw p : List Char} (h : sanitizeRelativePath raw = .ok p) :
    p = raw ∧ (parse raw).head ≠ .rootDir ∧ Part.parent ∉ (parse raw).parts := by
  unfold sanitizeRelativePath at h
  split at h
  · cases h
  split at h
  · cases h
  rename_i habs
  split at h
  · cases h
  split at h
  · cases h
  split at h
  · cases h
  split at h
  · cases h
  rename_i hpar
  cases h
  refine ⟨rfl, ?_, ?_⟩
  · intro hh
    exact habs (by simp [Path.isAbsolute, hh])
  · intro hm
    have hslash := parent_mem_parse hm
    rw [List.splitOn_eq_splitOnP] at hslash
    obtain ⟨h₁, t₁, hs⟩ := List.exists_cons_of_ne_nil (List.splitOnP_ne_nil (· == '/') raw)
    have hdots : ∀ a ∈ ['.', '.'], (a == '\\') = false := by simp
    have hfine : ['.', '.'] ∈ raw.splitOnP (fun c => c == '/' || c == '\\') := by
      rw [hs] at hslash
      rcases List.mem_cons.mp hslash with hm | hm
      · obtain ⟨t', ht'⟩ := (mem_splitOnP_finer hdots raw).1 h₁ t₁ hs hm.symm
        rw [ht']
        exact List.mem_cons_self
      · exact List.mem_of_mem_tail ((mem_splitOnP_finer hdots raw).2 h₁ t₁ hs hm)
    exact hpar (List.any_eq_true.mpr ⟨_, hfine, rfl⟩)

/-! ## `sanitize_remote_path` -/

/-- The loop over the components: names are pushed, `..` pops, and fails when there is nothing to
pop. -/
def pushParts : List Name → List Part → Option (List Name)
  | acc, [] => some acc
  | acc, .normal n :: ps => pushParts (acc ++ [n]) ps
  | acc, .parent :: ps => if acc = [] then none else pushParts acc.dropLast ps

/-- `sanitize_remote_path`. -/
def sanitizeRemotePath (raw : List Char) : Except PathError Path :=
  if '\x00' ∈ raw then .error (.pathInvalid "path contains null byte")
  else if (parse raw).isAbsolute then
    .error (.pathInvalid ("absolute path not allowed: " ++ String.ofList raw))
  else
    -- a relative path has no root or prefix component
    match pushParts [] (parse raw).parts with
    | none => .error (.pathInvalid ("path traversal attempt detected: " ++ String.ofList raw))
    | some [] => .error (.pathInvalid "sanitized path is empty")
    | some names => .ok ⟨.plain, names.map .normal⟩

/-- **What the client's check lets through**: at least one name, and nothing but names. -/
theorem sanitizeRemotePath_ok {raw : List Char} {p : Path} (h : sanitizeRemotePath raw = .ok p) :
    ∃ names : List Name, names ≠ [] ∧ p = ⟨.plain, names.map .normal⟩ := by
  unfold sanitizeRemotePath at h
  split at h
  · cases h
  split at h
  · cases h
  split at h
  · cases h
  · cases h
  · rename_i names hne _
    cases h
    exact ⟨names, fun hnil => hne hnil, rfl⟩

/-! ## Request paths -/

/-- An absolute path. -/
abbrev AbsPath := { p : Path // p.head = .rootDir }

/-- `ShellContext`, with what it can find out about its directories. -/
inductive ShellContext where
  /-- A live shell: its process, and its working directory if that can be read. -/
  | live (pid : Nat) (cwd home : Option AbsPath)
  | stateless (home : Option AbsPath)

/-- `home_dir`. -/
def ShellContext.homeDir : ShellContext → Option AbsPath
  | .live _ _ home => home
  | .stateless home => home

/-- `ShellContext::cwd`. -/
def ShellContext.cwd : ShellContext → Except PathError AbsPath
  | .live _ (some cwd) _ => .ok cwd
  | .live pid none _ =>
      .error (.shellError ("could not determine the live shell's working directory (PID "
        ++ toString pid ++ "); use an absolute remote path"))
  | .stateless (some home) => .ok home
  | .stateless none => .error (.shellError "could not determine server home directory")

/-- Unicode's `White_Space`. -/
def isWhitespace (c : Char) : Bool :=
  (9 ≤ c.val.toNat && c.val.toNat ≤ 13) || c.val.toNat == 0x20 || c.val.toNat == 0x85
    || c.val.toNat == 0xa0 || c.val.toNat == 0x1680
    || (0x2000 ≤ c.val.toNat && c.val.toNat ≤ 0x200a)
    || c.val.toNat == 0x2028 || c.val.toNat == 0x2029 || c.val.toNat == 0x202f
    || c.val.toNat == 0x205f || c.val.toNat == 0x3000

/-- `str::trim`. -/
def trim (s : List Char) : List Char :=
  (((s.dropWhile isWhitespace).reverse).dropWhile isWhitespace).reverse

/-- `raw.strip_prefix("~/").or_else(|| raw.strip_prefix("~\\"))`. -/
def homeRelative : List Char → Option (List Char)
  | '~' :: '/' :: rest => some rest
  | '~' :: '\\' :: rest => some rest
  | _ => none

/-- `ShellContext::resolve_path`. -/
def ShellContext.resolvePath (context : ShellContext) (raw : List Char) : Except PathError Path :=
  if raw.all isWhitespace then .error (.pathInvalid "transfer path is empty")
  else if (parse raw).isAbsolute then .ok (parse raw)
  else if raw = ['~'] then
    match context.homeDir with
    | some home => .ok home.1
    | none => .error (.shellError "could not determine server home directory for ~ expansion")
  else
    match homeRelative raw with
    | some rest =>
        if hasParentPiece (· == '/') rest then
          .error (.pathInvalid "path traversal detected in home-relative path")
        else
          match context.homeDir with
          | some home => .ok (home.1.join (parse rest))
          | none =>
              .error (.shellError "could not determine server home directory for ~/ expansion")
    | none =>
        if hasParentPiece (· == '/') raw || hasParentPiece (· == '\\') raw then
          .error (.pathInvalid "path traversal detected in relative path")
        else
          match context.cwd with
          | .ok base => .ok (base.1.join (parse raw))
          | .error e => .error e

theorem join_head_of_absolute {a b : Path} (ha : a.head = .rootDir) :
    (a.join b).head = .rootDir := by
  unfold Path.join
  split
  · assumption
  · split
    · rename_i hnil
      rw [hnil] at ha
      cases ha
    · exact ha

/-- **A resolved path is absolute.** -/
theorem resolvePath_absolute {context : ShellContext} {raw : List Char} {p : Path}
    (h : context.resolvePath raw = .ok p) : p.head = .rootDir := by
  unfold ShellContext.resolvePath at h
  split at h
  · cases h
  split at h
  · rename_i habs
    cases h
    simpa [Path.isAbsolute] using habs
  split at h
  · split at h
    · rename_i home _
      cases h
      exact home.2
    · cases h
  split at h
  · split at h
    · cases h
    · split at h
      · rename_i home _
        cases h
        exact join_head_of_absolute home.2
      · cases h
  · split at h
    · cases h
    · split at h
      · rename_i base _
        cases h
        exact join_head_of_absolute base.2
      · cases h

/-- Resolving an absolute path that has been written out gives it back. -/
theorem resolvePath_display (context : ShellContext) {p : Path} (h : p.head = .rootDir) :
    context.resolvePath p.display = .ok p := by
  have hslash : ∃ rest, p.display = '/' :: rest := by
    unfold Path.display
    rw [h]
    exact ⟨_, rfl⟩
  have hblank : p.display.all isWhitespace = false := by
    obtain ⟨rest, hr⟩ := hslash
    rw [hr]
    rfl
  have habs : p.isAbsolute = true := by simp [Path.isAbsolute, h]
  unfold ShellContext.resolvePath
  rw [parse_display h, hblank, habs]
  rfl

end Irosh
