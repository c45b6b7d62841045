import Mathlib.Data.List.Infix
import Mathlib.Data.Char

/-!
# File name patterns

`fnmatch` with no flags set: `*` is any text, also one with a dot in front, `?` any
character, a backslash takes the meaning from the character behind it, inside brackets
as well, and a bracket is one of the characters it lists. A range goes by the order of
the locale and includes both its ends.

`readBody` reads the inside of a bracket. Classes of characters and brackets that list
what is not to be matched are not read.
-/

namespace Fnmatch

/-- What a bracket lists. -/
inductive Item where
  | one (c : Char)
  | range (first last : Char)
  deriving DecidableEq, Repr

/-- The inside of a bracket, from some point on, and the pattern behind it. -/
inductive Body where
  | closed (items : List Item) (rest : List Char)
  /-- The pattern ends before the bracket does. -/
  | unclosed
  | other
  deriving DecidableEq, Repr

def Body.add (item : Item) : Body → Body
  | closed items rest => closed (item :: items) rest
  | unclosed => unclosed
  | other => other

/-- A character, escaped or not. -/
def readChar : List Char → Option (Char × List Char)
  | [] => none
  | '\\' :: [] => none
  | '\\' :: c :: rest => some (c, rest)
  | c :: rest => some (c, rest)

/-- Reads the inside of a bracket. A `]` in the `first` place does not end it. No item is without a
character, so the length of the text is fuel enough. -/
def readBody : Nat → Bool → List Char → Body
  | _, _, [] => .unclosed
  | 0, _, _ :: _ => .unclosed
  | fuel + 1, first, c :: s =>
      if c = ']' ∧ first = false then .closed [] s
      else if c = '[' ∧ (s.head? = some ':' ∨ s.head? = some '=' ∨ s.head? = some '.') then .other
      else if (c = '!' ∨ c = '^') ∧ first = true then .other
      else
        match readChar (c :: s) with
        | none => .other
        | some (a, '-' :: e :: rest) =>
            if e = ']' then (readBody fuel false ('-' :: e :: rest)).add (.one a)
            else if e = '[' ∧ rest.head? = some '.' then .other
            else
              match readChar (e :: rest) with
              | none => .other
              | some (b, rest) => (readBody fuel false rest).add (.range a b)
        | some (a, rest) => (readBody fuel false rest).add (.one a)

/-- What comes after the character `a`: it may begin a range. -/
def goOn (fuel : Nat) (a : Char) : List Char → Body
  | '-' :: e :: rest =>
      if e = ']' then (readBody fuel false ('-' :: e :: rest)).add (.one a)
      else if e = '[' ∧ rest.head? = some '.' then .other
      else
        match readChar (e :: rest) with
        | none => .other
        | some (b, rest) => (readBody fuel false rest).add (.range a b)
  | rest => (readBody fuel false rest).add (.one a)

theorem goOn_one {fuel : Nat} {a : Char} {rest : List Char} (h : ∀ e s, rest ≠ '-' :: e :: s) :
    goOn fuel a rest = (readBody fuel false rest).add (.one a) := by
  unfold goOn
  split
  · rename_i e s
    exact absurd rfl (h e s)
  · rfl

theorem readBody_step {fuel : Nat} {first : Bool} {c a : Char} {s rest : List Char}
    (hc : ¬ (c = ']' ∧ first = false))
    (hbracket : ¬ (c = '[' ∧ (s.head? = some ':' ∨ s.head? = some '=' ∨ s.head? = some '.')))
    (hnot : ¬ ((c = '!' ∨ c = '^') ∧ first = true)) (hread : readChar (c :: s) = some (a, rest)) :
    readBody (fuel + 1) first (c :: s) = goOn fuel a rest := by
  rw [readBody, if_neg hc, if_neg hbracket, if_neg hnot, hread]
  split
  · rename_i h
    cases h
  · rename_i h
    cases h
    rfl
  · rename_i hne h
    cases h
    exact (goOn_one hne).symm

theorem readBody_item {fuel : Nat} {c a : Char} {s rest : List Char} (hc : c ≠ ']')
    (hbracket : ¬ (c = '[' ∧ (s.head? = some ':' ∨ s.head? = some '=' ∨ s.head? = some '.')))
    (hread : readChar (c :: s) = some (a, rest)) :
    readBody (fuel + 1) false (c :: s) = goOn fuel a rest :=
  readBody_step (fun h => hc h.1) hbracket (fun h => Bool.false_ne_true h.2) hread

theorem goOn_range {fuel : Nat} {a b e : Char} {s rest : List Char} (he : e ≠ ']')
    (hsymbol : ¬ (e = '[' ∧ s.head? = some '.')) (hread : readChar (e :: s) = some (b, rest)) :
    goOn fuel a ('-' :: e :: s) = (readBody fuel false rest).add (.range a b) := by
  rw [goOn, if_neg he, if_neg hsymbol, hread]

theorem readChar_plain {c : Char} (h : c ≠ '\\') (s : List Char) : readChar (c :: s) = some (c, s) := by
  unfold readChar
  split <;> simp_all

/-- A character with no meaning of its own in a pattern. -/
def IsLiteral (c : Char) : Prop := c ≠ '*' ∧ c ≠ '?' ∧ c ≠ '[' ∧ c ≠ '\\'

def Item.has (within : Char → Char → Char → Bool) (x : Char) : Item → Bool
  | one c => c = x
  | range a b => within a b x

/-- `fnmatch` in some locale. -/
structure Matcher where
  fits : List Char → List Char → Bool
  /-- Whether a character is in a range. -/
  within : Char → Char → Char → Bool
  /-- A range that is not empty has its first character. -/
  within_first : ∀ a b x, within a b x = true → within a b a = true
  fits_nil : ∀ n, fits [] n = true ↔ n = []
  fits_star : ∀ p n, fits ('*' :: p) n = true ↔ ∃ a b, n = a ++ b ∧ fits p b = true
  fits_literal : ∀ c p n, IsLiteral c → (fits (c :: p) n = true ↔ ∃ n', n = c :: n' ∧ fits p n' = true)
  fits_closed : ∀ p items rest n, readBody p.length true p = .closed items rest →
    (fits ('[' :: p) n = true
      ↔ ∃ c n', n = c :: n' ∧ (∃ item ∈ items, item.has within c = true) ∧ fits rest n' = true)
  /-- A bracket that is not closed is a character. -/
  fits_unclosed : ∀ p n, readBody p.length true p = .unclosed → fits ('[' :: p) n = true →
    ∃ n', n = '[' :: n'

namespace Matcher

variable (m : Matcher)

theorem fits_anything (n : List Char) : m.fits ['*'] n = true :=
  (m.fits_star [] n).mpr ⟨n, [], (List.append_nil n).symm, (m.fits_nil []).mpr rfl⟩

/-- A bracket around a single character. -/
theorem fits_bracketed {c : Char} (hc : c = '*' ∨ c = '?' ∨ c = '[' ∨ c = ']') (p n : List Char) :
    m.fits ('[' :: c :: ']' :: p) n = true ↔ ∃ n', n = c :: n' ∧ m.fits p n' = true := by
  have hbody : readBody (c :: ']' :: p).length true (c :: ']' :: p) = .closed [.one c] p := by
    rcases hc with rfl | rfl | rfl | rfl <;> rfl
  rw [m.fits_closed _ _ _ n hbody]
  constructor
  · intro h
    obtain ⟨d, n', hn, ⟨item, hitem, hhas⟩, hfits⟩ := h
    rw [List.mem_singleton.mp hitem] at hhas
    exact ⟨n', by rw [hn, of_decide_eq_true hhas], hfits⟩
  · intro h
    obtain ⟨n', hn, hfits⟩ := h
    exact ⟨c, n', hn, ⟨.one c, List.mem_singleton_self _, decide_eq_true rfl⟩, hfits⟩

end Matcher

/-! ## A matcher -/

theorem Body.add_eq_closed {item : Item} {b : Body} {items : List Item} {rest : List Char}
    (h : b.add item = .closed items rest) :
    ∃ items', b = .closed items' rest ∧ items = item :: items' := by
  cases b with
  | closed items' rest' =>
      cases h
      exact ⟨items', rfl, rfl⟩
  | unclosed => cases h
  | other => cases h

theorem readChar_length {s rest : List Char} {c : Char} (h : readChar s = some (c, rest)) :
    rest.length < s.length := by
  unfold readChar at h
  split at h
  · cases h
  · cases h
  · cases h
    simp only [List.length_cons]
    omega
  · cases h
    exact Nat.lt_succ_self _

/-- What is behind a bracket is shorter than what it begins. -/
theorem readBody_length {fuel : Nat} {first : Bool} {s rest : List Char} {items : List Item}
    (h : readBody fuel first s = .closed items rest) : rest.length < s.length := by
  induction fuel generalizing first s items with
  | zero =>
      cases s with
      | nil => cases h
      | cons c s => cases h
  | succ fuel ih =>
      cases s with
      | nil => cases h
      | cons c s =>
          rw [readBody] at h
          split_ifs at h with hclose
          · cases h
            exact Nat.lt_succ_self _
          · split at h
            · cases h
            · rename_i a e tail hread
              have hlen := readChar_length hread
              split_ifs at h
              · obtain ⟨_, hbody, -⟩ := Body.add_eq_closed h
                exact Nat.lt_trans (ih hbody) hlen
              · split at h
                · cases h
                · rename_i b tail' hlast
                  have hlen' := readChar_length hlast
                  obtain ⟨_, hbody, -⟩ := Body.add_eq_closed h
                  have hrest := ih hbody
                  simp only [List.length_cons] at hlen hlen' ⊢
                  omega
            · rename_i a tail _ hread
              obtain ⟨_, hbody, -⟩ := Body.add_eq_closed h
              exact Nat.lt_trans (ih hbody) (readChar_length hread)

/-- `fnmatch`, of a locale whose ranges are given. -/
def fnmatch (within : Char → Char → Char → Bool) : List Char → List Char → Bool
  | [], n => n = []
  | '*' :: p, n => n.tails.any fun b => fnmatch within p b
  | '?' :: p, n =>
      match n with
      | [] => false
      | _ :: n => fnmatch within p n
  | '\\' :: [], _ => false
  | '\\' :: c :: p, n =>
      match n with
      | [] => false
      | d :: n => c = d && fnmatch within p n
  | '[' :: p, n =>
      match n with
      | [] => false
      | d :: n =>
          match h : readBody p.length true p with
          | .closed items rest =>
              have := readBody_length h
              items.any (·.has within d) && fnmatch within rest n
          | .unclosed => d = '[' && fnmatch within p n
          | .other => false
  | c :: p, n =>
      match n with
      | [] => false
      | d :: n => c = d && fnmatch within p n
termination_by p => p.length

theorem fnmatch_bracket (within : Char → Char → Char → Bool) (p n : List Char) (d : Char) :
    fnmatch within ('[' :: p) (d :: n)
      = match readBody p.length true p with
        | .closed items rest => items.any (·.has within d) && fnmatch within rest n
        | .unclosed => d = '[' && fnmatch within p n
        | .other => false := by
  rw [fnmatch]
  split <;> rename_i h <;> simp only [h]

/-- The locale in which characters are ordered by their codes. -/
def codeOrder : Matcher where
  within a b x := a ≤ x && x ≤ b
  fits := fnmatch fun a b x => a ≤ x && x ≤ b
  within_first := by
    intro a b x h
    simp only [Bool.and_eq_true, decide_eq_true_eq] at h ⊢
    exact ⟨Char.le_refl a, Char.le_trans h.1 h.2⟩
  fits_nil := by
    intro n
    rw [fnmatch, decide_eq_true_eq]
  fits_star := by
    intro p n
    rw [fnmatch, List.any_eq_true]
    constructor
    · intro h
      obtain ⟨b, hb, hfits⟩ := h
      obtain ⟨a, hab⟩ := (List.mem_tails b n).mp hb
      exact ⟨a, b, hab.symm, hfits⟩
    · intro h
      obtain ⟨a, b, hab, hfits⟩ := h
      exact ⟨b, (List.mem_tails b n).mpr ⟨a, hab.symm⟩, hfits⟩
  fits_literal := by
    intro c p n hc
    cases n with
    | nil => simp [fnmatch, hc.1, hc.2.1, hc.2.2.1, hc.2.2.2]
    | cons d n =>
        rw [fnmatch]
        · simp only [Bool.and_eq_true, decide_eq_true_eq, List.cons.injEq]
          constructor
          · intro h
            exact ⟨n, ⟨h.1.symm, rfl⟩, h.2⟩
          · intro h
            obtain ⟨n', ⟨hd, hn⟩, hfits⟩ := h
            rw [hd, hn]
            exact ⟨rfl, hfits⟩
        · exact hc.1
        · exact hc.2.1
        · exact fun h _ => hc.2.2.2 h
        · exact fun _ _ h _ => hc.2.2.2 h
        · exact hc.2.2.1
  fits_closed := by
    intro p items rest n hbody
    cases n with
    | nil => simp [fnmatch]
    | cons d n =>
        rw [fnmatch_bracket, hbody]
        simp only [Bool.and_eq_true, List.any_eq_true, List.cons.injEq]
        constructor
        · intro h
          exact ⟨d, n, ⟨rfl, rfl⟩, h.1, h.2⟩
        · intro h
          obtain ⟨c, n', ⟨hc, hn⟩, hitem, hfits⟩ := h
          rw [hc, hn]
          exact ⟨hitem, hfits⟩
  fits_unclosed := by
    intro p n hbody h
    cases n with
    | nil => simp [fnmatch] at h
    | cons d n =>
        rw [fnmatch_bracket, hbody] at h
        simp only [Bool.and_eq_true, decide_eq_true_eq] at h
        exact ⟨n, by rw [h.1]⟩

end Fnmatch
