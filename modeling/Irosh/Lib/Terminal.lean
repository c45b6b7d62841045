import Mathlib.Data.List.TakeDrop

/-!
# A terminal of one line

As much of a terminal as a line editor needs: a row that is as long as it has to be, a
column, and the few control sequences that move the column or erase to the end of the row.
A line feed begins a new row.

Bytes are cells. Whatever is not a control character is printable.
-/

namespace Terminal

/-- A byte that is shown. -/
def isPrintable (b : UInt8) : Bool := 0x20 ≤ b && b != 0x7f

/-- Where in a control sequence the terminal is. -/
inductive Sequence where
  | ground
  | escape
  /-- With the number read so far. -/
  | csi (n : Nat)
  deriving DecidableEq, Repr

structure Screen where
  row : List UInt8
  col : Nat
  state : Sequence
  deriving DecidableEq, Repr

namespace Screen

/-- A byte at the column, with blanks before it if the row is too short. -/
def put (s : Screen) (b : UInt8) : Screen where
  row := if s.col < s.row.length then s.row.set s.col b
    else s.row ++ List.replicate (s.col - s.row.length) 0x20 ++ [b]
  col := s.col + 1
  state := s.state

/-- The end of a control sequence. -/
def finish (s : Screen) (n : Nat) (final : UInt8) : Screen :=
  if final = 0x4b then { s with row := s.row.take s.col, state := .ground }
  else if final = 0x44 then { s with col := s.col - max n 1, state := .ground }
  else if final = 0x43 then { s with col := s.col + max n 1, state := .ground }
  else { s with state := .ground }

/-- What one byte does. -/
def feed (s : Screen) (b : UInt8) : Screen :=
  match s.state with
  | .ground =>
      if b = 0x1b then { s with state := .escape }
      else if b = 0x0d then { s with col := 0 }
      else if b = 0x0a then { s with row := [] }
      else if b = 0x08 then { s with col := s.col - 1 }
      else if isPrintable b then s.put b
      else s
  | .escape => { s with state := if b = 0x5b then .csi 0 else .ground }
  | .csi n =>
      if 0x30 ≤ b ∧ b ≤ 0x39 then { s with state := .csi (n * 10 + (b.toNat - 0x30)) }
      else s.finish n b

/-- What some bytes do. -/
def run (s : Screen) (bytes : List UInt8) : Screen := bytes.foldl feed s

variable {s : Screen}

@[simp] theorem run_nil (s : Screen) : s.run [] = s := rfl

@[simp] theorem run_cons (s : Screen) (b : UInt8) (bytes : List UInt8) :
    s.run (b :: bytes) = (s.feed b).run bytes := rfl

theorem run_append (s : Screen) (a b : List UInt8) : s.run (a ++ b) = (s.run a).run b :=
  List.foldl_append

/-! ## Printable text -/

theorem feed_printable {b : UInt8} (hs : s.state = .ground) (hb : isPrintable b = true) :
    s.feed b = s.put b := by
  have hlow : 0x20 ≤ b := by
    simp only [isPrintable, Bool.and_eq_true, decide_eq_true_eq] at hb
    exact hb.1
  have hne : ∀ c : UInt8, c < 0x20 → b ≠ c := by
    intro c hc heq
    rw [heq, UInt8.le_iff_toNat_le] at hlow
    rw [UInt8.lt_iff_toNat_lt] at hc
    omega
  rw [feed, hs]
  dsimp only
  rw [if_neg (hne _ (by decide)), if_neg (hne _ (by decide)), if_neg (hne _ (by decide)),
    if_neg (hne _ (by decide)), if_pos hb]

/-- Inside the row a byte replaces the one that is there. -/
theorem put_row (h : s.col ≤ s.row.length) (b : UInt8) :
    (s.put b).row = s.row.take s.col ++ b :: s.row.drop (s.col + 1) := by
  unfold put
  dsimp only
  by_cases hlt : s.col < s.row.length
  · rw [if_pos hlt, List.set_eq_take_append_cons_drop, if_pos hlt]
  · have heq : s.col = s.row.length := by omega
    rw [if_neg hlt, heq, Nat.sub_self, List.take_length, List.drop_eq_nil_of_le (by omega),
      List.replicate_zero, List.append_nil]

/-- **Printing text.** It replaces as many bytes as it has. -/
theorem run_printable {text : List UInt8} (hs : s.state = .ground) (h : s.col ≤ s.row.length)
    (ht : ∀ b ∈ text, isPrintable b = true) :
    s.run text = ⟨s.row.take s.col ++ text ++ s.row.drop (s.col + text.length), s.col + text.length,
      .ground⟩ := by
  induction text generalizing s with
  | nil =>
      obtain ⟨row, col, state⟩ := s
      cases hs
      simp
  | cons b text ih =>
      rw [run_cons, feed_printable hs (ht b List.mem_cons_self)]
      have hrow := put_row h b
      have hlen : (s.row.take s.col).length = s.col := List.length_take_of_le h
      have hcol : (s.put b).col ≤ (s.put b).row.length := by
        rw [hrow, List.length_append, List.length_cons, hlen]
        show s.col + 1 ≤ _
        omega
      have hstate : (s.put b).state = .ground := hs
      rw [ih hstate hcol fun c hc => ht c (List.mem_cons_of_mem b hc), hrow]
      have htake : (s.row.take s.col ++ b :: s.row.drop (s.col + 1)).take (s.col + 1)
          = s.row.take s.col ++ [b] := by
        rw [List.take_append, hlen, Nat.add_sub_cancel_left, List.take_of_length_le (by omega)]
        rfl
      have hdrop : (s.row.take s.col ++ b :: s.row.drop (s.col + 1)).drop (s.col + 1 + text.length)
          = s.row.drop (s.col + (b :: text).length) := by
        rw [List.drop_append, hlen, List.drop_eq_nil_of_le (by omega), List.nil_append]
        have hsub : s.col + 1 + text.length - s.col = text.length + 1 := by omega
        rw [hsub, List.drop_succ_cons, List.drop_drop]
        congr 1
        rw [List.length_cons]
        omega
      have hput : (s.put b).col = s.col + 1 := rfl
      rw [hput, htake, hdrop]
      simp only [List.append_assoc, List.cons_append, List.nil_append, List.length_cons, mk.injEq,
        true_and, and_true]
      omega

/-- Printing at the end of the row. -/
theorem run_printable_end {text : List UInt8} (hs : s.state = .ground) (h : s.col = s.row.length)
    (ht : ∀ b ∈ text, isPrintable b = true) :
    s.run text = ⟨s.row ++ text, s.row.length + text.length, .ground⟩ := by
  rw [run_printable hs (Nat.le_of_eq h) ht, h, List.take_length, List.drop_eq_nil_of_le (by omega),
    List.append_nil]

/-- Printing never begins a sequence. -/
theorem run_printable_ground {text : List UInt8} (hs : s.state = .ground)
    (ht : ∀ b ∈ text, isPrintable b = true) : (s.run text).state = .ground := by
  induction text generalizing s with
  | nil => exact hs
  | cons b text ih =>
      rw [run_cons, feed_printable hs (ht b List.mem_cons_self)]
      have hstate : (s.put b).state = .ground := hs
      exact ih hstate fun c hc => ht c (List.mem_cons_of_mem b hc)

/-! ## Control sequences -/

/-- CR LF. -/
theorem run_newline (hs : s.state = .ground) : s.run [0x0d, 0x0a] = ⟨[], 0, .ground⟩ := by
  obtain ⟨row, col, state⟩ := s
  cases hs
  rfl

/-- CR, and everything after it. -/
theorem run_return (hs : s.state = .ground) : s.run [0x0d] = ⟨s.row, 0, .ground⟩ := by
  obtain ⟨row, col, state⟩ := s
  cases hs
  rfl

/-- ESC [ K. -/
theorem run_erase (hs : s.state = .ground) :
    s.run [0x1b, 0x5b, 0x4b] = ⟨s.row.take s.col, s.col, .ground⟩ := by
  obtain ⟨row, col, state⟩ := s
  cases hs
  rfl

end Screen

end Terminal
