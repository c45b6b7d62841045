import Mathlib.Data.UInt

/-!
# The server's echo

`filter_echo_bytes`: what the server sends back for typed bytes when the shell does not
echo by itself. The source walks an index over the packet; here the index is the part of
the packet that is still to be read.
-/

namespace Irosh

/-- `u8::is_ascii_graphic`. -/
def isAsciiGraphic (b : UInt8) : Bool := 0x21 ≤ b && b ≤ 0x7e

/-- The bytes that are echoed as they are. -/
def isEchoed (b : UInt8) : Bool :=
  b == 0x0a || b == 0x09 || b == 0x20 || isAsciiGraphic b || 0x80 ≤ b

/-- CSI: parameter and intermediate bytes, then one final byte. Anything else ends it. -/
def skipCsi : List UInt8 → List UInt8
  | [] => []
  | f :: rest =>
      if (0x40 ≤ f && f ≤ 0x7e) || !(0x20 ≤ f && f ≤ 0x3f) then rest else skipCsi rest

/-- After an escape byte inside an OSC: the backslash of a string terminator. -/
def skipTerminator : List UInt8 → List UInt8
  | [] => []
  | f :: rest => if f = 0x5c then rest else f :: rest

/-- OSC: up to BEL or to an escape byte. -/
def skipOsc : List UInt8 → List UInt8
  | [] => []
  | f :: rest =>
      if f = 0x07 then rest
      else if f = 0x1b then skipTerminator rest
      else skipOsc rest

/-- What is left after the escape sequence whose escape byte has been read. -/
def skipEscape : List UInt8 → List UInt8
  | [] => []
  | b :: rest =>
      if b = 0x5b then skipCsi rest
      else if b = 0x5d then skipOsc rest
      -- a two-byte sequence takes its designator along
      else if b = 0x28 ∨ b = 0x29 ∨ b = 0x23 then rest.tail
      else rest

theorem skipCsi_suffix (xs : List UInt8) : skipCsi xs <:+ xs := by
  induction xs with
  | nil => exact List.suffix_rfl
  | cons f rest ih =>
    have hrest : rest <:+ f :: rest := List.suffix_cons f rest
    rw [skipCsi]
    split
    · exact hrest
    · exact ih.trans hrest

theorem skipTerminator_suffix (xs : List UInt8) : skipTerminator xs <:+ xs := by
  cases xs with
  | nil => exact List.suffix_rfl
  | cons f rest =>
    rw [skipTerminator]
    split
    · exact List.suffix_cons f rest
    · exact List.suffix_rfl

theorem skipOsc_suffix (xs : List UInt8) : skipOsc xs <:+ xs := by
  induction xs with
  | nil => exact List.suffix_rfl
  | cons f rest ih =>
    have hrest : rest <:+ f :: rest := List.suffix_cons f rest
    rw [skipOsc]
    split
    · exact hrest
    · split
      · exact (skipTerminator_suffix rest).trans hrest
      · exact ih.trans hrest

theorem skipEscape_suffix (xs : List UInt8) : skipEscape xs <:+ xs := by
  cases xs with
  | nil => exact List.suffix_rfl
  | cons b rest =>
    have hrest : rest <:+ b :: rest := List.suffix_cons b rest
    rw [skipEscape]
    split
    · exact (skipCsi_suffix rest).trans hrest
    · split
      · exact (skipOsc_suffix rest).trans hrest
      · split
        · exact (List.tail_suffix rest).trans hrest
        · exact hrest

/-- `filter_echo_bytes`. -/
def filterEchoBytes : List UInt8 → List UInt8
  | [] => []
  | b :: rest =>
      if b = 0x1b then
        have : (skipEscape rest).length < rest.length + 1 :=
          Nat.lt_succ_of_le (skipEscape_suffix rest).length_le
        filterEchoBytes (skipEscape rest)
      else if b = 0x0d then 0x0a :: filterEchoBytes rest
      else if isEchoed b then b :: filterEchoBytes rest
      else filterEchoBytes rest
termination_by data => data.length

end Irosh
