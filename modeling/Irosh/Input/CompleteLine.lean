import Irosh.Transfer.Sanitize
import Irosh.Transport.Metadata

/-!
# Completing a line

Tab completes the word under the cursor. The line is cut into words first, the way a shell
does it, but each word keeps the bytes of the line it was read from, so that it can be
replaced there. Positions are byte positions, and a slice at one that lies inside of a
character is a panic.
-/

namespace Irosh.CompleteLine

open Metadata (byteLen takeBytes)

/-! ## Slices -/

/-- `str::is_char_boundary`. -/
def isCharBoundary (s : List Char) (n : Nat) : Bool := (takeBytes n s).isSome

/-- `&s[n..]`; `none` is a panic. `takeBytes` is `&s[..n]`. -/
def dropBytes : Nat → List Char → Option (List Char)
  | 0, s => some s
  | _ + 1, [] => none
  | n + 1, c :: s => if c.utf8Size ≤ n + 1 then dropBytes (n + 1 - c.utf8Size) s else none

/-! ## The line and its tokens -/

/-- `Token`. -/
structure Token where
  rawStart : Nat
  rawEnd : Nat
  value : List Char
  deriving DecidableEq, Repr

/-- `ParsedLine`. -/
structure ParsedLine where
  raw : List Char
  cursor : Nat
  tokens : List Token
  deriving DecidableEq, Repr

/-- `TextEdit`. -/
structure TextEdit where
  line : List Char
  cursor : Nat
  deriving DecidableEq, Repr

/-- What the loop of `parse_line` carries along. -/
structure Scan where
  tokens : List Token
  tokenStart : Option Nat
  tokenValue : List Char
  inSingle : Bool
  inDouble : Bool
  escaped : Bool
  deriving DecidableEq, Repr

namespace Scan

def init : Scan := ⟨[], none, [], false, false, false⟩

/-- `if token_start.is_none()`. -/
def begin (s : Scan) (index : Nat) : Scan :=
  match s.tokenStart with
  | none => { s with tokenStart := some index }
  | some _ => s

def push (s : Scan) (ch : Char) : Scan := { s with tokenValue := s.tokenValue ++ [ch] }

/-- `finish_token`. -/
def finishToken (s : Scan) (tail : Nat) : Scan :=
  match s.tokenStart with
  | none => s
  | some start =>
      { s with tokens := s.tokens ++ [⟨start, tail, s.tokenValue⟩], tokenStart := none, tokenValue := [] }

/-- The body of the loop. -/
def step (s : Scan) (index : Nat) (ch : Char) : Scan :=
  if s.escaped then { (s.begin index).push ch with escaped := false }
  else if ch = '\\' ∧ !s.inSingle then { s.begin index with escaped := true }
  else if ch = '\'' ∧ !s.inDouble then { s.begin index with inSingle := !s.inSingle }
  else if ch = '"' ∧ !s.inSingle then { s.begin index with inDouble := !s.inDouble }
  else if isWhitespace ch ∧ !s.inSingle ∧ !s.inDouble then s.finishToken index
  else (s.begin index).push ch

/-- The loop, over `char_indices`. -/
def run : Scan → Nat → List Char → Scan
  | s, _, [] => s
  | s, index, ch :: rest => run (s.step index ch) (index + ch.utf8Size) rest

end Scan

/-- `while cursor > 0 && !raw.is_char_boundary(cursor)`. -/
def floorBoundary (raw : List Char) : Nat → Nat
  | 0 => 0
  | n + 1 => if isCharBoundary raw (n + 1) then n + 1 else floorBoundary raw n

/-- `parse_line`. -/
def parseLine (raw : List Char) (cursor : Nat) : Option ParsedLine := do
  let cursor := floorBoundary raw (min cursor (byteLen raw))
  let words := ((Scan.init.run 0 raw).finishToken (byteLen raw)).tokens
  let before ← takeBytes cursor raw
  pure {
    raw := raw
    cursor := cursor
    tokens := if before.getLast?.any isWhitespace then words ++ [⟨cursor, cursor, []⟩] else words }

/-- `replace_range`. -/
def replaceRange (parsed : ParsedLine) (start tail : Nat) (replacement : List Char) : Option TextEdit := do
  let front ← takeBytes start parsed.raw
  let back ← dropBytes tail parsed.raw
  pure ⟨front ++ replacement ++ back, start + byteLen replacement⟩

/-- `active_token`. -/
def activeToken (parsed : ParsedLine) : Option Token :=
  parsed.tokens.find? fun token => token.rawStart ≤ parsed.cursor ∧ parsed.cursor ≤ token.rawEnd

end Irosh.CompleteLine
