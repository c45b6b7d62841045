import Irosh.Transport.Codec

/-!
# Peer metadata

A node tells a client its host name, user and operating system on a stream of its own,
one frame each way. What the peer says ends up on a terminal, so `PeerMetadata::new`
takes control characters out and cuts each field to 255 bytes.

`String::truncate` panics if the cut falls inside a character. A program here may
therefore end in three ways: with a result, with an error, or not at all; `Stopped` is
the last two.
-/

namespace Irosh.Metadata

open BigEndian Lockstep Wire

/-! ## Text -/

/-- `str::len`, in bytes. -/
def byteLen (s : List Char) : Nat := (s.map Char.utf8Size).sum

/-- The characters that take up the first `n` bytes, if some number of characters does. -/
def takeBytes : Nat → List Char → Option (List Char)
  | 0, _ => some []
  | _ + 1, [] => none
  | n + 1, c :: s =>
      if c.utf8Size ≤ n + 1 then (takeBytes (n + 1 - c.utf8Size) s).map (c :: ·) else none

/-- `String::truncate`; `none` is a panic. -/
def truncate (n : Nat) (s : List Char) : Option (List Char) :=
  if n ≤ byteLen s then takeBytes n s else some s

/-! ## The type -/

/-- `PeerMetadata`. -/
structure PeerMetadata where
  hostname : List Char
  user : List Char
  os : List Char
  deriving DecidableEq, Repr

/-- `MAX_FIELD_LEN`. -/
def maxFieldLen : Nat := 255

/-- The test in `sanitize_field`. -/
def keptChar (c : Char) : Bool := decide (' ' ≤ c) || c == '\t'

/-- `PeerMetadata::sanitize_field`. -/
def sanitizeField (s : List Char) : Option (List Char) := truncate maxFieldLen (s.filter keptChar)

/-- `PeerMetadata::new`. -/
def PeerMetadata.new (hostname user os : List Char) : Option PeerMetadata := do
  let hostname ← sanitizeField hostname
  let user ← sanitizeField user
  let os ← sanitizeField os
  pure ⟨hostname, user, os⟩

/-- `MetadataError`. -/
inductive MetadataError where
  | io (e : IoError)
  | invalidMagic
  | unsupportedVersion (version : UInt8)
  | unsupportedKind (kind : UInt8)
  | unexpectedKind (expected actual : UInt8)
  | payloadTooLarge (n : Nat)
  | json (e : String)
  deriving DecidableEq, Repr

/-- What ends a call without a result. -/
inductive Stopped where
  | error (e : MetadataError)
  | panicked
  deriving DecidableEq, Repr

/-! ## JSON -/

/-- The bytes of a piece of ASCII text. -/
def ascii (s : String) : List UInt8 := s.toList.map fun c => UInt8.ofNat c.toNat

def hexDigit (n : Nat) : UInt8 := UInt8.ofNat (if n < 10 then 0x30 + n else 0x61 + (n - 10))

/-- A character in a JSON string, as `serde_json` writes it. -/
def escapeChar (c : Char) : List UInt8 :=
  if c = '"' then [0x5c, 0x22]
  else if c = '\\' then [0x5c, 0x5c]
  else if c.toNat = 0x08 then [0x5c, 0x62]
  else if c.toNat = 0x0c then [0x5c, 0x66]
  else if c = '\n' then [0x5c, 0x6e]
  else if c = '\r' then [0x5c, 0x72]
  else if c = '\t' then [0x5c, 0x74]
  else if c < ' ' then [0x5c, 0x75, 0x30, 0x30, hexDigit (c.toNat / 16), hexDigit (c.toNat % 16)]
  else String.utf8EncodeChar c

def jsonString (s : List Char) : List UInt8 := [0x22] ++ s.flatMap escapeChar ++ [0x22]

/-- `serde_json::to_vec`: the fields in their order, without spaces. -/
def PeerMetadata.toVec (m : PeerMetadata) : List UInt8 :=
  ascii "\x7b\"hostname\":" ++ jsonString m.hostname ++ ascii ",\"user\":" ++ jsonString m.user
    ++ ascii ",\"os\":" ++ jsonString m.os ++ ascii "\x7d"

/-- `serde_json::from_slice`. -/
abbrev FromSlice := List UInt8 → Except String PeerMetadata

/-! ## Frames -/

/-- `MAGIC`: `IRMD`. -/
def magic : List UInt8 := [0x49, 0x52, 0x4d, 0x44]

/-- `VERSION`. -/
def version : UInt8 := 2

/-- `KIND_METADATA_REQUEST`. -/
def kindMetadataRequest : UInt8 := 1

/-- `KIND_PEER_METADATA`. -/
def kindPeerMetadata : UInt8 := 2

/-- `MAX_METADATA_BYTES`. -/
def maxMetadataBytes : Nat := 8 * 1024

/-- A program that writes. -/
abbrev Writing := EStateM Stopped (List UInt8)

/-- A program that reads. -/
abbrev Reading := EStateM Stopped ByteStream

def writeAll (bytes : List UInt8) : Writing Unit := fun out => .ok () (out ++ bytes)

/-- `write_frame`. -/
def writeFrame (kind : UInt8) (payload : List UInt8) : Writing Unit := do
  refuse (maxMetadataBytes < payload.length) (.error (.payloadTooLarge payload.length))
  writeAll magic
  writeAll [version]
  writeAll [kind]
  -- `payload.len() as u32`
  writeAll (beEncode 4 payload.length)
  writeAll payload

/-- `read_exact` into a fresh array. -/
def readExact (n : Nat) : Reading (List UInt8) := fun s =>
  if n ≤ s.bytes.length then .ok (s.bytes.take n) { s with bytes := s.bytes.drop n }
  else .error (.error (.io s.ending)) { s with bytes := [] }

def readU8 : Reading UInt8 := do
  let bytes ← readExact 1
  pure (bytes.headD 0)

def readU32 : Reading Nat := do
  let bytes ← readExact 4
  pure (beDecode bytes)

/-- `read_frame`. -/
def readFrame : Reading (UInt8 × List UInt8) := do
  let start ← readExact 4
  refuse (start ≠ magic) (.error .invalidMagic)
  let v ← readU8
  refuse (v ≠ version) (.error (.unsupportedVersion v))
  let kind ← readU8
  refuse (kind ≠ kindPeerMetadata && kind ≠ kindMetadataRequest) (.error (.unsupportedKind kind))
  let length ← readU32
  refuse (maxMetadataBytes < length) (.error (.payloadTooLarge length))
  let payload ← readExact length
  pure (kind, payload)

/-- `write_metadata_request`. -/
def writeMetadataRequest : Writing Unit := writeFrame kindMetadataRequest []

/-- `read_metadata_request`. -/
def readMetadataRequest : Reading Unit := do
  let (kind, payload) ← readFrame
  refuse (kind ≠ kindMetadataRequest) (.error (.unexpectedKind kindMetadataRequest kind))
  refuse (payload ≠ []) (.error (.payloadTooLarge payload.length))

/-- `write_metadata`. -/
def writeMetadata (m : PeerMetadata) : Writing Unit := writeFrame kindPeerMetadata m.toVec

/-- `read_metadata`. -/
def readMetadata (fromSlice : FromSlice) : Reading PeerMetadata := do
  let (kind, payload) ← readFrame
  refuse (kind ≠ kindPeerMetadata) (.error (.unexpectedKind kindPeerMetadata kind))
  let raw ← ofExcept ((fromSlice payload).mapError fun e => .error (.json e))
  ofExcept ((PeerMetadata.new raw.hostname raw.user raw.os).elim (.error .panicked) .ok)

end Irosh.Metadata
