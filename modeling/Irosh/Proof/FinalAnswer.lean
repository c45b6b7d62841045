import Irosh.Proof.Wire
import Irosh.Proof.Answers

/-!
# One final answer

Does every transfer stream get exactly one final frame, as long as it can be written to?
Never more than one. None at all, where the first frame cannot be decoded, where the
hash it names makes the decoder panic, where a report that is thrown away does not fit
the limit of an error frame, and where the data loop of a single upload is left because
a read or a write has failed.
-/

namespace Irosh

open UnixPath Wire Serve

instance (json : SerdeJson) (frame : TransferFrame) : Decidable (Fits json frame) :=
  match h : frame.payload json with
  | .ok payload =>
      decidable_of_iff (payload.length ≤ maxLen frame.kind) (by simp [Fits, h])
  | .error _ => isFalse (by simp [Fits, h])

section

variable {json : SerdeJson} {oracle : Nat → (o : ServeOp) → o.Answer}
  {steps : List (Σ o : ServeOp, o.Answer)}

end

namespace Proof

variable {json : SerdeJson} {debug : TransferFrame → String} {parseHash : String → HashText}
  {toBlobs : Collection → List (List UInt8)} {hashText : Hash → String}
  {oracle : Nat → (o : ServeOp) → o.Answer}

/-- Enough JSON for the frames of an upload. -/
def sizeJson : SerdeJson where
  toVec
    | .transferReady, ready =>
        .ok (("\x7b\"size\":" ++ toString ready.size.toNat ++ ",\"mode\":null\x7d").toList.map
          fun c => UInt8.ofNat c.toNat)
    | .transferComplete, complete =>
        .ok (("\x7b\"size\":" ++ toString complete.size.toNat ++ "\x7d").toList.map
          fun c => UInt8.ofNat c.toNat)
    | _, _ => .error "unsupported"
  fromSlice _ _ := .error "unsupported"

/-- Everything works, except that `written` says which bytes can be written to a file. -/
def obliging (json : SerdeJson) (written : List UInt8 → Bool) : (o : ServeOp) → o.Answer
  | .blob (.fs (.writeAll _ chunk)) => written chunk
  | .blob (.send frame) => decide (Fits json frame)
  | .tell failure => decide (Fits json (.error failure))
  | o => o.idle

/-- `Hash::from_str`, as far as lengths go. -/
def byLength (text : String) : HashText :=
  if text.utf8ByteSize = 64 ∨ text.utf8ByteSize = 52 then .invalid else .panics

end Proof

end Irosh
