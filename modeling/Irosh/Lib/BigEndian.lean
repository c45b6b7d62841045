import Mathlib.Algebra.GroupWithZero.Nat
import Mathlib.Data.List.Induction

/-!
# Numbers on the wire

A number is sent as a fixed count of bytes, most significant first. `beEncode w n`
keeps the low `w` bytes of `n`, as a cast to a narrower integer does, and
`beDecode` reads any count of bytes.

Both are defined by what happens at the last byte, so both directions of the round
trip are inductions from the right.
-/

namespace BigEndian

/-- The low `w` bytes of a number, most significant first. -/
def beEncode : Nat → Nat → List UInt8
  | 0, _ => []
  | w + 1, n => beEncode w (n / 256) ++ [UInt8.ofNat n]

/-- The number a list of bytes stands for. -/
def beDecode (bs : List UInt8) : Nat := bs.foldl (fun acc b => acc * 256 + b.toNat) 0

@[simp] theorem length_beEncode (w n : Nat) : (beEncode w n).length = w := by
  induction w generalizing n with
  | zero => rfl
  | succ w ih => simp [beEncode, ih]

@[simp] theorem beDecode_nil : beDecode [] = 0 := rfl

@[simp] theorem beDecode_snoc (bs : List UInt8) (b : UInt8) :
    beDecode (bs ++ [b]) = beDecode bs * 256 + b.toNat := by
  simp [beDecode]

theorem beDecode_beEncode {w n : Nat} (h : n < 256 ^ w) : beDecode (beEncode w n) = n := by
  induction w generalizing n with
  | zero =>
      rw [Nat.pow_zero] at h
      simp only [beEncode, beDecode_nil]
      omega
  | succ w ih =>
      have hdiv : n / 256 < 256 ^ w := by
        rw [Nat.pow_succ] at h
        omega
      have hbyte : (UInt8.ofNat n).toNat = n % 256 := by simp
      rw [beEncode, beDecode_snoc, ih hdiv, hbyte]
      omega

theorem beEncode_beDecode (bs : List UInt8) : beEncode bs.length (beDecode bs) = bs := by
  induction bs using List.reverseRecOn with
  | nil => rfl
  | append_singleton bs b ih =>
      have hlt : b.toNat < 256 := b.toNat_lt
      have hdiv : (beDecode bs * 256 + b.toNat) / 256 = beDecode bs := by omega
      have hbyte : UInt8.ofNat (beDecode bs * 256 + b.toNat) = b := by
        apply UInt8.toNat_inj.mp
        rw [UInt8.toNat_ofNat']
        omega
      rw [List.length_append, List.length_singleton, beEncode, beDecode_snoc, hdiv, hbyte, ih]

end BigEndian
