import Mathlib.Data.List.Basic

/-!
# Base64

Three bytes are four digits of six bits each. At the end one byte is two digits and two
bytes are three, without padding, so the number of digits tells how many bytes there
were.
-/

namespace Base64

/-- The standard alphabet. -/
def alphabet : List Char :=
  "ABCDEFGHIJKLMNOPQRSTUVWXYZabcdefghijklmnopqrstuvwxyz0123456789+/".toList

def digit (n : Nat) : Char := alphabet.getD n 'A'

def encode : List UInt8 → List Char
  | [] => []
  | [a] => [digit (a.toNat / 4), digit (a.toNat % 4 * 16)]
  | [a, b] =>
      [digit (a.toNat / 4), digit (a.toNat % 4 * 16 + b.toNat / 16), digit (b.toNat % 16 * 4)]
  | a :: b :: c :: rest =>
      digit (a.toNat / 4) :: digit (a.toNat % 4 * 16 + b.toNat / 16)
        :: digit (b.toNat % 16 * 4 + c.toNat / 64) :: digit (c.toNat % 64) :: encode rest

theorem digit_injective {m n : Nat} (hm : m < 64) (hn : n < 64) (h : digit m = digit n) : m = n := by
  have hall : ∀ m n : Fin 64, digit m = digit n → m = n := by decide +kernel
  exact congrArg Fin.val (hall ⟨m, hm⟩ ⟨n, hn⟩ h)

theorem digit_mem {n : Nat} (hn : n < 64) : digit n ∈ alphabet := by
  have hall : ∀ n : Fin 64, digit n ∈ alphabet := by decide +kernel
  exact hall ⟨n, hn⟩

theorem encode_alphabet (bytes : List UInt8) : ∀ c ∈ encode bytes, c ∈ alphabet := by
  induction bytes using encode.induct with
  | case1 => exact fun c hc => absurd hc List.not_mem_nil
  | case2 a =>
      have ha := a.toNat_lt
      simp only [encode, List.forall_mem_cons]
      exact ⟨digit_mem (by omega), digit_mem (by omega), fun c hc => absurd hc List.not_mem_nil⟩
  | case3 a b =>
      have ha := a.toNat_lt
      have hb := b.toNat_lt
      simp only [encode, List.forall_mem_cons]
      exact ⟨digit_mem (by omega), digit_mem (by omega), digit_mem (by omega),
        fun c hc => absurd hc List.not_mem_nil⟩
  | case4 a b c rest ih =>
      have ha := a.toNat_lt
      have hb := b.toNat_lt
      have hc := c.toNat_lt
      simp only [encode, List.forall_mem_cons]
      exact ⟨digit_mem (by omega), digit_mem (by omega), digit_mem (by omega), digit_mem (by omega), ih⟩

/-- Two digits of the same number, from bytes. -/
theorem byte_ext {a b : UInt8} (h : a.toNat = b.toNat) : a = b := UInt8.toNat_inj.mp h

theorem encode_injective : Function.Injective encode := by
  intro xs
  induction xs using encode.induct with
  | case1 =>
      intro ys h
      match ys with
      | [] => rfl
      | [_] => simp [encode] at h
      | [_, _] => simp [encode] at h
      | _ :: _ :: _ :: _ => simp [encode] at h
  | case2 a =>
      intro ys h
      match ys with
      | [] => simp [encode] at h
      | [a'] =>
          have ha := a.toNat_lt
          have ha' := a'.toNat_lt
          simp only [encode, List.cons.injEq, and_true] at h
          have h1 := digit_injective (by omega) (by omega) h.1
          have h2 := digit_injective (by omega) (by omega) h.2
          rw [byte_ext (a := a) (b := a') (by omega)]
      | [_, _] => simp [encode] at h
      | _ :: _ :: _ :: _ => simp [encode] at h
  | case3 a b =>
      intro ys h
      match ys with
      | [] => simp [encode] at h
      | [_] => simp [encode] at h
      | [a', b'] =>
          have ha := a.toNat_lt
          have ha' := a'.toNat_lt
          have hb := b.toNat_lt
          have hb' := b'.toNat_lt
          simp only [encode, List.cons.injEq, and_true] at h
          have h1 := digit_injective (by omega) (by omega) h.1
          have h2 := digit_injective (by omega) (by omega) h.2.1
          have h3 := digit_injective (by omega) (by omega) h.2.2
          rw [byte_ext (a := a) (b := a') (by omega), byte_ext (a := b) (b := b') (by omega)]
      | _ :: _ :: _ :: _ => simp [encode] at h
  | case4 a b c rest ih =>
      intro ys h
      match ys with
      | [] => simp [encode] at h
      | [_] => simp [encode] at h
      | [_, _] => simp [encode] at h
      | a' :: b' :: c' :: rest' =>
          have ha := a.toNat_lt
          have ha' := a'.toNat_lt
          have hb := b.toNat_lt
          have hb' := b'.toNat_lt
          have hc := c.toNat_lt
          have hc' := c'.toNat_lt
          simp only [encode, List.cons.injEq] at h
          have h1 := digit_injective (by omega) (by omega) h.1
          have h2 := digit_injective (by omega) (by omega) h.2.1
          have h3 := digit_injective (by omega) (by omega) h.2.2.1
          have h4 := digit_injective (by omega) (by omega) h.2.2.2.1
          rw [byte_ext (a := a) (b := a') (by omega), byte_ext (a := b) (b := b') (by omega),
            byte_ext (a := c) (b := c') (by omega), ih h.2.2.2.2]

end Base64
