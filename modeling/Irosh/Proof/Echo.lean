import Irosh.Lib.Transducer
import Irosh.Server.Echo

/-!
# The echo of a packet

The filter as a machine that reads byte by byte. Where a packet leaves the machine decides
whether the next packet may be filtered by itself, as the server does.
-/

namespace Irosh.Proof

open Irosh

/-- Where in an escape sequence the filter is. -/
inductive EchoState where
  | ground
  | escape
  | csi
  | osc
  /-- After an escape byte inside an OSC. -/
  | terminator
  | designator
  deriving DecidableEq, Repr

namespace EchoState

/-- The state after a byte outside every sequence. -/
def ofByte (b : UInt8) : EchoState := if b = 0x1b then escape else ground

def next : EchoState → UInt8 → EchoState
  | ground, b => ofByte b
  | escape, b =>
      if b = 0x5b then csi
      else if b = 0x5d then osc
      else if b = 0x28 ∨ b = 0x29 ∨ b = 0x23 then designator
      else ground
  | csi, f => if (0x40 ≤ f && f ≤ 0x7e) || !(0x20 ≤ f && f ≤ 0x3f) then ground else csi
  | osc, f => if f = 0x07 then ground else if f = 0x1b then terminator else osc
  | terminator, f => if f = 0x5c then ground else ofByte f
  | designator, _ => ground

/-- What is left of a packet once the sequence it begins in the middle of is over. -/
def skip : EchoState → List UInt8 → List UInt8
  | ground, xs => xs
  | escape, xs => skipEscape xs
  | csi, xs => skipCsi xs
  | osc, xs => skipOsc xs
  | terminator, xs => skipTerminator xs
  | designator, xs => xs.tail

end EchoState

/-- The bytes a byte outside every sequence is echoed as. -/
def echoOf (b : UInt8) : List UInt8 :=
  if b = 0x1b then [] else if b = 0x0d then [0x0a] else if isEchoed b then [b] else []

def echoMachine : Transducer EchoState UInt8 UInt8 where
  start := .ground
  next := EchoState.next
  emit
    | .ground, b => echoOf b
    | .terminator, f => if f = 0x5c then [] else echoOf f
    | _, _ => []

theorem outFrom_csi (xs : List UInt8) :
    echoMachine.outFrom .csi xs = echoMachine.outFrom .ground (skipCsi xs) := by
  induction xs with
  | nil => rfl
  | cons f rest ih =>
    rw [skipCsi, Transducer.outFrom_cons]
    simp only [echoMachine, EchoState.next, List.nil_append] at ih ⊢
    split
    · rfl
    · exact ih

theorem outFrom_terminator (xs : List UInt8) :
    echoMachine.outFrom .terminator xs = echoMachine.outFrom .ground (skipTerminator xs) := by
  cases xs with
  | nil => rfl
  | cons f rest =>
    rw [skipTerminator, Transducer.outFrom_cons]
    by_cases hf : f = 0x5c
    · simp [echoMachine, EchoState.next, hf]
    · simp [echoMachine, EchoState.next, hf]

theorem outFrom_osc (xs : List UInt8) :
    echoMachine.outFrom .osc xs = echoMachine.outFrom .ground (skipOsc xs) := by
  induction xs with
  | nil => rfl
  | cons f rest ih =>
    have hterm := outFrom_terminator rest
    rw [skipOsc, Transducer.outFrom_cons]
    simp only [echoMachine, EchoState.next, List.nil_append] at ih hterm ⊢
    split
    · rfl
    · split
      · exact hterm
      · exact ih

theorem outFrom_designator (xs : List UInt8) :
    echoMachine.outFrom .designator xs = echoMachine.outFrom .ground xs.tail := by
  cases xs with
  | nil => rfl
  | cons f rest => rfl

theorem outFrom_escape (xs : List UInt8) :
    echoMachine.outFrom .escape xs = echoMachine.outFrom .ground (skipEscape xs) := by
  cases xs with
  | nil => rfl
  | cons b rest =>
    have hcsi := outFrom_csi rest
    have hosc := outFrom_osc rest
    have hdesignator := outFrom_designator rest
    rw [skipEscape, Transducer.outFrom_cons]
    simp only [echoMachine, EchoState.next, List.nil_append] at hcsi hosc hdesignator ⊢
    split
    · exact hcsi
    · split
      · exact hosc
      · split
        · exact hdesignator
        · rfl

/-- In the middle of a sequence the machine goes on where the sequence is over. -/
theorem outFrom_skip (s : EchoState) (xs : List UInt8) :
    echoMachine.outFrom s xs = echoMachine.outFrom .ground (s.skip xs) := by
  cases s with
  | ground => rfl
  | escape => exact outFrom_escape xs
  | csi => exact outFrom_csi xs
  | osc => exact outFrom_osc xs
  | terminator => exact outFrom_terminator xs
  | designator => exact outFrom_designator xs

/-- The source's filter is the machine. -/
theorem filterEchoBytes_eq (xs : List UInt8) : filterEchoBytes xs = echoMachine.out xs := by
  induction xs using filterEchoBytes.induct with
  | case1 => rw [filterEchoBytes]; rfl
  | case2 rest hlt ih =>
    have hescape := outFrom_escape rest
    rw [filterEchoBytes, if_pos rfl, ih]
    simp only [Transducer.out, Transducer.outFrom_cons]
    exact hescape.symm
  | case3 rest hb ih =>
    rw [filterEchoBytes, if_neg hb, if_pos rfl, ih]
    rfl
  | case4 b rest hb hcr hshown ih =>
    have hemit : echoOf b = [b] := by simp [echoOf, hb, hcr, hshown]
    have hnext : EchoState.ofByte b = .ground := by simp [EchoState.ofByte, hb]
    rw [filterEchoBytes, if_neg hb, if_neg hcr, if_pos hshown, ih]
    simp only [Transducer.out, Transducer.outFrom_cons, echoMachine, EchoState.next] at *
    rw [hemit, hnext]
    rfl
  | case5 b rest hb hcr hsilent ih =>
    have hemit : echoOf b = [] := by simp [echoOf, hb, hcr, hsilent]
    have hnext : EchoState.ofByte b = .ground := by simp [EchoState.ofByte, hb]
    rw [filterEchoBytes, if_neg hb, if_neg hcr, if_neg hsilent, ih]
    simp only [Transducer.out, Transducer.outFrom_cons, echoMachine, EchoState.next] at *
    rw [hemit, hnext]
    rfl

/-- A packet that ends outside every escape sequence. -/
def EndsOutside (a : List UInt8) : Prop := echoMachine.stateAfter a = .ground

/-- The bytes of the next packet that end the sequence a packet has left open. -/
def closingBytes (a b : List UInt8) : List UInt8 :=
  b.take (b.length - ((echoMachine.stateAfter a).skip b).length)

theorem skip_suffix (s : EchoState) (xs : List UInt8) : s.skip xs <:+ xs := by
  cases s with
  | ground => exact List.suffix_rfl
  | escape => exact skipEscape_suffix xs
  | csi => exact skipCsi_suffix xs
  | osc => exact skipOsc_suffix xs
  | terminator => exact skipTerminator_suffix xs
  | designator => exact List.tail_suffix xs

theorem closing_append (a b : List UInt8) :
    closingBytes a b ++ (echoMachine.stateAfter a).skip b = b := by
  obtain ⟨front, hfront⟩ := skip_suffix (echoMachine.stateAfter a) b
  have hlen : b.length - ((echoMachine.stateAfter a).skip b).length = front.length := by
    have htotal := congrArg List.length hfront
    rw [List.length_append] at htotal
    omega
  have htake : closingBytes a b = front := by
    unfold closingBytes
    rw [hlen]
    conv_lhs => rw [← hfront]
    exact List.take_left
  rw [htake, hfront]

/-- Parts give the whole iff the second part is read as if nothing were open. -/
theorem parts_iff (a b : List UInt8) :
    filterEchoBytes a ++ filterEchoBytes b = filterEchoBytes (a ++ b) ↔
      echoMachine.out b = echoMachine.out ((echoMachine.stateAfter a).skip b) := by
  rw [filterEchoBytes_eq, filterEchoBytes_eq, filterEchoBytes_eq, echoMachine.out_append_iff,
    outFrom_skip]
  rfl

/-- Any number of packets that end outside every sequence are echoed as one. -/
theorem echo_packets {packets : List (List UInt8)} (h : ∀ p ∈ packets, EndsOutside p) :
    (packets.map filterEchoBytes).flatten = filterEchoBytes packets.flatten := by
  induction packets with
  | nil =>
    rw [filterEchoBytes_eq]
    rfl
  | cons p rest ih =>
    have hfirst : echoMachine.stateAfter p = .ground := h p List.mem_cons_self
    have hrest := ih fun q hq => h q (List.mem_cons_of_mem p hq)
    have hskip : (echoMachine.stateAfter p).skip rest.flatten = rest.flatten := by
      rw [hfirst]
      rfl
    rw [List.map_cons, List.flatten_cons, List.flatten_cons, hrest, parts_iff, hskip]

/-- In every sequence there is a key that is echoed only if the sequence is forgotten. -/
theorem forgotten_key (s : EchoState) (hs : s ≠ .ground) :
    ∃ c, echoMachine.out [c] ≠ echoMachine.out (s.skip [c]) := by
  cases s with
  | ground => exact absurd rfl hs
  | terminator => exact ⟨0x5c, by decide⟩
  | escape | csi | osc | designator => exact ⟨0x41, by decide⟩

theorem echoOf_eq_nil_iff {c : UInt8} (h : c ≠ 0x1b) :
    echoOf c = [] ↔ c ≠ 0x0d ∧ isEchoed c = false := by
  unfold echoOf
  rw [if_neg h]
  by_cases hcr : c = 0x0d
  · simp [hcr]
  · by_cases hshown : isEchoed c = true
    · simp [hcr, hshown]
    · simp [hcr, hshown]

/-- Bytes without an escape byte are echoed one by one. -/
theorem out_plain_append {xs : List UInt8} (h : 0x1b ∉ xs) (ys : List UInt8) :
    echoMachine.out (xs ++ ys) = xs.flatMap echoOf ++ echoMachine.out ys := by
  have hstay : ∀ x ∈ xs, echoMachine.next .ground x = .ground := by
    intro x hx
    have hne : x ≠ 0x1b := fun heq => h (heq ▸ hx)
    simp [echoMachine, EchoState.next, EchoState.ofByte, hne]
  obtain ⟨hout, hstate⟩ := echoMachine.of_fixed hstay
  have happend := echoMachine.outFrom_append .ground xs ys
  rw [hout, hstate] at happend
  exact happend

/--
**When packets may be echoed apart.**

Whatever follows a packet is echoed as in one piece iff the packet ends outside every escape
sequence. And if it does not, then a next packet that closes the sequence without an
escape byte is echoed as in one piece iff all the closing bytes are ones that are never shown.
-/
theorem echo_of_parts_iff (a : List UInt8) :
    ((∀ b, filterEchoBytes a ++ filterEchoBytes b = filterEchoBytes (a ++ b)) ↔
        EndsOutside a) ∧
      ∀ b, 0x1b ∉ closingBytes a b →
        (filterEchoBytes a ++ filterEchoBytes b = filterEchoBytes (a ++ b) ↔
          ∀ c ∈ closingBytes a b, c ≠ 0x0d ∧ isEchoed c = false) := by
  constructor
  · constructor
    · intro hall
      by_contra hinside
      obtain ⟨c, hc⟩ := forgotten_key _ hinside
      exact hc ((parts_iff a [c]).mp (hall [c]))
    · intro houtside b
      have hskip : (echoMachine.stateAfter a).skip b = b := by
        rw [show echoMachine.stateAfter a = .ground from houtside]
        rfl
      rw [parts_iff, hskip]
  · intro b hplain
    have hout := out_plain_append hplain ((echoMachine.stateAfter a).skip b)
    rw [closing_append] at hout
    rw [parts_iff, hout, List.append_left_eq_self, List.flatMap_eq_nil_iff]
    have hbyte : ∀ c ∈ closingBytes a b, (echoOf c = [] ↔ c ≠ 0x0d ∧ isEchoed c = false) := by
      intro c hc
      exact echoOf_eq_nil_iff fun heq => hplain (heq ▸ hc)
    exact forall₂_congr hbyte

/-- An arrow key whose escape byte came in a packet of its own: its letters are echoed. -/
theorem arrow_key_in_two_packets :
    ¬ ∀ a b, filterEchoBytes a ++ filterEchoBytes b = filterEchoBytes (a ++ b) := by
  intro hall
  have hparts := hall [0x1b] [0x5b, 0x41]
  rw [filterEchoBytes_eq, filterEchoBytes_eq, filterEchoBytes_eq] at hparts
  revert hparts
  decide

end Irosh.Proof
