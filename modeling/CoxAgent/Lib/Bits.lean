import Mathlib.Data.List.Induction
import Mathlib.Data.Nat.Bitwise

-- Digits of one width in bits repacked as digits of another one, most significant bit first. The buffer is a
-- machine word, of which only the lowest bits are in use.
namespace Bits

def toBits : Nat → Nat → List Bool
  | 0,     _ => []
  | w + 1, n => n.testBit w :: toBits w n

section Definitions

variable (word width : Nat)

-- Emit digits while there are enough bits in use, but no more than `fuel`.
def drain (buffer : Nat) : Nat → Nat → List Nat × Nat
  | 0,        bits => ([], bits)
  | fuel + 1, bits =>
    if width ≤ bits then
      let (out, rest) := drain buffer fuel (bits - width)
      ((buffer >>> (bits - width)) % 2 ^ width :: out, rest)
    else
      ([], bits)

structure State where
  out    : List Nat := []
  buffer : Nat      := 0
  bits   : Nat      := 0

-- Take in a digit of `given` bits.
def feed (given : Nat) (fuel : Nat → Nat) (s : State) (digit : Nat) : State :=
  let buffer := (s.buffer <<< given) % 2 ^ word ||| digit
  let (out, bits) := drain width buffer (fuel (s.bits + given)) (s.bits + given)
  { out := s.out ++ out, buffer, bits }

def feedAll (given : Nat) (fuel : Nat → Nat) (digits : List Nat) : State :=
  digits.foldl (feed word width given fuel) {}

end Definitions

variable {w v n m k : Nat}

@[simp]
theorem length_toBits : (toBits w n).length = w := by
  induction w
  case zero       => rfl
  case succ w hi  => rw [toBits, List.length_cons, hi]

theorem toBits_congr (h : ∀ i < w, n.testBit i = m.testBit i) : toBits w n = toBits w m := by
  induction w
  case zero      => rfl
  case succ w hi => rw [toBits, toBits, h w (Nat.lt_succ_self w), hi fun i hi => h i (Nat.lt_succ_of_lt hi)]

theorem toBits_add : toBits (v + w) n = toBits v (n >>> w) ++ toBits w n := by
  induction v
  case zero      => rw [Nat.zero_add, toBits, List.nil_append]
  case succ v hi => rw [Nat.succ_add, toBits, toBits, hi, Nat.testBit_shiftRight, Nat.add_comm w v, List.cons_append]

theorem toBits_mod : toBits w (n % 2 ^ w) = toBits w n :=
  toBits_congr fun i hi => by rw [Nat.testBit_mod_two_pow, decide_eq_true hi, Bool.true_and]

theorem testBit_of_toBits_eq (h : toBits w n = toBits w m) : ∀ i < w, n.testBit i = m.testBit i := by
  induction w
  case zero      => simp
  case succ w hi =>
    obtain ⟨hw, ht⟩ := List.cons.inj h
    intro i hlt
    cases Nat.lt_succ_iff_lt_or_eq.mp hlt
    case inl hlt => exact hi ht i hlt
    case inr he  => exact he ▸ hw

theorem toBits_inj (hn : n < 2 ^ w) (hm : m < 2 ^ w) (h : toBits w n = toBits w m) : n = m := by
  refine Nat.eq_of_testBit_eq fun i => ?_
  by_cases hi : i < w
  case pos => exact testBit_of_toBits_eq h i hi
  case neg =>
    have hle : 2 ^ w ≤ 2 ^ i := Nat.pow_le_pow_right (by decide) (Nat.not_lt.mp hi)
    rw [Nat.testBit_lt_two_pow (hn.trans_le hle), Nat.testBit_lt_two_pow (hm.trans_le hle)]

theorem toBits_zero : toBits w 0 = List.replicate w false := by
  induction w
  case zero      => rfl
  case succ w hi => rw [toBits, hi, Nat.zero_testBit, List.replicate_succ]

theorem toBits_shiftLeft : toBits (v + w) (n <<< w) = toBits v n ++ List.replicate w false := by
  have hlow : toBits w (n <<< w) = toBits w 0 := by
    refine toBits_congr fun i hi => ?_
    rw [Nat.testBit_shiftLeft, Nat.zero_testBit, decide_eq_false (Nat.not_le.mpr hi), Bool.false_and]
  rw [toBits_add, Nat.shiftLeft_shiftRight, hlow, toBits_zero]

theorem length_flatMap_toBits {l : List Nat} : (l.flatMap (toBits w)).length = l.length * w := by
  induction l
  case nil         => simp
  case cons a l hi =>
    rw [List.flatMap_cons, List.length_append, hi, length_toBits, List.length_cons, Nat.succ_mul, Nat.add_comm]

-- Digits are determined by their bits.
theorem flatMap_toBits_inj {l l' : List Nat} (hl : ∀ d ∈ l, d < 2 ^ w) (hl' : ∀ d ∈ l', d < 2 ^ w)
    (hlen : l.length = l'.length) (h : l.flatMap (toBits w) = l'.flatMap (toBits w)) : l = l' := by
  induction l generalizing l'
  case nil         => exact (List.eq_nil_of_length_eq_zero hlen.symm).symm
  case cons d l hi =>
    obtain ⟨d', l', rfl⟩ := List.exists_cons_of_length_eq_add_one hlen.symm
    rw [List.forall_mem_cons] at hl hl'
    rw [List.flatMap_cons, List.flatMap_cons] at h
    obtain ⟨hd, ht⟩ := List.append_inj h (by rw [length_toBits, length_toBits])
    rw [toBits_inj hl.left hl'.left hd, hi hl.right hl'.right (Nat.succ.inj hlen) ht]

section Repacking

variable {word width given buffer digit bits fuel : Nat}

theorem drain_bits : (drain width buffer fuel bits).1.flatMap (toBits width) ++
    toBits (drain width buffer fuel bits).2 buffer = toBits bits buffer := by
  induction fuel generalizing bits
  case zero         => rfl
  case succ fuel hi =>
    rw [drain]
    split
    case isFalse  => rfl
    case isTrue h =>
      rw [List.flatMap_cons, toBits_mod, List.append_assoc, hi, ← toBits_add, Nat.add_sub_cancel' h]

theorem drain_digit : ∀ d ∈ (drain width buffer fuel bits).1, d < 2 ^ width := by
  induction fuel generalizing bits
  case zero         => simp [drain]
  case succ fuel hi =>
    rw [drain]
    split
    case isFalse => simp
    case isTrue  => exact List.forall_mem_cons.mpr ⟨Nat.mod_lt _ (Nat.two_pow_pos _), hi⟩

theorem drain_rest (h : bits < (fuel + 1) * width) : (drain width buffer fuel bits).2 < width := by
  induction fuel generalizing bits
  case zero         => simpa [drain] using h
  case succ fuel hi =>
    rw [drain]
    split
    case isFalse hw => exact Nat.lt_of_not_le hw
    case isTrue hw  =>
      refine hi ?_
      rw [Nat.succ_mul] at h
      omega

theorem feed_buffer (hd : digit < 2 ^ given) (hw : bits + given ≤ word) :
    toBits (bits + given) ((buffer <<< given) % 2 ^ word ||| digit) = toBits bits buffer ++ toBits given digit := by
  rw [toBits_add]
  congr 1
  case e_a =>
    refine toBits_congr fun i hi => ?_
    have hlt : given + i < word := by omega
    have hhigh : digit.testBit (given + i) = false :=
      Nat.testBit_lt_two_pow (hd.trans_le (Nat.pow_le_pow_right (by decide) (Nat.le_add_right _ _)))
    rw [Nat.testBit_shiftRight, Nat.testBit_or, hhigh, Bool.or_false, Nat.testBit_mod_two_pow, Nat.testBit_shiftLeft,
      decide_eq_true hlt, decide_eq_true (Nat.le_add_right given i), Bool.true_and, Bool.true_and,
      Nat.add_sub_cancel_left]
  case e_a =>
    refine toBits_congr fun i hi => ?_
    rw [Nat.testBit_or, Nat.testBit_mod_two_pow, Nat.testBit_shiftLeft, decide_eq_false (Nat.not_le.mpr hi),
      Bool.false_and, Bool.and_false, Bool.false_or]

-- What is known after some digits: their bits are those of what was emitted and of the rest in the buffer.
structure Repacked (width given : Nat) (digits : List Nat) (s : State) : Prop where
  same  : s.out.flatMap (toBits width) ++ toBits s.bits s.buffer = digits.flatMap (toBits given)
  small : ∀ d ∈ s.out, d < 2 ^ width
  rest  : s.bits < width

theorem repacked_feedAll {fuel : Nat → Nat} {digits : List Nat}
    (hf : ∀ b < width, b + given < (fuel (b + given) + 1) * width)
    (hw : width + given ≤ word + 1) (h0 : 0 < width) (hd : ∀ d ∈ digits, d < 2 ^ given) :
    Repacked width given digits (feedAll word width given fuel digits) := by
  induction digits using List.reverseRecOn
  case nil => exact ⟨rfl, by simp [feedAll], h0⟩
  case append_singleton digits d hi =>
    rw [List.forall_mem_append, List.forall_mem_singleton] at hd
    have h := hi hd.left
    rw [feedAll, List.foldl_append, List.foldl_cons, List.foldl_nil, ← feedAll]
    set s := feedAll word width given fuel digits
    have hrest := h.rest
    constructor
    case same =>
      rw [List.flatMap_append, ← h.same, List.flatMap_singleton]
      simp only [feed, List.flatMap_append, List.append_assoc]
      rw [drain_bits, feed_buffer hd.right (by omega)]
    case small =>
      simp only [feed, List.forall_mem_append]
      exact ⟨h.small, drain_digit⟩
    case rest => exact drain_rest (hf s.bits hrest)

end Repacking

end Bits
