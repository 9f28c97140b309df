import CoxAgent.Auth.Totp
import CoxAgent.Lib.Instant

namespace Totp

variable {cs pad : List Char} {values : List Nat} {data : List UInt8} {mac : Mac}

section Alphabet

theorem alphabet_findIdx {d : Nat} (h : d < 32) : alphabet.findIdx (· = (alphabet.getD d 'A').toUpper) = d := by
  have hall : ∀ d < 32, alphabet.findIdx (· = (alphabet.getD d 'A').toUpper) = d := by decide
  exact hall d h

theorem alphabet_toUpper {d : Nat} (h : d < 32) : (alphabet.getD d 'A').toUpper = alphabet.getD d 'A' := by
  have hall : ∀ d < 32, (alphabet.getD d 'A').toUpper = alphabet.getD d 'A' := by decide
  exact hall d h

theorem alphabet_ne_pad {d : Nat} (h : d < 32) : alphabet.getD d 'A' ≠ '=' := by
  have hall : ∀ d < 32, alphabet.getD d 'A' ≠ '=' := by decide
  exact hall d h

end Alphabet

section Decoding

-- Characters in either case spell their values, up to the padding.
theorem base32Values_spelled (hv : ∀ d ∈ values, d < 32) (hp : ∀ c ∈ pad.head?, c = '=')
    (h : cs.map Char.toUpper = values.map (alphabet.getD · 'A')) : base32Values (cs ++ pad) = some values := by
  induction values generalizing cs
  case nil =>
    obtain rfl := List.map_eq_nil_iff.mp h
    cases pad
    case nil        => rfl
    case cons c pad => rw [List.nil_append, base32Values, if_pos (hp c rfl)]
  case cons d values hi =>
    rw [List.forall_mem_cons] at hv
    cases cs
    case nil       => simp at h
    case cons c cs =>
      rw [List.map_cons, List.map_cons, List.cons.injEq] at h
      have hc : c ≠ '=' := by
        rintro rfl
        exact alphabet_ne_pad hv.left h.left.symm
      have hidx : alphabet.findIdx (· = c.toUpper) = d := by
        rw [h.left, ← alphabet_toUpper hv.left, alphabet_findIdx hv.left]
      have hlt : d < alphabet.length := hv.left
      rw [List.cons_append, base32Values, if_neg hc]
      simp only [hidx, if_pos hlt, hi hv.right h.right, Option.map_some]

-- The values that the encoder writes.
def encoded (data : List UInt8) : List Nat :=
  let s := Bits.feedAll 32 5 8 id (data.map (·.toNat))
  s.out ++ if 0 < s.bits then [(s.buffer <<< (5 - s.bits)) % 2 ^ 5] else []

theorem toList_base32Encode : (base32Encode data).toList = (encoded data).map (alphabet.getD · 'A') :=
  String.toList_ofList

theorem repacked_encoded : Bits.Repacked 5 8 (data.map (·.toNat)) (Bits.feedAll 32 5 8 id (data.map (·.toNat))) := by
  refine Bits.repacked_feedAll (fun b hb => ?_) (by decide) (by decide) fun d hd => ?_
  case refine_1 =>
    rw [id_eq]
    omega
  case refine_2 =>
    obtain ⟨b, _, rfl⟩ := List.mem_map.mp hd
    exact b.toNat_lt

theorem encoded_lt : ∀ d ∈ encoded data, d < 2 ^ 5 := by
  refine List.forall_mem_append.mpr ⟨repacked_encoded.small, ?_⟩
  split
  case isTrue  => exact List.forall_mem_singleton.mpr (Nat.mod_lt _ (Nat.two_pow_pos _))
  case isFalse => simp

-- What the encoder writes are the bits of the data, and less than a digit of zeros.
theorem encoded_bits : ∃ k < 5, (encoded data).flatMap (Bits.toBits 5) =
    (data.map (·.toNat)).flatMap (Bits.toBits 8) ++ List.replicate k false := by
  have h := @repacked_encoded data
  simp only [encoded, List.flatMap_append, ← h.same, List.append_assoc]
  set s := Bits.feedAll 32 5 8 id (data.map (·.toNat))
  have hrest := h.rest
  split
  case isFalse hb =>
    have hzero : s.bits = 0 := by omega
    exact ⟨0, by decide, by rw [hzero]; rfl⟩
  case isTrue hb =>
    refine ⟨5 - s.bits, by omega, ?_⟩
    have hshift := @Bits.toBits_shiftLeft (5 - s.bits) s.bits s.buffer
    rw [Nat.add_sub_cancel' hrest.le] at hshift
    rw [List.flatMap_singleton, Bits.toBits_mod, hshift]

theorem decoded_encoded :
    (Bits.feedAll 32 8 5 (fun _ => 1) (encoded data)).out = data.map (·.toNat) := by
  have h : Bits.Repacked 8 5 (encoded data) (Bits.feedAll 32 8 5 (fun _ => 1) (encoded data)) :=
    Bits.repacked_feedAll (fun b hb => by omega) (by decide) (by decide) encoded_lt
  obtain ⟨k, hk, hbits⟩ := @encoded_bits data
  have hsame := h.same.trans hbits
  have hrest := h.rest
  have hlen := congrArg List.length hsame
  rw [List.length_append, List.length_append, Bits.length_flatMap_toBits, Bits.length_flatMap_toBits,
    Bits.length_toBits, List.length_replicate] at hlen
  have hcount : (Bits.feedAll 32 8 5 (fun _ => 1) (encoded data)).out.length = (data.map (·.toNat)).length := by
    omega
  have hfront := (List.append_inj hsame (by
    rw [Bits.length_flatMap_toBits, Bits.length_flatMap_toBits, hcount])).left
  refine Bits.flatMap_toBits_inj h.small (fun d hd => ?_) hcount hfront
  obtain ⟨b, _, rfl⟩ := List.mem_map.mp hd
  exact b.toNat_lt

-- A spelling of an encoded secret: in either case, with white space around it and padding after it.
def Spells (t : String) (data : List UInt8) : Prop :=
  ∃ cs pad, (Text.trim t).toList = cs ++ pad ∧ (∀ c ∈ pad.head?, c = '=') ∧
    cs.map Char.toUpper = (base32Encode data).toList

theorem base32Decode_spelled {t : String} (h : Spells t data) : base32Decode t = some data := by
  obtain ⟨cs, pad, ht, hp, hcs⟩ := h
  rw [toList_base32Encode] at hcs
  rw [base32Decode, ht, base32Values_spelled encoded_lt hp hcs, Option.map_some, decoded_encoded, List.map_map]
  have hid : UInt8.ofNat ∘ (·.toNat) = id := funext fun b => UInt8.ofNat_toNat
  rw [hid, List.map_id]

end Decoding

section Codes

variable {secret code shown : String} {unix unix' : Nat}

theorem hotp_digits {key : List UInt8} {counter : Nat} :
    (hotp mac key counter).length = digits ∧ ∀ c ∈ (hotp mac key counter).toList, c.isDigit := by
  have hpos : 0 < digits := by decide
  constructor
  case left =>
    rw [hotp, String.length_ofList, Instant.length_zeroPad hpos (Nat.mod_lt _ (by decide))]
  case right =>
    intro c hc
    rw [hotp, String.toList_ofList] at hc
    exact Text.isDigit_of_mem_zeroPad hc

-- Two times at most one period apart.
def Near (unix unix' : Nat) : Prop :=
  unix / period ≤ unix' / period + 1 ∧ unix' / period ≤ unix / period + 1

theorem verify_iff (h : period ≤ unix') (hu : unix' / period < 18446744073709551616) :
    verify mac secret shown unix' ↔ ∃ unix, Near unix unix' ∧ codeAt mac secret unix = some (Text.trim shown) := by
  unfold verify codeAt
  cases base32Decode secret
  case none     => simp
  case some key =>
    have hpos : 0 < unix' / period := Nat.div_pos h (by decide)
    have hsub : (unix' / period + 18446744073709551615) % 18446744073709551616 = unix' / period - 1 := by omega
    simp only [hsub, List.any_cons, List.any_nil, Bool.or_false, Bool.or_eq_true, decide_eq_true_eq, Option.map_some,
      Option.some.injEq, Near]
    constructor
    case mp =>
      have hdiv (c : Nat) : c * period / period = c := Nat.mul_div_cancel c (by decide)
      rintro (hc | hc | hc)
      · exact ⟨(unix' / period - 1) * period, by rw [hdiv]; omega, by rw [hdiv]; exact hc⟩
      · exact ⟨unix', by omega, hc⟩
      · exact ⟨(unix' / period + 1) * period, by rw [hdiv]; omega, by rw [hdiv]; exact hc⟩
    case mpr =>
      intro ⟨unix, hn, hc⟩
      have hcases : unix / period = unix' / period - 1 ∨ unix / period = unix' / period ∨
          unix / period = unix' / period + 1 := by omega
      rcases hcases with he | he | he
      · exact .inl (he ▸ hc)
      · exact .inr (.inl (he ▸ hc))
      · exact .inr (.inr (he ▸ hc))

-- A second factor works as provisioned. Every spelling of a secret stands for its bytes, codes have six digits, and
-- a code is accepted exactly if, but for white space around it, it is one of a time at most a period away.
theorem provisioned (mac : Mac) {data : List UInt8} {t : String} (h : Spells t data) :
    base32Decode t = some data ∧
    (∀ unix, ∃ code, codeAt mac t unix = some code ∧ code.length = digits ∧ ∀ c ∈ code.toList, c.isDigit) ∧
    ∀ unix', period ≤ unix' → unix' / period < 18446744073709551616 → ∀ shown,
      (verify mac t shown unix' ↔ ∃ unix, Near unix unix' ∧ codeAt mac t unix = some (Text.trim shown)) := by
  have hd := base32Decode_spelled h
  refine ⟨hd, fun unix => ?_, fun unix' hp hu shown => verify_iff hp hu⟩
  exact ⟨hotp mac data (unix / period), by rw [codeAt, hd, Option.map_some], hotp_digits⟩

-- A secret that was typed in small letters and with padding.
theorem provisioned_typed :
    base32Decode " jbuq==== " = some [72, 105] ∧
    verify (fun _ _ _ => 1) " jbuq==== " " 843009 " 59 := by
  have hs : Spells " jbuq==== " [72, 105] :=
    ⟨['j', 'b', 'u', 'q'], ['=', '=', '=', '='], by decide, by simp, by decide⟩
  have h := provisioned (fun _ _ _ => 1) hs
  refine ⟨h.left, (h.right.right 59 (by decide) (by decide) _).mpr ⟨30, ⟨by decide, by decide⟩, ?_⟩⟩
  rw [codeAt, h.left]
  decide

end Codes

end Totp
