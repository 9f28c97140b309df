import Mathlib.Data.List.Basic
import Mathlib.Logic.Function.Iterate

-- Bytes as hexadecimal texts, and digests.

-- What SHA-256 returns.
abbrev Digest := Vector UInt8 32

def hexDigits : List Char :=
  ['0', '1', '2', '3', '4', '5', '6', '7', '8', '9', 'a', 'b', 'c', 'd', 'e', 'f']

def toHex (bytes : List UInt8) : String :=
  .ofList <| bytes.flatMap fun b : UInt8 =>
    [hexDigits.getD (b.toNat >>> 4) '0', hexDigits.getD (b.toNat &&& 0x0f) '0']

theorem hexDigits_inj {m n : Nat} (hm : m < 16) (hn : n < 16)
    (h : hexDigits.getD m '0' = hexDigits.getD n '0') : m = n := by
  have : ∀ m < 16, ∀ n < 16, hexDigits.getD m '0' = hexDigits.getD n '0' → m = n := by decide
  exact this m hm n hn h

theorem toHex_inj {bs bs' : List UInt8} (h : toHex bs = toHex bs') : bs = bs' := by
  replace h := String.ofList_inj.mp h
  induction bs generalizing bs'
  case nil => cases bs' <;> simp_all
  case cons b bs hi =>
    cases bs'
    case nil => simp at h
    case cons b' bs' =>
      simp only [List.flatMap_cons, List.cons_append, List.nil_append, List.cons.injEq] at h
      have ⟨hh, hl, hr⟩ := h
      have low (b : UInt8) : b.toNat &&& 0x0f = b.toNat % 16 := by
        simpa using Nat.and_two_pow_sub_one_eq_mod b.toNat 4
      have high (b : UInt8) : b.toNat >>> 4 = b.toNat / 16 := by
        simpa using Nat.shiftRight_eq_div_pow b.toNat 4
      have hb := b.toNat_lt
      have hb' := b'.toNat_lt
      simp only [low, high] at hh hl
      have hh := hexDigits_inj (by omega) (by omega) hh
      have hl := hexDigits_inj (by omega) (by omega) hl
      have he : b = b' := UInt8.toNat_inj.mp (by omega)
      rw [he, hi hr]

theorem length_toHex (bs : List UInt8) : (toHex bs).toList.length = 2 * bs.length := by
  simp [toHex, List.length_flatMap]
  omega

-- SHA-256, for the checks that are run.
namespace Sha256

def initial : List UInt32 := [
  0x6a09e667, 0xbb67ae85, 0x3c6ef372, 0xa54ff53a, 0x510e527f, 0x9b05688c, 0x1f83d9ab, 0x5be0cd19]

def constants : List UInt32 := [
  0x428a2f98, 0x71374491, 0xb5c0fbcf, 0xe9b5dba5, 0x3956c25b, 0x59f111f1, 0x923f82a4, 0xab1c5ed5,
  0xd807aa98, 0x12835b01, 0x243185be, 0x550c7dc3, 0x72be5d74, 0x80deb1fe, 0x9bdc06a7, 0xc19bf174,
  0xe49b69c1, 0xefbe4786, 0x0fc19dc6, 0x240ca1cc, 0x2de92c6f, 0x4a7484aa, 0x5cb0a9dc, 0x76f988da,
  0x983e5152, 0xa831c66d, 0xb00327c8, 0xbf597fc7, 0xc6e00bf3, 0xd5a79147, 0x06ca6351, 0x14292967,
  0x27b70a85, 0x2e1b2138, 0x4d2c6dfc, 0x53380d13, 0x650a7354, 0x766a0abb, 0x81c2c92e, 0x92722c85,
  0xa2bfe8a1, 0xa81a664b, 0xc24b8b70, 0xc76c51a3, 0xd192e819, 0xd6990624, 0xf40e3585, 0x106aa070,
  0x19a4c116, 0x1e376c08, 0x2748774c, 0x34b0bcb5, 0x391c0cb3, 0x4ed8aa4a, 0x5b9cca4f, 0x682e6ff3,
  0x748f82ee, 0x78a5636f, 0x84c87814, 0x8cc70208, 0x90befffa, 0xa4506ceb, 0xbef9a3f7, 0xc67178f2]

def rotr (x n : UInt32) : UInt32 :=
  (x >>> n) ||| (x <<< (32 - n))

-- A one bit, zeros up to the next multiple of 64 bytes but eight, and the length in bits.
def pad (bytes : List UInt8) : List UInt8 :=
  let zeros := (119 - bytes.length % 64) % 64
  let bits := 8 * bytes.length
  let size := [56, 48, 40, 32, 24, 16, 8, 0].map fun n => UInt8.ofNat (bits >>> n)
  bytes ++ 0x80 :: List.replicate zeros 0 ++ size

def words : List UInt8 → List UInt32
  | a :: b :: c :: d :: rest =>
    ((a.toUInt32 <<< 24) ||| (b.toUInt32 <<< 16) ||| (c.toUInt32 <<< 8) ||| d.toUInt32) :: words rest
  | _ => []

-- The next word of the schedule, which is kept in reverse.
def extend (w : List UInt32) : List UInt32 :=
  let a := w.getD 1 0
  let b := w.getD 14 0
  let s₁ := rotr a 17 ^^^ rotr a 19 ^^^ (a >>> 10)
  let s₀ := rotr b 7 ^^^ rotr b 18 ^^^ (b >>> 3)
  (s₁ + w.getD 6 0 + s₀ + w.getD 15 0) :: w

def schedule (block : List UInt32) : List UInt32 :=
  (Nat.iterate extend 48 block.reverse).reverse

def round (h : List UInt32) (k w : UInt32) : List UInt32 :=
  match h with
  | [a, b, c, d, e, f, g, h] =>
    let t₁ := h + (rotr e 6 ^^^ rotr e 11 ^^^ rotr e 25) + ((e &&& f) ^^^ (~~~e &&& g)) + k + w
    let t₂ := (rotr a 2 ^^^ rotr a 13 ^^^ rotr a 22) + ((a &&& b) ^^^ (a &&& c) ^^^ (b &&& c))
    [t₁ + t₂, a, b, c, d + t₁, e, f, g]
  | h => h

def compress (h block : List UInt32) : List UInt32 :=
  let mixed := (constants.zip (schedule block)).foldl (fun h kw => round h kw.1 kw.2) h
  h.zipWith (· + ·) mixed

def blocks : Nat → List UInt32 → List UInt32 → List UInt32
  | 0, h, _     => h
  | n + 1, h, w => blocks n (compress h (w.take 16)) (w.drop 16)

def digest (bytes : ByteArray) : Digest :=
  let w := words (pad bytes.data.toList)
  let h := blocks (w.length / 16) initial w
  .ofFn fun i => UInt8.ofNat ((h.getD (i.val / 4) 0).toNat >>> (8 * (3 - i.val % 4)))

example : toHex (digest ⟨#[]⟩).toList = "e3b0c44298fc1c149afbf4c8996fb92427ae41e4649b934ca495991b7852b855" := by
  decide +kernel

end Sha256
