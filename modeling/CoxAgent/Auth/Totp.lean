import CoxAgent.Lib.Bits
import CoxAgent.Lib.Text

-- HMAC with SHA-1: a key and a message to a digest of twenty bytes.
abbrev Mac := List UInt8 → List UInt8 → Fin 20 → UInt8

namespace Totp

def period : Nat := 30
def digits : Nat := 6

def alphabet : List Char :=
  ['A', 'B', 'C', 'D', 'E', 'F', 'G', 'H', 'I', 'J', 'K', 'L', 'M', 'N', 'O', 'P', 'Q', 'R', 'S', 'T', 'U', 'V', 'W',
    'X', 'Y', 'Z', '2', '3', '4', '5', '6', '7']

-- The `while` loop of the encoder ends when fewer than five bits are left.
def base32Encode (data : List UInt8) : String :=
  let s := Bits.feedAll 32 5 8 id (data.map (·.toNat))
  let last := if 0 < s.bits then [(s.buffer <<< (5 - s.bits)) % 2 ^ 5] else []
  .ofList ((s.out ++ last).map (alphabet.getD · 'A'))

-- The values of the characters up to the padding, unless one of them is foreign.
def base32Values : List Char → Option (List Nat)
  | []      => some []
  | c :: cs =>
    if c = '=' then
      some []
    else
      let pos := alphabet.findIdx (· = c.toUpper)
      if pos < alphabet.length then (base32Values cs).map (pos :: ·) else none

-- Each character completes at most one byte.
def base32Decode (s : String) : Option (List UInt8) :=
  (base32Values (Text.trim s).toList).map fun values =>
    (Bits.feedAll 32 8 5 (fun _ => 1) values).out.map UInt8.ofNat

def bigEndian (counter : Nat) : List UInt8 :=
  (List.range 8).map fun i => UInt8.ofNat (counter >>> (8 * (7 - i)))

variable (mac : Mac)

-- A code for a counter. The place that is read is given by the last half byte of the digest.
def hotp (key : List UInt8) (counter : Nat) : String :=
  let hs := mac key (bigEndian counter)
  let offset := (hs 19).toNat % 16
  have h : offset < 16 := Nat.mod_lt _ (by decide)
  let bin := ((hs ⟨offset, by omega⟩).toNat % 128) <<< 24 ||| (hs ⟨offset + 1, by omega⟩).toNat <<< 16 |||
    (hs ⟨offset + 2, by omega⟩).toNat <<< 8 ||| (hs ⟨offset + 3, by omega⟩).toNat
  .ofList (Text.zeroPad digits (bin % 10 ^ digits))

def codeAt (secret : String) (unix : Nat) : Option String :=
  (base32Decode secret).map fun key => hotp mac key (unix / period)

-- The code of the last, the current or the next period. Counters are an `u64`.
def verify (secret code : String) (unix : Nat) : Bool :=
  match base32Decode secret with
  | none     => false
  | some key =>
    let counter := unix / period
    [(counter + 18446744073709551615) % 18446744073709551616, counter, counter + 1].any
      fun c => hotp mac key c = Text.trim code

-- What an authenticator imports.
def provisioningUri (secret account issuer : String) : String :=
  s!"otpauth://totp/{issuer}:{account}?secret={secret}&issuer={issuer}&algorithm=SHA1&digits={digits}&period={period}"

end Totp
