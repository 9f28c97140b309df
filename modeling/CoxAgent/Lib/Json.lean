import Mathlib.Data.List.Basic
import Mathlib.Data.Option.Basic

-- A JSON text. Strings are what stands between their quotes, and numbers are as they are written.
inductive Json
  | null
  | bool (b : Bool)
  | num (text : List Char)
  | str (raw : List Char)
  | arr (items : List Json)
  | obj (fields : List (List Char × Json))
deriving Inhabited

-- JSON is read one character after the other, by a machine with a stack of what is open.
namespace Json

def isBlank (c : Char) : Bool :=
  c = ' ' || c = '\n' || c = '\t' || c = '\r'

-- What is open around the place that is read, with what has been read of it.
inductive Frame
  | arr (items : List Json)
  | obj (fields : List (List Char × Json)) (key : List Char)

-- How far a number is read.
inductive NumMode
  | minus | zero | int | point | frac | exp | sign | digits
deriving DecidableEq

inductive StrMode
  | plain
  | escaped
  | hex (left : Nat)
deriving DecidableEq

-- What may come next.
inductive Mode
  | value
  | valueOrEnd
  | key
  | keyOrEnd
  | colon
  | str (isKey : Bool) (mode : StrMode) (raw : List Char)
  | lit (rest : List Char) (v : Json)
  | num (mode : NumMode) (text : List Char)
  | after (v : Json)

structure Reader where
  mode  : Mode
  stack : List Frame

-- What a reader takes beyond the grammar: which strings and numbers, and how deeply they may be nested.
structure Limits where
  text   : List Char → Bool
  number : List Char → Bool
  depth  : Nat → Bool

def Limits.none : Limits where
  text _   := true
  number _ := true
  depth _  := true

namespace NumMode

def next : NumMode → Char → Option NumMode
  | minus,  c => if c = '0' then some zero else if c.isDigit then some int else none
  | zero,   c => if c = '.' then some point else if c = 'e' ∨ c = 'E' then some exp else none
  | int,    c =>
    if c.isDigit then some int else if c = '.' then some point else if c = 'e' ∨ c = 'E' then some exp else none
  | point,  c => if c.isDigit then some frac else none
  | frac,   c => if c.isDigit then some frac else if c = 'e' ∨ c = 'E' then some exp else none
  | exp,    c => if c.isDigit then some digits else if c = '+' ∨ c = '-' then some sign else none
  | sign,   c => if c.isDigit then some digits else none
  | digits, c => if c.isDigit then some digits else none

def complete : NumMode → Bool
  | zero | int | frac | digits => true
  | _                          => false

end NumMode

def isHex (c : Char) : Bool :=
  c.isDigit || ('a' ≤ c && c ≤ 'f') || ('A' ≤ c && c ≤ 'F')

-- One more character of a string that is not at its end.
def StrMode.next : StrMode → Char → Option StrMode
  | plain,         c => if c = '\x5c' then some escaped else if c.toNat < 0x20 then none else some plain
  | escaped,       c =>
    if c = 'u' then
      some (hex 3)
    else if c ∈ ['\x22', '\x5c', '/', 'b', 'f', 'n', 'r', 't'] then
      some plain
    else
      none
  | hex 0,         c => if isHex c then some plain else none
  | hex (left + 1), c => if isHex c then some (hex left) else none

namespace Reader

variable (lim : Limits)

-- A value begins.
def openValue (c : Char) (stack : List Frame) : Option Reader :=
  if c = '\x22' then
    some ⟨.str false .plain [], stack⟩
  else if c = '[' then
    if lim.depth (stack.length + 1) then some ⟨.valueOrEnd, .arr [] :: stack⟩ else none
  else if c = '{' then
    if lim.depth (stack.length + 1) then some ⟨.keyOrEnd, .obj [] [] :: stack⟩ else none
  else if c = 't' then
    some ⟨.lit "rue".toList (.bool true), stack⟩
  else if c = 'f' then
    some ⟨.lit "alse".toList (.bool false), stack⟩
  else if c = 'n' then
    some ⟨.lit "ull".toList .null, stack⟩
  else if c = '-' then
    some ⟨.num .minus [c], stack⟩
  else
    (NumMode.minus.next c).map fun m => ⟨.num m [c], stack⟩

-- A value is complete, and something that is no blank comes after it.
def closeValue (v : Json) (c : Char) : List Frame → Option Reader
  | []                        => none
  | .arr items :: stack       =>
    if c = ',' then
      some ⟨.value, .arr (items ++ [v]) :: stack⟩
    else if c = ']' then
      some ⟨.after (.arr (items ++ [v])), stack⟩
    else
      none
  | .obj fields name :: stack =>
    if c = ',' then
      some ⟨.key, .obj (fields ++ [(name, v)]) [] :: stack⟩
    else if c = '}' then
      some ⟨.after (.obj (fields ++ [(name, v)])), stack⟩
    else
      none

def endArray : List Frame → Option Reader
  | .arr items :: stack => some ⟨.after (.arr items), stack⟩
  | _                   => none

def endObject : List Frame → Option Reader
  | .obj fields _ :: stack => some ⟨.after (.obj fields), stack⟩
  | _                      => none

-- A string is complete.
def endString (isKey : Bool) (raw : List Char) (stack : List Frame) : Option Reader :=
  if !lim.text raw then
    none
  else if isKey then
    match stack with
    | .obj fields _ :: stack => some ⟨.colon, .obj fields raw :: stack⟩
    | _                      => none
  else
    some ⟨.after (.str raw), stack⟩

def step (r : Reader) (c : Char) : Option Reader :=
  match r.mode with
  | .value            => if isBlank c then some r else openValue lim c r.stack
  | .valueOrEnd       =>
    if isBlank c then some r else if c = ']' then endArray r.stack else openValue lim c r.stack
  | .key              =>
    if isBlank c then some r else if c = '\x22' then some { r with mode := .str true .plain [] } else none
  | .keyOrEnd         =>
    if isBlank c then
      some r
    else if c = '}' then
      endObject r.stack
    else if c = '\x22' then
      some { r with mode := .str true .plain [] }
    else
      none
  | .colon            =>
    if isBlank c then some r else if c = ':' then some { r with mode := .value } else none
  | .str isKey m raw  =>
    if m = .plain ∧ c = '\x22' then
      endString lim isKey raw r.stack
    else
      (m.next c).map fun m => { r with mode := .str isKey m (raw ++ [c]) }
  | .lit rest v       =>
    match rest with
    | []        => none
    | [x]       => if c = x then some { r with mode := .after v } else none
    | x :: rest => if c = x then some { r with mode := .lit rest v } else none
  | .num m text       =>
    match m.next c with
    | some m => some { r with mode := .num m (text ++ [c]) }
    | none   =>
      if !(m.complete && lim.number text) then
        none
      else if isBlank c then
        some { r with mode := .after (.num text) }
      else
        closeValue (.num text) c r.stack
  | .after v          => if isBlank c then some r else closeValue v c r.stack

def init : Reader :=
  ⟨.value, []⟩

def run (r : Reader) (cs : List Char) : Option Reader :=
  cs.foldlM (step lim) r

-- The value that has been read, if nothing is open.
def result (r : Reader) : Option Json :=
  match r.stack, r.mode with
  | [], .after v    => some v
  | [], .num m text => if m.complete && lim.number text then some (.num text) else none
  | _, _            => none

end Reader

def read (lim : Limits) (cs : List Char) : Option Json :=
  Reader.init.run lim cs >>= Reader.result lim

section Unescape

def hexValue (c : Char) : Nat :=
  if c.isDigit then c.toNat - 0x30 else if c ≤ 'F' then c.toNat - 0x37 else c.toNat - 0x57

def unescapeShort (c : Char) : Char :=
  match c with
  | 'b' => Char.ofNat 8
  | 'f' => Char.ofNat 12
  | 'n' => '\n'
  | 'r' => '\r'
  | 't' => '\t'
  | c   => c

-- What comes next in a string: a character, what follows a backslash, the digits of a code unit, or the
-- second unit of a pair.
inductive Pending
  | char
  | escaped
  | hex (left acc : Nat) (high : Option Nat)
  | low (high : Nat)
  | lowUnit (high : Nat)

def codeUnit (out : List Char) (unit : Nat) : Option Nat → Option (List Char × Pending)
  | none      =>
    if 0xdc00 ≤ unit ∧ unit ≤ 0xdfff then
      none
    else if 0xd800 ≤ unit ∧ unit ≤ 0xdbff then
      some (out, .low unit)
    else
      some (out ++ [Char.ofNat unit], .char)
  | some high =>
    if 0xdc00 ≤ unit ∧ unit ≤ 0xdfff then
      some (out ++ [Char.ofNat (0x10000 + (high - 0xd800) * 0x400 + (unit - 0xdc00))], .char)
    else
      none

def unescapeStep : List Char × Pending → Char → Option (List Char × Pending)
  | (out, .char),               c => if c = '\x5c' then some (out, .escaped) else some (out ++ [c], .char)
  | (out, .escaped),            c =>
    if c = 'u' then some (out, .hex 3 0 none) else some (out ++ [unescapeShort c], .char)
  | (out, .hex 0 acc high),     c => codeUnit out (acc * 16 + hexValue c) high
  | (out, .hex (n + 1) acc high), c => some (out, .hex n (acc * 16 + hexValue c) high)
  | (out, .low high),           c => if c = '\x5c' then some (out, .lowUnit high) else none
  | (out, .lowUnit high),       c => if c = 'u' then some (out, .hex 3 0 (some high)) else none

-- The text of a string. Half of a pair of code units is none.
def unescape (raw : List Char) : Option String :=
  match raw.foldlM unescapeStep ([], .char) with
  | some (out, .char) => some (.ofList out)
  | _                 => none

end Unescape
end Json

-- How the values of records are read from JSON: the rules of derived deserialization.
namespace Serde

open Json

variable {α : Type}

def text : Json → Option String
  | .str raw => unescape raw
  | _        => none

def boolean : Json → Option Bool
  | .bool b => some b
  | _       => none

def list (f : Json → Option α) : Json → Option (List α)
  | .arr items => items.mapM f
  | _          => none

def optional (f : Json → Option α) : Json → Option (Option α)
  | .null => some none
  | j     => (f j).map some

-- A variant without content, by its name or as an object of one field.
def variant (names : List (String × α)) : Json → Option α
  | .str raw           => unescape raw >>= (List.lookup · names)
  | .obj [(key, null)] => unescape key >>= (List.lookup · names)
  | _                  => none

-- What a record has for each of its fields. An object has no field twice, and others do not matter. An
-- array has the fields in their order, those at its end may lack.
def fields (names : List String) : Json → Option (List (Option Json))
  | .obj entries => do
    let entries ← entries.mapM fun (key, v) => (unescape key).map (·, v)
    if names.any fun n => 1 < entries.countP (·.1 = n) then
      none
    else
      return names.map (List.lookup · entries)
  | .arr items   =>
    if items.length ≤ names.length then
      some (items.map some ++ List.replicate (names.length - items.length) none)
    else
      none
  | _            => none

def required (f : Json → Option α) : Option Json → Option α
  | none   => none
  | some j => f j

-- A field that may lack.
def defaulted (d : α) (f : Json → Option α) : Option Json → Option α
  | none   => some d
  | some j => f j

section Plain

variable {raw : List Char}

theorem foldlM_unescapeStep {out : List Char} (h : '\x5c' ∉ raw) :
    raw.foldlM unescapeStep (out, .char) = some (out ++ raw, .char) := by
  induction raw generalizing out
  case nil => simp
  case cons c raw hi =>
    rw [List.mem_cons, not_or] at h
    have hs : unescapeStep (out, .char) c = some (out ++ [c], .char) := if_neg (Ne.symm h.1)
    rw [List.foldlM_cons, hs]
    exact (hi h.2).trans (by simp)

-- A string without a backslash is the text.
theorem text_str (h : '\x5c' ∉ raw) : text (.str raw) = some (.ofList raw) := by
  simp only [text, unescape, foldlM_unescapeStep h, List.nil_append]

end Plain

end Serde
