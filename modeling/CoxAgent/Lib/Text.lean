import Mathlib.Data.List.DropRight
import Mathlib.Data.List.Infix
import Mathlib.Data.String.Basic

-- Texts with the Unicode notion of white space.
namespace Text

-- The characters with the property `White_Space`.
def isWhitespace (c : Char) : Bool :=
  let n := c.toNat
  (0x09 ≤ n ∧ n ≤ 0x0d) ∨ n = 0x20 ∨ n = 0x85 ∨ n = 0xa0 ∨ n = 0x1680 ∨
  (0x2000 ≤ n ∧ n ≤ 0x200a) ∨ n = 0x2028 ∨ n = 0x2029 ∨ n = 0x202f ∨ n = 0x205f ∨ n = 0x3000

def trimChars (cs : List Char) : List Char :=
  cs.dropWhile isWhitespace |>.rdropWhile isWhitespace

def trim (s : String) : String :=
  .ofList (trimChars s.toList)

-- The first `n` bytes, if they end between two characters.
def bytePrefix : Nat → List Char → Option (List Char)
  | 0, _           => some []
  | _ + 1, []      => none
  | n + 1, c :: cs =>
    if c.utf8Size ≤ n + 1 then
      (c :: ·) <$> bytePrefix (n + 1 - c.utf8Size) cs
    else
      none

-- The first `n` bytes of a longer text. There is no result if the cut falls within a character: the source
-- panics.
def truncate (n : Nat) (s : String) : Option String :=
  if n ≤ s.utf8ByteSize then
    (bytePrefix n s.toList).map .ofList
  else
    some s

-- The longest prefix of at most `n` bytes.
def takeBytes (n : Nat) : List Char → List Char
  | []      => []
  | c :: cs => if c.utf8Size ≤ n then c :: takeBytes (n - c.utf8Size) cs else []

-- A decimal number below the bound, with or without a plus sign.
def parseBelow (bound : Nat) (cs : List Char) : Option Nat :=
  let digits := match cs with
    | '+' :: ds => ds
    | ds        => ds
  if digits ≠ [] ∧ digits.all (·.isDigit) ∧ Nat.ofDigitChars 10 digits 0 < bound then
    some (Nat.ofDigitChars 10 digits 0)
  else
    none

-- A decimal number with leading zeros up to the given width.
def zeroPad (width n : Nat) : List Char :=
  let digits := Nat.toDigits 10 n
  List.replicate (width - digits.length) '0' ++ digits

def startsWith (s pre : String) : Bool :=
  pre.toList.isPrefixOf s.toList

def stripPrefix (s pre : String) : Option String :=
  if startsWith s pre then some (.ofList (s.toList.drop pre.length)) else none

def contains (s sub : String) : Bool :=
  s.toList.tails.any (sub.toList.isPrefixOf ·)

def stripCr (l : List Char) : List Char :=
  if l.getLast? = some '\r' then l.dropLast else l

-- The lines without their endings. The last line has none, and does not count if it is empty.
def lines (s : String) : List String :=
  let parts := s.toList.splitOn '\n'
  let last := parts.getLastD []
  (parts.dropLast.map stripCr ++ if last = [] then [] else [last]).map .ofList

-- The parts between white space.
def words (s : String) : List String :=
  (s.toList.splitOnP isWhitespace).filter (· ≠ []) |>.map .ofList

-- What the standard library knows about characters beyond ASCII.
structure Unicode where
  toLowercase    : String → String
  isAlphanumeric : Char → Bool

def ascii : Unicode where
  toLowercase s    := .ofList (s.toList.map (·.toLower))
  isAlphanumeric c := c.isAlphanum

def Blank (s : String) : Prop :=
  trim s = ""

instance (s : String) : Decidable (Blank s) :=
  inferInstanceAs (Decidable (trim s = ""))

theorem trimChars_trimChars (cs : List Char) : trimChars (trimChars cs) = trimChars cs := by
  have hp : trimChars cs <+: cs.dropWhile isWhitespace := List.rdropWhile_prefix _ _
  have hd : (trimChars cs).dropWhile isWhitespace = trimChars cs := by
    rw [List.dropWhile_eq_self_iff]
    intro hl
    rw [hp.getElem hl]
    exact List.dropWhile_get_zero_not _ _ _
  rw [trimChars, hd]
  exact List.rdropWhile_idempotent _ _

@[simp]
theorem trim_trim (s : String) : trim (trim s) = trim s := by
  simp [trim, trimChars_trimChars]

theorem trimChars_eq_of_length {cs : List Char} (h : (trimChars cs).length = cs.length) : trimChars cs = cs := by
  have hs : (trimChars cs).Sublist cs :=
    (List.rdropWhile_prefix _ _).sublist.trans (List.dropWhile_suffix _).sublist
  exact hs.eq_of_length h

theorem trimChars_map {f : Char → Char} (hf : ∀ c, isWhitespace (f c) = isWhitespace c) (cs : List Char) :
    trimChars (cs.map f) = (trimChars cs).map f := by
  have hp : isWhitespace ∘ f = isWhitespace := funext hf
  simp only [trimChars, List.rdropWhile, List.dropWhile_map, ← List.map_reverse, hp]

theorem toNat_toLower (c : Char) :
    c.toLower.toNat = if 65 ≤ c.toNat ∧ c.toNat ≤ 90 then c.toNat + 32 else c.toNat := by
  have hu : c.val ≥ 'A'.val ∧ c.val ≤ 'Z'.val ↔ 65 ≤ c.toNat ∧ c.toNat ≤ 90 := by
    simp [UInt32.le_iff_toNat_le]
  delta Char.toLower
  split
  case isFalse h => rw [if_neg (mt hu.mpr h)]
  case isTrue h  =>
    have hn := hu.mp h
    have hv : c.val.toNat = c.toNat := rfl
    have hd : (32 : UInt32).toNat = 32 := rfl
    rw [if_pos hn]
    change (c.val + 32).toNat = c.toNat + 32
    rw [UInt32.toNat_add, Nat.mod_eq_of_lt (by omega), hv, hd]

theorem isWhitespace_toLower (c : Char) : isWhitespace c.toLower = isWhitespace c := by
  simp only [isWhitespace, toNat_toLower]
  grind

-- A text that starts with a word has more than white space.
theorem not_blank_append {pre s : String} {c : Char} (hc : c ∈ pre.toList)
    (hw : !isWhitespace c) : ¬Blank (pre ++ s) := by
  intro h
  have ht : trimChars (pre ++ s).toList = [] := by simpa [Blank, trim] using h
  have hc : c ∈ (pre ++ s).toList := by simp [hc]
  rw [trimChars, List.rdropWhile_eq_nil_iff] at ht
  rw [← List.takeWhile_append_dropWhile (p := isWhitespace) (l := (pre ++ s).toList),
    List.mem_append] at hc
  cases hc
  case inl hc => simp [List.mem_takeWhile_imp hc] at hw
  case inr hc => simp [ht c hc] at hw

theorem repr_inj {m n : Nat} (h : m.repr = n.repr) : m = n := by
  have hd : Nat.toDigits 10 m = Nat.toDigits 10 n := by
    simpa using congrArg String.toList h
  calc m = Nat.ofDigitChars 10 (Nat.toDigits 10 m) 0 := Nat.ofDigitChars_ten_toDigits.symm
       _ = n := by rw [hd, Nat.ofDigitChars_ten_toDigits]

theorem isDigit_of_mem_repr {n : Nat} {c : Char} (h : c ∈ n.repr.toList) : c.isDigit := by
  rw [Nat.toList_repr] at h
  exact Nat.isDigit_of_mem_toDigits (by decide) (by decide) h

theorem not_mem_repr {n : Nat} {c : Char} (hc : !c.isDigit) : c ∉ n.repr.toList := by
  intro h
  simp [isDigit_of_mem_repr h] at hc

theorem isDigit_of_mem_zeroPad {width n : Nat} {c : Char} (h : c ∈ zeroPad width n) :
    c.isDigit := by
  cases List.mem_append.mp h
  case inl h =>
    cases List.eq_of_mem_replicate h
    rfl
  case inr h => exact Nat.isDigit_of_mem_toDigits (by decide) (by decide) h

theorem zeroPad_ne_nil {width n : Nat} : zeroPad width n ≠ [] := by
  simp [zeroPad]

theorem parseBelow_zeroPad {bound width n : Nat} (h : n < bound) :
    parseBelow bound (zeroPad width n) = some n := by
  have hs : (match zeroPad width n with | '+' :: ds => ds | ds => ds) = zeroPad width n := by
    split
    case h_1 ds hp =>
      have hc : '+' ∈ zeroPad width n := by simp [hp]
      exact absurd (isDigit_of_mem_zeroPad hc) (by decide)
    case h_2 => rfl
  have hv : Nat.ofDigitChars 10 (zeroPad width n) 0 = n := by
    simp [zeroPad, Nat.ofDigitChars_append, Nat.ofDigitChars_replicate_zero]
  have hd : (zeroPad width n).all (·.isDigit) := List.all_eq_true.mpr fun _ => isDigit_of_mem_zeroPad
  simp [parseBelow, hs, hv, hd, h, zeroPad_ne_nil]

-- Two lists whose last parts lack the separator split at the same place.
theorem append_sep_inj {α : Type} {sep : α} {l l' m m' : List α} (hm : sep ∉ m) (hm' : sep ∉ m')
    (h : l ++ sep :: m = l' ++ sep :: m') : l = l' ∧ m = m' := by
  cases List.append_eq_append_iff.mp h
  case inl h =>
    obtain ⟨k, hl, hk⟩ := h
    cases k <;> simp_all
  case inr h =>
    obtain ⟨k, hl, hk⟩ := h
    cases k <;> simp_all

-- Blocks that end with the separator and hold equally many of them cover the same part of a text.
theorem append_block_inj {α : Type} [DecidableEq α] {sep : α} {l l' m m' : List α}
    (hl : l.getLast? = some sep) (hl' : l'.getLast? = some sep) (hc : l.count sep = l'.count sep)
    (h : l ++ m = l' ++ m') : l = l' ∧ m = m' := by
  -- The rest of the longer block would end with one more separator.
  have rest {k : List α} (hk : k.getLast? = some sep) : 0 < k.count sep :=
    List.count_pos_iff.mpr (List.mem_of_getLast? hk)
  cases List.append_eq_append_iff.mp h
  case inl h =>
    obtain ⟨k, rfl, hm⟩ := h
    cases k
    case nil => simp_all
    case cons a k =>
      have := rest (k := a :: k) (by simpa [List.getLast?_append] using hl')
      rw [List.count_append] at hc
      omega
  case inr h =>
    obtain ⟨k, rfl, hm⟩ := h
    cases k
    case nil => simp_all
    case cons a k =>
      have := rest (k := a :: k) (by simpa [List.getLast?_append] using hl)
      rw [List.count_append] at hc
      omega

-- The last of some parts is the last segment of the text that they make, if it has no separator.
theorem getLast?_splitOn_intercalate {α : Type} [DecidableEq α] {sep : α} {parts : List (List α)}
    {l : List α} (hl : sep ∉ l) : (([sep].intercalate (parts ++ [l])).splitOn sep).getLast? = some l := by
  have single : l.splitOn sep = [l] := List.splitOn_eq_singleton hl
  induction parts
  case nil => simp [single]
  case cons part parts hi =>
    have happ : [sep].intercalate (part :: parts ++ [l]) = part ++ sep :: [sep].intercalate (parts ++ [l]) := by
      rw [List.cons_append, List.intercalate_cons_of_ne_nil (by simp)]
      simp
    rw [happ, List.splitOn_append_cons_self, List.getLast?_append, hi]
    rfl

-- The lower case of the characters, which may be several. A capital sigma alone depends on the text
-- around it: it is another letter at the end of a word.
structure Lowercase where
  char    : Char → List Char
  isFinal : List Char → List Char → Bool

namespace Lowercase

def chars (l : Lowercase) (before : List Char) : List Char → List Char
  | []      => []
  | c :: cs =>
    let low := if c = 'Σ' then [if l.isFinal before cs then 'ς' else 'σ'] else l.char c
    low ++ chars l (before ++ [c]) cs

def toLowercase (l : Lowercase) (s : String) : String :=
  .ofList (l.chars [] s.toList)

def ascii : Lowercase where
  char c      := [c.toLower]
  isFinal _ _ := false

-- The two small letters are one.
def mergeSigma (c : Char) : Char :=
  if c = 'ς' then 'σ' else c

variable {l : Lowercase} {p before cs : List Char}

-- Up to the two letters a text is lowered character by character.
theorem map_mergeSigma_chars : (l.chars before cs).map mergeSigma =
    cs.flatMap fun c => if c = 'Σ' then ['σ'] else (l.char c).map mergeSigma := by
  induction cs generalizing before
  case nil => rfl
  case cons c cs hi =>
    have hc : (if c = 'Σ' then [if l.isFinal before cs then 'ς' else 'σ'] else l.char c).map mergeSigma =
        if c = 'Σ' then ['σ'] else (l.char c).map mergeSigma := by
      by_cases h : c = 'Σ' <;> cases hf : l.isFinal before cs <;> simp [h, mergeSigma]
    rw [chars, List.map_append, hi, hc, List.flatMap_cons]

theorem map_mergeSigma_eq (h : cs.map mergeSigma = p) (hp : 'σ' ∉ p) : cs = p := by
  induction cs generalizing p
  case nil => exact h
  case cons c cs hi =>
    subst h
    rw [List.map_cons, List.mem_cons, not_or] at hp
    have hc : mergeSigma c = c := by
      unfold mergeSigma at hp ⊢
      split <;> simp_all
    rw [List.map_cons, hc, ← hi rfl hp.right]

theorem infix_of_map_mergeSigma (hp : 'σ' ∉ p) (h : p <:+: cs.map mergeSigma) : p <:+: cs := by
  obtain ⟨t, t', he⟩ := h
  obtain ⟨m, c, hcs, hm, -⟩ := List.map_eq_append_iff.mp he.symm
  obtain ⟨a, b, hab, -, hb⟩ := List.map_eq_append_iff.mp hm
  exact ⟨a, c, by rw [hcs, hab, map_mergeSigma_eq hb hp]⟩

theorem infix_map_mergeSigma (hp : 'ς' ∉ p) (h : p <:+: cs) : p <:+: cs.map mergeSigma := by
  have hc : ∀ c ∈ p, mergeSigma c = id c := fun c hc =>
    if_neg (ne_of_mem_of_not_mem hc hp)
  have hm : p.map mergeSigma = p := by
    rw [List.map_congr_left hc, List.map_id]
  exact hm ▸ h.map mergeSigma

end Lowercase

theorem contains_iff {s sub : String} : contains s sub ↔ sub.toList <:+: s.toList := by
  rw [contains, List.any_eq_true, List.infix_iff_prefix_suffix]
  simp only [List.mem_tails, List.isPrefixOf_iff_prefix]
  exact exists_congr fun _ => And.comm

namespace Lowercase

variable {l : Lowercase} {s pre post p : String}

-- What is found in a text in lower case is found in a longer one too.
theorem contains_append (hp : 'σ' ∉ p.toList) (hp' : 'ς' ∉ p.toList)
    (h : contains (l.toLowercase s) p) : contains (l.toLowercase (pre ++ s ++ post)) p := by
  rw [contains_iff] at h ⊢
  simp only [toLowercase, String.toList_ofList, String.toList_append] at h ⊢
  apply infix_of_map_mergeSigma hp
  have hs : p.toList <:+: (l.chars [] s.toList).map mergeSigma := infix_map_mergeSigma hp' h
  rw [map_mergeSigma_chars] at hs ⊢
  rw [List.flatMap_append, List.flatMap_append]
  exact hs.trans ⟨_, _, rfl⟩

end Lowercase

section Bytes

variable {n : Nat} {c : Char} {cs p : List Char} {s t : String}

def byteSize (cs : List Char) : Nat :=
  (String.ofList cs).utf8ByteSize

@[simp]
theorem byteSize_nil : byteSize [] = 0 :=
  rfl

@[simp]
theorem byteSize_cons : byteSize (c :: cs) = c.utf8Size + byteSize cs := by
  rw [byteSize, String.ofList_cons, String.utf8ByteSize_append, String.utf8ByteSize_singleton, byteSize]

@[simp]
theorem byteSize_append {cs' : List Char} : byteSize (cs ++ cs') = byteSize cs + byteSize cs' := by
  induction cs
  case nil          => simp
  case cons c cs hi => simp [hi, Nat.add_assoc]

theorem byteSize_replicate : byteSize (List.replicate n c) = n * c.utf8Size := by
  induction n
  case zero      => simp
  case succ n hi => rw [List.replicate_succ, byteSize_cons, hi, Nat.succ_mul, Nat.add_comm]

theorem byteSize_toList : byteSize s.toList = s.utf8ByteSize := by
  rw [byteSize, String.ofList_toList]

theorem byteSize_eq_zero : byteSize p = 0 ↔ p = [] := by
  cases p
  case nil      => simp
  case cons c p =>
    have hc := c.utf8Size_pos
    simp
    omega

-- The cut falls between two characters.
theorem bytePrefix_eq_some : bytePrefix n cs = some p ↔ p <+: cs ∧ byteSize p = n := by
  induction n, cs using bytePrefix.induct generalizing p
  case case1 cs =>
    rw [bytePrefix, Option.some.injEq, byteSize_eq_zero]
    constructor
    case mp =>
      rintro rfl
      exact ⟨List.nil_prefix, rfl⟩
    case mpr => exact fun h => h.right.symm
  case case2 n =>
    rw [bytePrefix, List.prefix_nil]
    simp +contextual
  case case3 n c cs hc hi =>
    rw [bytePrefix, if_pos hc]
    cases p
    case nil      => simp
    case cons d p =>
      simp only [Option.map_eq_map, Option.map_eq_some_iff, hi, List.cons.injEq, List.cons_prefix_cons, byteSize_cons]
      constructor
      case mp =>
        rintro ⟨_, ⟨hp, hs⟩, rfl, rfl⟩
        exact ⟨⟨rfl, hp⟩, by omega⟩
      case mpr =>
        rintro ⟨⟨rfl, hp⟩, hs⟩
        exact ⟨p, ⟨hp, by omega⟩, rfl, rfl⟩
  case case4 n c cs hc =>
    rw [bytePrefix, if_neg hc]
    cases p
    case nil      => simp
    case cons d p =>
      simp only [reduceCtorEq, List.cons_prefix_cons, byteSize_cons, false_iff, not_and, and_imp]
      rintro rfl -
      omega

-- The text ends before the byte, or has a character that starts with it.
def Cuttable (n : Nat) (s : String) : Prop :=
  s.utf8ByteSize < n ∨ ∃ p, p <+: s.toList ∧ byteSize p = n

theorem truncate_prefix (h : truncate n s = some t) : t.toList <+: s.toList ∧ t.utf8ByteSize ≤ n := by
  unfold truncate at h
  split at h
  case isTrue =>
    obtain ⟨p, hp, rfl⟩ := Option.map_eq_some_iff.mp h
    obtain ⟨hp, hs⟩ := bytePrefix_eq_some.mp hp
    rw [String.toList_ofList]
    exact ⟨hp, hs.le⟩
  case isFalse hn =>
    obtain rfl := Option.some.inj h
    exact ⟨List.prefix_rfl, (Nat.lt_of_not_le hn).le⟩

theorem truncate_isSome_iff : (truncate n s).isSome ↔ Cuttable n s := by
  unfold truncate Cuttable
  split
  case isTrue hn =>
    rw [Option.isSome_map, Option.isSome_iff_exists]
    simp only [bytePrefix_eq_some]
    exact ⟨.inr, fun h => h.resolve_left hn.not_gt⟩
  case isFalse hn => simp [Nat.lt_of_not_le hn]

end Bytes

end Text
