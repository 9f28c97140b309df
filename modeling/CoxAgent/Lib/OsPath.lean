import Mathlib.Data.List.Infix
import Mathlib.Order.Lattice
import Mathlib.Data.List.Lex

-- Paths of a Unix system. A file name is any sequence of bytes, and a path the list of its components.
abbrev OsStr := List UInt8

namespace OsStr

def ofString (s : String) : OsStr :=
  s.toUTF8.data.toList

section Lossy

def replacement : Char := '\ufffd'

-- The inside of a character: the bits so far, how many bytes follow the next one and the range that
-- the next one is in.
structure Pending where
  bits : Nat
  left : Nat
  low  : Nat := 0x80
  high : Nat := 0xbf

-- The first byte of a character. The ranges of the second one exclude overlong forms, surrogates and
-- what is beyond the last code point.
def lead (b : UInt8) : List Char × Option Pending :=
  let n := b.toNat
  if n < 0x80 then
    ([Char.ofNat n], none)
  else if n < 0xc2 then
    ([replacement], none)
  else if n < 0xe0 then
    ([], some { bits := n % 0x20, left := 0 })
  else if n = 0xe0 then
    ([], some { bits := 0, left := 1, low := 0xa0 })
  else if n = 0xed then
    ([], some { bits := 0xd, left := 1, high := 0x9f })
  else if n < 0xf0 then
    ([], some { bits := n % 0x10, left := 1 })
  else if n = 0xf0 then
    ([], some { bits := 0, left := 2, low := 0x90 })
  else if n < 0xf4 then
    ([], some { bits := n % 0x08, left := 2 })
  else if n = 0xf4 then
    ([], some { bits := 4, left := 2, high := 0x8f })
  else
    ([replacement], none)

-- A character that breaks off is replaced as a whole, and the byte that breaks it starts another.
def decodeLossy : Option Pending → List UInt8 → List Char
  | none, []        => []
  | some _, []      => [replacement]
  | none, b :: bs   => (lead b).1 ++ decodeLossy (lead b).2 bs
  | some p, b :: bs =>
    if p.low ≤ b.toNat ∧ b.toNat ≤ p.high then
      match p.left with
      | 0     => Char.ofNat (p.bits * 64 + b.toNat % 64) :: decodeLossy none bs
      | n + 1 => decodeLossy (some { bits := p.bits * 64 + b.toNat % 64, left := n }) bs
    else
      replacement :: (lead b).1 ++ decodeLossy (lead b).2 bs

def toStringLossy (s : OsStr) : String :=
  .ofList (decodeLossy none s)

example : toStringLossy (ofString "état €𝄞") = "état €𝄞" := by decide +kernel

example : toStringLossy [0x66, 0xff, 0xe2, 0x82, 0x6f] = "f\ufffd\ufffdo" := by decide +kernel

end Lossy

theorem ofString_inj {s t : String} (h : ofString s = ofString t) : s = t := by
  have hd : s.toUTF8.data = t.toUTF8.data := Array.toList_inj.mp h
  exact String.toByteArray_inj.mp (ByteArray.ext hd)

end OsStr

inductive Component
  | rootDir
  | curDir
  | parentDir
  | normal (name : OsStr)
deriving DecidableEq, Repr

namespace Component

def asOsStr : Component → OsStr
  | rootDir     => .ofString "/"
  | curDir      => .ofString "."
  | parentDir   => .ofString ".."
  | normal name => name

-- Components are ordered by their kinds, and names as bytes.
def key : Component → List Nat
  | rootDir     => [0]
  | curDir      => [1]
  | parentDir   => [2]
  | normal name => 3 :: name.map (·.toNat)

theorem key_injective : Function.Injective key := by
  have bytes : Function.Injective (List.map UInt8.toNat) :=
    List.map_injective_iff.mpr fun _ _ => UInt8.toNat_inj.mp
  intro c c' h
  cases c <;> cases c' <;> simp [key] at h ⊢
  exact bytes h

instance : LinearOrder Component :=
  .lift' key key_injective

def ofSegment (seg : List Char) : Component :=
  if seg = ['.', '.'] then .parentDir else .normal (.ofString (.ofList seg))

end Component

abbrev OsPath := List Component

namespace OsPath

-- Empty segments and those of a single dot are skipped.
def body (s : String) : List Component :=
  ((s.toList.splitOn '/').filter fun seg => seg ≠ [] ∧ seg ≠ ['.']).map Component.ofSegment

-- A path keeps the dot that it starts with.
def ofString (s : String) : OsPath :=
  if s.toList.head? = some '/' then
    .rootDir :: body s
  else if (s.toList.splitOn '/').head? = some ['.'] then
    .curDir :: body s
  else
    body s

-- An absolute path takes the place of the one that it is joined to.
def join (p : OsPath) (s : String) : OsPath :=
  if s.toList.head? = some '/' ∨ p = [] then
    ofString s
  else
    p ++ body s

-- The components of a path below a directory.
def stripPrefix (p root : OsPath) : Option OsPath :=
  if root <+: p then some (p.drop root.length) else none

def fileName (p : OsPath) : Option OsStr :=
  match p.getLast? with
  | some (.normal name) => some name
  | _                   => none

-- The directories above a path.
def ancestors (p : OsPath) : List OsPath :=
  p.dropLast.inits

-- Where a path leads from a working directory, by the names from the root. There are no links.
def placeStep (dir : List OsStr) : Component → List OsStr
  | .rootDir     => []
  | .curDir      => dir
  | .parentDir   => dir.dropLast
  | .normal name => dir ++ [name]

def place (cwd : List OsStr) (p : OsPath) : List OsStr :=
  p.foldl placeStep cwd

variable {p root : OsPath} {cwd : List OsStr} {names : List OsStr}

theorem place_names : place cwd (p ++ names.map .normal) = place cwd p ++ names := by
  induction names using List.reverseRecOn
  case nil => simp
  case append_singleton names name hi =>
    simp only [place, List.foldl_append, List.map_append] at hi ⊢
    rw [hi]
    simp [placeStep]

-- The names in a text that consists of names.
def segments (s : String) : List OsStr :=
  (s.toList.splitOn '/').map fun seg => .ofString (.ofList seg)

theorem segments_inj {s t : String} (h : segments s = segments t) : s = t := by
  have inj : Function.Injective fun seg : List Char => OsStr.ofString (.ofList seg) := fun _ _ he =>
    String.ofList_injective (OsStr.ofString_inj he)
  have hs : s.toList.splitOn '/' = t.toList.splitOn '/' := List.map_injective_iff.mpr inj h
  have hj (u : String) : ['/'].intercalate (u.toList.splitOn '/') = u.toList := List.intercalate_splitOn _
  apply String.toList_inj.mp
  rw [← hj s, hs, hj t]

theorem segments_ne_nil {s : String} : segments s ≠ [] := by
  simp [segments]

-- Names are appended to the path.
theorem join_segments {s : String} (ha : s.toList.head? ≠ some '/')
    (hs : ∀ seg ∈ s.toList.splitOn '/', seg ≠ [] ∧ seg ≠ ['.'] ∧ seg ≠ ['.', '.']) :
    p.join s = p ++ (segments s).map .normal := by
  have hb : body s = (segments s).map .normal := by
    have hf : (s.toList.splitOn '/').filter (fun seg => seg ≠ [] ∧ seg ≠ ['.']) = s.toList.splitOn '/' := by
      refine List.filter_eq_self.mpr fun seg hm => ?_
      simp [(hs seg hm).1, (hs seg hm).2.1]
    rw [body, hf, segments, List.map_map]
    refine List.map_congr_left fun seg hm => ?_
    simp [Component.ofSegment, (hs seg hm).2.2]
  have hd : (s.toList.splitOn '/').head? ≠ some ['.'] := fun h =>
    (hs _ (List.mem_of_head? h)).2.1 rfl
  unfold join
  split
  case isTrue hp => rw [ofString, if_neg ha, if_neg hd, hb, hp.resolve_left ha, List.nil_append]
  case isFalse => rw [hb]

@[simp]
theorem stripPrefix_append : stripPrefix (root ++ p) root = some p := by
  simp [stripPrefix]

end OsPath
