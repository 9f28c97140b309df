import CoxAgent.Release.Cut
import CoxAgent.Release.Theorems.Manifest

-- The version that is read from a manifest, and what a new one in its place changes.

namespace SemverLib

end SemverLib

-- The lines with their carriage returns. What is behind the last line feed is a line too.
def rawLines (s : String) : List (List Char) :=
  s.toList.splitOn '\n'

def lineVersion (lib : SemverLib) (l : List Char) : Option String :=
  cargoLineVersion lib (.ofList l)

section Parse

variable {lib : SemverLib} {text : String} {l : List Char}

end Parse

section Line

variable {lib : SemverLib} {l i sp rhs s x w : List Char} {v : String}

-- What stands around a version.
def isSep (c : Char) : Bool :=
  Text.isWhitespace c || c = '"'

def Solid (x : List Char) : Prop :=
  x ≠ [] ∧ ∀ c ∈ x, ¬isSep c

theorem Solid.strip_append {p : Char → Bool} (hx : Solid x) (hp : ∀ c, p c → isSep c) :
    Text.strip p (s ++ x ++ w) = s.dropWhile p ++ x ++ w.rdropWhile p :=
  Text.strip_append hx.1 (fun h => hx.2 _ (List.head_mem hx.1) (hp _ h))
    (fun h => hx.2 _ (List.getLast_mem hx.1) (hp _ h))

theorem Solid.takeWhile_append (hx : Solid x) (hs : ∀ c ∈ s, isSep c) : (s ++ x ++ w).takeWhile isSep = s := by
  have ⟨c, r, hc⟩ := List.exists_cons_of_ne_nil hx.1
  have hn : ¬isSep c := hx.2 c (by simp [hc])
  rw [List.append_assoc, List.takeWhile_append_of_pos hs, hc, List.cons_append, List.takeWhile_cons_of_neg hn,
    List.append_nil]

end Line

section Manifest

variable {lib : SemverLib} {leader base m m' : String} {cur next : String} {lines before after : List (List Char)}
  {l x y : List Char}

-- The name of the table that a line opens.
def tableName (l : List Char) : Option String :=
  Text.stripPrefix (Text.trim (.ofList l)) "[" |>.map fun rest =>
    Text.trim (.ofList (rest.toList.takeWhile (· ≠ ']')))

-- The table behind these lines holds the version of the workspace.
def InOwnTable (before : List (List Char)) : Prop :=
  (before.filterMap tableName).getLast? ∈ [some "package", some "workspace.package"]

-- The workspace's own version: the first one that is read, in a table of the workspace.
structure OwnVersion (lib : SemverLib) (before : List (List Char)) (x : List Char) (v : String) (y : List Char) :
    Prop where
  unread : ∀ l ∈ before, lineVersion lib l = none
  table  : InOwnTable before
  read   : lineVersion lib (x ++ v.toList ++ y) = some v
  place  : '=' ∈ x

-- The second manifest is the first one, but for the workspace's own version. What it replaces ends with the quote
-- behind it.
def SameButVersion (lib : SemverLib) (m m' : String) : Prop :=
  m' = m ∨ ∃ before x old v y after, '"' ∉ old ∧ rawLines m = before ++ (x ++ old ++ y) :: after ∧
    rawLines m' = before ++ (x ++ v.toList ++ y) :: after ∧ OwnVersion lib before x v y

end Manifest
