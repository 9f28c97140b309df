import CoxAgent.Lib.Lines

-- Unified diffs, as git prints them and as others do. More is admitted than is printed: the parts of a
-- diff need not fit together.
namespace Diff

structure Line where
  chars : List Char
  whole : '\n' ∉ chars
deriving DecidableEq

-- Names of files are bytes.
abbrev Name := List UInt8

def name (s : String) : Name :=
  s.toList.flatMap String.utf8EncodeChar

inductive HunkLine
  | context (text : Line)
  | removed (text : Line)
  | added (text : Line)
  | noNewline

structure Hunk where
  oldStart : Nat
  newStart : Nat
  heading  : Line
  lines    : List HunkLine

inductive Change
  | modified
  | created (mode : Nat)
  | deleted (mode : Nat)
  | renamed (similarity : Nat)
  | copied (similarity : Nat)
deriving DecidableEq

inductive Body
  | unchanged
  | binary
  | hunks (hs : List Hunk)

-- Only the file that is renamed or copied has two names.
structure File where
  old    : Name
  new    : Name
  change : Change                := .modified
  modes  : Option (Nat × Nat)    := none
  index  : Option Line           := none
  body   : Body
  named  : (∀ n, change ≠ .renamed n ∧ change ≠ .copied n) → old = new

def Hunk.oldCount (h : Hunk) : Nat :=
  h.lines.countP fun | .context _ => true | .removed _ => true | _ => false

def Hunk.newCount (h : Hunk) : Nat :=
  h.lines.countP fun | .context _ => true | .added _ => true | _ => false

section Print

-- The bytes that are printed as they are.
def isPlain (b : UInt8) : Bool :=
  0x20 ≤ b ∧ b < 0x7f ∧ b ≠ 0x22 ∧ b ≠ 0x5c

def octal (n : Nat) : Char :=
  Char.ofNat (0x30 + n % 8)

-- What stands for another byte, after a backslash.
def escape (b : UInt8) : List Char :=
  match b with
  | 0x07 => ['a']
  | 0x08 => ['b']
  | 0x09 => ['t']
  | 0x0a => ['n']
  | 0x0b => ['v']
  | 0x0c => ['f']
  | 0x0d => ['r']
  | 0x22 => ['\x22']
  | 0x5c => ['\x5c']
  | b    => [octal (b.toNat / 64), octal (b.toNat / 8), octal b.toNat]

def printByte (b : UInt8) : List Char :=
  if isPlain b then [Char.ofNat b.toNat] else '\x5c' :: escape b

-- The name under its directory, in quotes if a byte of it is not printed as it is.
def printName (dir : Char) (n : Name) : List Char :=
  let path := dir :: '/' :: n.flatMap printByte
  if n.all isPlain then path else '\x22' :: path ++ ['\x22']

def quoteName (n : Name) : List Char :=
  if n.all isPlain then n.flatMap printByte else '\x22' :: n.flatMap printByte ++ ['\x22']

def devNull : List Char := "/dev/null".toList

def HunkLine.print : HunkLine → List Char
  | context l => ' ' :: l.chars
  | removed l => '-' :: l.chars
  | added l   => '+' :: l.chars
  | noNewline => "\x5c No newline at end of file".toList

@[simp]
theorem HunkLine.print_removed {l : Line} : (removed l).print = '-' :: l.chars :=
  rfl

@[simp]
theorem HunkLine.print_added {l : Line} : (added l).print = '+' :: l.chars :=
  rfl

def printRange (start count : Nat) : List Char :=
  if count = 1 then start.repr.toList else start.repr.toList ++ ',' :: count.repr.toList

def Hunk.header (h : Hunk) : List Char :=
  "@@ -".toList ++ printRange h.oldStart h.oldCount ++ " +".toList ++
    printRange h.newStart h.newCount ++ " @@".toList ++
    if h.heading.chars = [] then [] else ' ' :: h.heading.chars

def Hunk.print (h : Hunk) : List (List Char) :=
  h.header :: h.lines.map HunkLine.print

namespace File

variable (f : File)

-- The names in the first line of a file.
def names : List Char :=
  printName 'a' f.old ++ ' ' :: printName 'b' f.new

def oldLabel : List Char :=
  match f.change with
  | .created _ => devNull
  | _          => printName 'a' f.old

def newLabel : List Char :=
  match f.change with
  | .deleted _ => devNull
  | _          => printName 'b' f.new

-- The lines between the first line of a file and what changed in it.
def extended : List (List Char) :=
  f.modes.elim [] (fun (old, new) =>
    ["old mode ".toList ++ old.repr.toList, "new mode ".toList ++ new.repr.toList]) ++
  (match f.change with
    | .modified   => []
    | .created m  => ["new file mode ".toList ++ m.repr.toList]
    | .deleted m  => ["deleted file mode ".toList ++ m.repr.toList]
    | .renamed n  =>
      ["similarity index ".toList ++ n.repr.toList ++ ['%'], "rename from ".toList ++ quoteName f.old,
        "rename to ".toList ++ quoteName f.new]
    | .copied n   =>
      ["similarity index ".toList ++ n.repr.toList ++ ['%'], "copy from ".toList ++ quoteName f.old,
        "copy to ".toList ++ quoteName f.new]) ++
  f.index.elim [] (fun l => ["index ".toList ++ l.chars])

-- A label with a blank in it ends with a tab.
def printLabel (sign label : List Char) : List Char :=
  sign ++ label ++ if ' ' ∈ label then ['\t'] else []

def hunks : List Hunk :=
  match f.body with
  | .hunks hs => hs
  | _         => []

def printBody : List (List Char) :=
  match f.body with
  | .unchanged => []
  | .binary    =>
    ["Binary files ".toList ++ f.oldLabel ++ " and ".toList ++ f.newLabel ++ " differ".toList]
  | .hunks hs  =>
    printLabel "--- ".toList f.oldLabel :: printLabel "+++ ".toList f.newLabel :: hs.flatMap Hunk.print

def print : List (List Char) :=
  ("diff --git ".toList ++ f.names) :: f.extended ++ f.printBody

end File

-- The time that other programs print after a name.
def stampChars : List Char := "0123456789-+:. ".toList

structure Stamp where
  chars  : List Char
  timely : ∀ c ∈ chars, c ∈ stampChars

-- A file in a diff that is not git's. Its labels are its whole header and show the names as they are.
structure PlainFile where
  old      : Line
  new      : Line
  oldStamp : Option Stamp := none
  newStamp : Option Stamp := none
  hunks    : List Hunk

namespace PlainFile

def printLabel (sign : List Char) (name : Line) (stamp : Option Stamp) : List Char :=
  sign ++ ' ' :: (name.chars ++ stamp.elim [] ('\t' :: ·.chars))

variable (f : PlainFile)

def labels : List (List Char) :=
  [printLabel "---".toList f.old f.oldStamp, printLabel "+++".toList f.new f.newStamp]

def print : List (List Char) :=
  f.labels ++ f.hunks.flatMap Hunk.print

end PlainFile

inductive Entry
  | git (f : File)
  | plain (f : PlainFile)

def Entry.print : Entry → List (List Char)
  | git f   => f.print
  | plain f => f.print

def unified (d : List Entry) : String :=
  Text.unlines (d.flatMap Entry.print)

def text (d : List File) : String :=
  unified (d.map .git)

end Print

section Content

def File.lines (f : File) : List HunkLine :=
  f.hunks.flatMap Hunk.lines

def HunkLine.isChange : HunkLine → Bool
  | removed _ | added _ => true
  | _                   => false

def Entry.lines : Entry → List HunkLine
  | git f   => f.lines
  | plain f => f.hunks.flatMap Hunk.lines

-- The lines that the hunks add or remove.
def changed (d : List Entry) : List HunkLine :=
  (d.flatMap Entry.lines).filter HunkLine.isChange

-- The old or the new name of the file has the text in it.
def Entry.Names (p : String) : Entry → Prop
  | git f   => name p <:+: f.old ∨ name p <:+: f.new
  | plain f => p.toList <:+: f.old.chars ∨ p.toList <:+: f.new.chars

instance (p : String) : DecidablePred (Entry.Names p)
  | .git f   => inferInstanceAs (Decidable (name p <:+: f.old ∨ name p <:+: f.new))
  | .plain f => inferInstanceAs (Decidable (p.toList <:+: f.old.chars ∨ p.toList <:+: f.new.chars))

def HunkLine.addition : HunkLine → Option (List Char)
  | added l => some l.chars
  | _       => none

-- The lines that are added, with the file that they are added to.
def additions (d : List File) : List (Name × List Char) :=
  d.flatMap fun f => (f.lines.filterMap HunkLine.addition).map (f.new, ·)

-- What is copied stays as it is.
def File.touched (f : File) : List Name :=
  match f.change with
  | .copied _ => [f.new]
  | _         => [f.old, f.new]

-- The files that are not the same afterwards.
def touched (d : List File) : List Name :=
  d.flatMap File.touched

def line (s : String) (h : '\n' ∉ s.toList) : Line :=
  ⟨s.toList, h⟩

-- A diff of one file in one place.
def oneHunk (n : String) (lines : List HunkLine) : List File :=
  [{ old := name n, new := name n, named := fun _ => rfl,
     body := .hunks [⟨1, 1, line "" (by decide), lines⟩] }]

end Content

end Diff
