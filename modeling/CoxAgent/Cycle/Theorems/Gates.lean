import CoxAgent.Cycle.Gates
import CoxAgent.Lib.DiffText
import CoxAgent.Lib.Lists

open Diff

-- The files with their markers, and a diff without context lines of two versions of them. No file has so many lines
-- that a machine word could not count them.
structure ZeroContext where
  files   : List File
  markers : BTreeMap String Nat
  bare    : ∀ f ∈ files, ∀ h ∈ f.hunks, ∀ l ∈ h.lines, ∀ text, l ≠ .context text
  changes : ∀ f ∈ files, ∀ h ∈ f.hunks, ∃ l ∈ h.lines, l.isChange
  fits    : ∀ f ∈ files, ∀ h ∈ f.hunks, h.newStart < 2 ^ 64

-- The lines that a hunk adds are numbered from its start on the new side. Those that it only removes stood behind the
-- line of that number. The marker is counted from 0.
def Diff.Hunk.Reaches (h : Hunk) (marker : Nat) : Prop :=
  (∃ n < h.newCount, marker < h.newStart + n) ∨ h.newCount = 0 ∧ marker < h.newStart

namespace ZeroContext

variable (z : ZeroContext)

def tree : WorkingTreeDiff where
  unified0Diff := Diff.text z.files
  cfgTestLine  := z.markers

-- The file that is left has the name.
def Named (f : File) (s : String) : Prop :=
  name s = f.new ∧ ∀ mode, f.change ≠ .deleted mode

def Touched : Prop :=
  ∃ f ∈ z.files, ∃ h ∈ f.hunks, ∃ s marker, Named f s ∧ z.markers.get? s = some marker ∧ h.Reaches marker

section Reading

-- What is read of a diff: the names that labels show, and hunks.
inductive Piece
  | label (name : String)
  | hunk (f : File) (h : Hunk)

-- A name in quotes is not read, nor is there one for a file that is gone.
def labels (f : File) : List String :=
  match f.change with
  | .deleted _ => []
  | _          => if f.new.all isPlain then [Text.trim (.ofList (f.new.flatMap printByte))] else []

-- An added line that looks like a label is read as one.
def masked : HunkLine → Option String
  | .added l => if "++ b/".toList <+: l.chars then some (Text.trim (.ofList (l.chars.drop 5))) else none
  | _        => none

def hunkPieces (f : File) (h : Hunk) : List Piece :=
  .hunk f h :: (h.lines.filterMap masked).map .label

def filePieces (f : File) : List Piece :=
  match f.body with
  | .hunks hs => (labels f).map .label ++ hs.flatMap (hunkPieces f)
  | _         => []

-- The hunks, each with the last name before it.
def readFrom : Option String → List Piece → List (Option String × File × Hunk)
  | _, []                => []
  | _, .label s :: ps    => readFrom (some s) ps
  | file, .hunk f h :: ps => (file, f, h) :: readFrom file ps

def read : List (Option String × File × Hunk) :=
  readFrom none (z.files.flatMap filePieces)

end Reading

-- A hunk that is read under its own name starts below the marker.
def Clear : Prop :=
  ∃ s f h, (some s, f, h) ∈ z.read ∧ Named f s ∧ ∃ marker, z.markers.get? s = some marker ∧ marker < h.newStart

-- A hunk reaches the marker of its file, but does not start below it or is read under another name.
def Missed : Prop :=
  ∃ file f h, (file, f, h) ∈ z.read ∧ ∃ s marker, Named f s ∧ z.markers.get? s = some marker ∧ h.Reaches marker ∧
    (h.newStart ≤ marker ∨ file ≠ some s)

-- A hunk that is read under the name of another file starts below the marker of that.
def Foreign : Prop :=
  ∃ s f h, (some s, f, h) ∈ z.read ∧ ¬Named f s ∧ ∃ marker, z.markers.get? s = some marker ∧ marker < h.newStart

end ZeroContext

section Scan

inductive LineEvent
  | label (name : String)
  | start (line : Nat)
deriving DecidableEq

namespace LineEvent

-- What a line says about the file or the place.
def ofLine (line : String) : Option LineEvent :=
  match Text.stripPrefix line "+++ b/" with
  | some rest => some (.label (Text.trim rest))
  | none      => (Text.stripPrefix line "@@ ").bind fun hunk => (newSideStart hunk).map .start

def scan (markers : BTreeMap String Nat) : Option String → List LineEvent → Bool
  | _, []                    => false
  | _, .label s :: es        => scan markers (some s) es
  | file, .start line :: es  => (file.bind markers.get?).any (· < line) || scan markers file es

variable {tree : WorkingTreeDiff} {file : Option String} {lines : List String} {l r : List Char}

theorem go_eq_scan :
    diffTouchesInlineTestModule.go tree file lines = scan tree.cfgTestLine file (lines.filterMap ofLine) := by
  induction lines generalizing file
  case nil                => rfl
  case cons line lines hi =>
    unfold diffTouchesInlineTestModule.go
    cases hl : Text.stripPrefix line "+++ b/"
    case some rest =>
      have he : ofLine line = some (.label (Text.trim rest)) := by rw [ofLine, hl]
      rw [List.filterMap_cons_some he, scan]
      exact hi
    case none =>
      cases hh : Text.stripPrefix line "@@ "
      case none =>
        have he : ofLine line = none := by simp [ofLine, hl, hh]
        rw [List.filterMap_cons_none he]
        exact hi
      case some hunk =>
        cases hs : newSideStart hunk
        case none =>
          have he : ofLine line = none := by simp [ofLine, hl, hh, hs]
          rw [List.filterMap_cons_none he]
          cases file
          case none   => exact hi
          case some f =>
            dsimp only
            rw [hs]
            exact hi
        case some start =>
          have he : ofLine line = some (.start start) := by simp [ofLine, hl, hh, hs]
          rw [List.filterMap_cons_some he, scan, ← hi]
          cases file
          case none   => rfl
          case some f =>
            dsimp only
            rw [hs]
            cases hm : tree.cfgTestLine.get? f
            case none   => simp [hm]
            case some m => simp [hm]

-- What a printed line says.
def ofPrinted (l : List Char) : Option LineEvent :=
  ofLine (.ofList (Text.stripCr l))

theorem ofPrinted_eq_none (hl : ¬"+++ b/".toList <+: l) (hh : ¬"@@ ".toList <+: l) : ofPrinted l = none := by
  rw [ofPrinted, ofLine, Text.stripPrefix_stripCr_eq_none (by decide) hl,
    Text.stripPrefix_stripCr_eq_none (by decide) hh]
  rfl

theorem ofPrinted_cons {c : Char} (hc : c ∉ ['+', '@']) : ofPrinted (c :: l) = none := by
  simp only [List.mem_cons, List.not_mem_nil, or_false, not_or] at hc
  refine ofPrinted_eq_none (fun h => ?_) (fun h => ?_)
  · exact hc.left (List.cons_prefix_cons.mp h).left.symm
  · exact hc.right (List.cons_prefix_cons.mp h).left.symm

theorem ofPrinted_label : ofPrinted ("+++ b/".toList ++ r) = some (.label (Text.trim (.ofList r))) := by
  rw [ofPrinted, ofLine, Text.stripPrefix_stripCr_append (by decide)]
  simp only [Text.trim_stripCr]

end LineEvent

end Scan

section Header

variable {l m : List Char} {c : Char}

-- The digits between the plus sign and what follows them.
theorem newSideStart_eq {n : Nat} (hl : '+' ∉ l) (hn : n < 2 ^ 64) (hc : c ∈ [',', ' ']) :
    newSideStart (.ofList (l ++ '+' :: (n.repr.toList ++ c :: m))) = some n := by
  have hdigit : ∀ d ∈ n.repr.toList, d ∉ [',', ' '] := by
    intro d hd hs
    have hs' : !d.isDigit := by
      simp only [List.mem_cons, List.not_mem_nil, or_false] at hs
      rcases hs with rfl | rfl <;> decide
    exact Text.not_mem_repr hs' hd
  have hplus : '+' ∉ n.repr.toList ++ [c] := by
    rw [List.mem_append, not_or, List.mem_singleton]
    exact ⟨Text.not_mem_repr (by decide), fun h => absurd (h ▸ hc) (by decide)⟩
  have hparse : Text.parseBelow (2 ^ 64) n.repr.toList = some n := by
    have hz : Text.zeroPad 0 n = n.repr.toList := by simp [Text.zeroPad]
    exact hz ▸ Text.parseBelow_zeroPad hn
  rw [newSideStart, String.toList_ofList, List.splitOn_append_cons_self, List.splitOn_eq_singleton hl,
    List.append_cons, Lists.splitOn_append hplus]
  cases hm : m.splitOn '+'
  case nil         => exact absurd hm (List.splitOn_ne_nil _ _)
  case cons a rest =>
    have htake : (n.repr.toList ++ [c] ++ a).takeWhile (· ∉ [',', ' ']) = n.repr.toList := by
      rw [List.append_assoc, List.takeWhile_append_of_pos (by simpa using hdigit), List.singleton_append,
        List.takeWhile_cons_of_neg (by rw [decide_eq_true_eq]; exact not_not_intro hc), List.append_nil]
    simp only [List.modifyHead_cons, List.singleton_append, List.getElem?_cons_succ, List.getElem?_cons_zero,
      Option.bind_eq_bind, Option.bind_some, htake, hparse]

theorem ofPrinted_header {h : Hunk} (hn : h.newStart < 2 ^ 64) :
    LineEvent.ofPrinted h.header = some (.start h.newStart) := by
  obtain ⟨l, c, m, hl, hr, hc, he⟩ := header_eq h
  have hskip : ¬"+++ b/".toList <+: h.header := by
    intro hp
    rw [he] at hp
    exact absurd (List.cons_prefix_cons.mp hp).left (by decide)
  have hcr : '\r' ∉ l ++ '+' :: (h.newStart.repr.toList ++ [c]) := by
    have hc' : '\r' ≠ c := fun h => absurd (h ▸ hc) (by decide)
    simp only [List.mem_append, List.mem_cons, not_or]
    exact ⟨hr, by decide, Text.not_mem_repr (by decide), hc', List.not_mem_nil⟩
  have hstrip : Text.stripCr (l ++ '+' :: (h.newStart.repr.toList ++ c :: m)) =
      l ++ '+' :: (h.newStart.repr.toList ++ c :: Text.stripCr m) := by
    have h := Text.stripCr_append (m := m) hcr
    simpa using h
  rw [LineEvent.ofPrinted, LineEvent.ofLine, Text.stripPrefix_stripCr_eq_none (by decide) hskip, he,
    Text.stripPrefix_stripCr_append (by decide), hstrip]
  simp only [Option.bind_some, newSideStart_eq hl hn hc, Option.map_some]

end Header

namespace ZeroContext

open LineEvent

def Piece.event : Piece → LineEvent
  | label s  => .label s
  | hunk _ h => .start h.newStart

section Lines

variable {f : File} {h : Hunk} {l : List Char}

theorem ofPrinted_hunkLine (x : HunkLine) : ofPrinted x.print = (masked x).map .label := by
  cases x
  case context   => exact ofPrinted_cons (by decide)
  case removed   => exact ofPrinted_cons (by decide)
  case noNewline => exact ofPrinted_cons (by decide)
  case added x   =>
    rw [HunkLine.print_added, masked]
    split
    case isTrue hp  =>
      obtain ⟨r, hr⟩ := hp
      have he : '+' :: x.chars = "+++ b/".toList ++ r := by
        rw [← hr]
        rfl
      rw [he, ofPrinted_label, ← hr]
      rfl
    case isFalse hp =>
      refine ofPrinted_eq_none (fun h => hp ?_) (fun h => ?_)
      · exact (List.cons_prefix_cons.mp h).right
      · exact absurd (List.cons_prefix_cons.mp h).left (by decide)

theorem filterMap_hunk (hn : h.newStart < 2 ^ 64) : h.print.filterMap ofPrinted = (hunkPieces f h).map Piece.event := by
  have hlines : (h.lines.map HunkLine.print).filterMap ofPrinted =
      (h.lines.filterMap masked).map .label := by
    rw [List.filterMap_map, List.map_filterMap]
    exact List.filterMap_congr fun x _ => ofPrinted_hunkLine x
  rw [Hunk.print, List.filterMap_cons_some (ofPrinted_header hn), hlines, hunkPieces, List.map_cons, List.map_map]
  rfl

theorem ofPrinted_extended : ∀ l ∈ f.extended, ofPrinted l = none := by
  intro l hl
  simp only [File.extended, List.mem_append] at hl
  rcases hl with (hl | hl) | hl
  case inl.inl =>
    cases hm : f.modes <;> simp [hm] at hl
    rcases hl with hl | hl <;> exact hl ▸ ofPrinted_cons (by decide)
  case inl.inr =>
    cases hc : f.change <;> simp [hc] at hl
    case created => exact hl ▸ ofPrinted_cons (by decide)
    case deleted => exact hl ▸ ofPrinted_cons (by decide)
    all_goals rcases hl with hl | hl | hl <;> exact hl ▸ ofPrinted_cons (by decide)
  case inr     =>
    cases hi : f.index <;> simp [hi] at hl
    case some index => exact hl ▸ ofPrinted_cons (by decide)

theorem trim_tab (l label : List Char) :
    Text.trim (.ofList (l ++ if ' ' ∈ label then ['\t'] else [])) = Text.trim (.ofList l) := by
  rw [Text.trim, Text.trim, String.toList_ofList, String.toList_ofList, Text.trimChars_append]
  split <;> simp [Text.isWhitespace]

theorem ofPrinted_newName : ofPrinted (File.printLabel "+++ ".toList (printName 'b' f.new)) =
    (if f.new.all isPlain then some (Text.trim (.ofList (f.new.flatMap printByte))) else none).map .label := by
  unfold File.printLabel
  by_cases hp : f.new.all isPlain
  case pos =>
    have hb : printName 'b' f.new = 'b' :: '/' :: f.new.flatMap printByte := if_pos hp
    have he (tail : List Char) : "+++ ".toList ++ 'b' :: '/' :: f.new.flatMap printByte ++ tail =
        "+++ b/".toList ++ (f.new.flatMap printByte ++ tail) := by
      simp
    rw [if_pos hp]
    nth_rewrite 1 [hb]
    rw [he, ofPrinted_label, trim_tab]
    rfl
  case neg =>
    have hb : printName 'b' f.new = '\x22' :: ('b' :: '/' :: f.new.flatMap printByte ++ ['\x22']) := if_neg hp
    rw [if_neg hp]
    nth_rewrite 1 [hb]
    refine ofPrinted_eq_none (fun h => ?_) (fun h => ?_)
    · simp [List.cons_prefix_cons] at h
    · simp [List.cons_prefix_cons] at h

theorem newLabel_eq (hd : ∀ mode, f.change ≠ .deleted mode) : f.newLabel = printName 'b' f.new ∧
    labels f = if f.new.all isPlain then [Text.trim (.ofList (f.new.flatMap printByte))] else [] := by
  unfold File.newLabel labels
  cases hc : f.change
  case deleted mode => exact absurd hc (hd mode)
  all_goals exact ⟨rfl, rfl⟩

-- A label of the old side is not read.
theorem filterMap_labels :
    [File.printLabel "--- ".toList f.oldLabel, File.printLabel "+++ ".toList f.newLabel].filterMap ofPrinted =
      (labels f).map .label := by
  have hold : ofPrinted (File.printLabel "--- ".toList f.oldLabel) = none := ofPrinted_cons (by decide)
  rw [List.filterMap_cons_none hold]
  by_cases hd : ∀ mode, f.change ≠ .deleted mode
  case pos =>
    have ⟨hnew, hlabels⟩ := newLabel_eq hd
    have he := ofPrinted_newName (f := f)
    rw [hnew, hlabels]
    by_cases hp : f.new.all isPlain
    case pos =>
      rw [if_pos hp] at he ⊢
      rw [List.filterMap_cons_some he]
      rfl
    case neg =>
      rw [if_neg hp] at he ⊢
      rw [List.filterMap_cons_none he]
      rfl
  case neg =>
    have ⟨mode, hc⟩ := not_forall_not.mp hd
    have hnull : ofPrinted (File.printLabel "+++ ".toList devNull) = none :=
      ofPrinted_eq_none (by decide) (by decide)
    simp only [File.newLabel, labels, hc]
    rw [List.filterMap_cons_none hnull]
    rfl

theorem filterMap_file (hn : ∀ h ∈ f.hunks, h.newStart < 2 ^ 64) :
    f.print.filterMap ofPrinted = (filePieces f).map Piece.event := by
  have hfirst : ofPrinted f.first = none := ofPrinted_cons (by decide)
  have hextended : f.extended.filterMap ofPrinted = [] := List.filterMap_eq_nil_iff.mpr ofPrinted_extended
  rw [File.print_eq, List.filterMap_cons_none hfirst, List.filterMap_append, hextended, List.nil_append]
  unfold File.printBody filePieces
  cases hb : f.body
  case unchanged => rfl
  case binary    =>
    refine List.filterMap_cons_none (ofPrinted_cons (by decide))
  case hunks hs  =>
    have hhunks : (hs.flatMap Hunk.print).filterMap ofPrinted = (hs.flatMap (hunkPieces f)).map Piece.event := by
      rw [List.filterMap_flatMap, List.map_flatMap]
      exact List.flatMap_congr fun h hh => filterMap_hunk (hn h (by simpa [File.hunks, hb] using hh))
    have hmap : (labels f).map LineEvent.label = ((labels f).map Piece.label).map Piece.event := by
      rw [List.map_map]
      rfl
    change ([File.printLabel "+++ ".toList f.newLabel].cons _ ++ hs.flatMap Hunk.print).filterMap ofPrinted =
      ((labels f).map Piece.label ++ hs.flatMap (hunkPieces f)).map Piece.event
    rw [List.filterMap_append, filterMap_labels, hhunks, List.map_append, hmap]

theorem filterMap_lines (z : ZeroContext) : (Text.lines z.tree.unified0Diff).filterMap ofLine =
    (z.files.flatMap filePieces).map Piece.event := by
  rw [tree, lines_text, List.filterMap_map, List.filterMap_flatMap, List.map_flatMap]
  exact List.flatMap_congr fun f hf => filterMap_file (z.fits f hf)

end Lines

section Read

variable {z : ZeroContext} {file : Option String} {f : File} {h : Hunk} {ps : List Piece}

theorem scan_pieces {markers : BTreeMap String Nat} : scan markers file (ps.map Piece.event) =
    (readFrom file ps).any fun (file, _, h) => (file.bind markers.get?).any (· < h.newStart) := by
  induction ps generalizing file
  case nil          => rfl
  case cons p ps hi =>
    cases p
    case label s  =>
      rw [List.map_cons, Piece.event, scan, readFrom]
      exact hi
    case hunk f h =>
      rw [List.map_cons, Piece.event, scan, readFrom, List.any_cons, hi]

-- The gate sees the hunks that start below the marker of the name that they are read under.
theorem diffTouches_iff : diffTouchesInlineTestModule z.tree ↔ ∃ s f h, (some s, f, h) ∈ z.read ∧
    ∃ marker, z.markers.get? s = some marker ∧ marker < h.newStart := by
  rw [diffTouchesInlineTestModule, go_eq_scan, filterMap_lines, scan_pieces, List.any_eq_true]
  constructor
  case mp =>
    rintro ⟨⟨file, f, h⟩, hm, ht⟩
    obtain ⟨marker, hg, hlt⟩ := (Option.any_eq_true _ _).mp ht
    obtain ⟨s, rfl, hg⟩ := Option.bind_eq_some_iff.mp hg
    exact ⟨s, f, h, hm, marker, hg, of_decide_eq_true hlt⟩
  case mpr =>
    rintro ⟨s, f, h, hm, marker, hg, hlt⟩
    refine ⟨(some s, f, h), hm, ?_⟩
    simpa [tree, hg] using hlt

theorem mem_readFrom : (∃ file', (file', f, h) ∈ readFrom file ps) ↔ .hunk f h ∈ ps := by
  induction ps generalizing file
  case nil          => simp [readFrom]
  case cons p ps hi =>
    cases p
    case label s    => simp [readFrom, hi]
    case hunk f' h' => simp [readFrom, exists_or, hi]

theorem mem_hunkPieces {f' : File} {h' : Hunk} : .hunk f h ∈ hunkPieces f' h' ↔ f = f' ∧ h = h' := by
  simp [hunkPieces]

theorem mem_filePieces {f' : File} : .hunk f h ∈ filePieces f' ↔ f = f' ∧ h ∈ f'.hunks := by
  unfold filePieces File.hunks
  cases f'.body
  case unchanged => simp
  case binary    => simp
  case hunks hs  => simp [mem_hunkPieces, and_comm]

-- Every hunk is read, under some name or under none.
theorem mem_read : (∃ file, (file, f, h) ∈ z.read) ↔ f ∈ z.files ∧ h ∈ f.hunks := by
  rw [read, mem_readFrom, List.mem_flatMap]
  constructor
  case mp =>
    rintro ⟨f', hf, hp⟩
    obtain ⟨rfl, hh⟩ := mem_filePieces.mp hp
    exact ⟨hf, hh⟩
  case mpr => exact fun ⟨hf, hh⟩ => ⟨f, hf, mem_filePieces.mpr ⟨rfl, hh⟩⟩

theorem reaches_of_lt {marker : Nat} (hlt : marker < h.newStart) : h.Reaches marker := by
  by_cases hc : h.newCount = 0
  case pos => exact .inr ⟨hc, hlt⟩
  case neg => exact .inl ⟨0, Nat.pos_of_ne_zero hc, hlt⟩

theorem touched_iff : z.Touched ↔ z.Clear ∨ z.Missed := by
  constructor
  case mp =>
    rintro ⟨f, hf, h, hh, s, marker, hn, hg, hr⟩
    obtain ⟨file, hm⟩ := mem_read.mpr ⟨hf, hh⟩
    by_cases hc : file = some s ∧ marker < h.newStart
    case pos =>
      obtain ⟨rfl, hlt⟩ := hc
      exact .inl ⟨s, f, h, hm, hn, marker, hg, hlt⟩
    case neg =>
      refine .inr ⟨file, f, h, hm, s, marker, hn, hg, hr, ?_⟩
      by_cases hs : file = some s
      case pos => exact .inl (Nat.le_of_not_lt fun hlt => hc ⟨hs, hlt⟩)
      case neg => exact .inr hs
  case mpr =>
    rintro (⟨s, f, h, hm, hn, marker, hg, hlt⟩ | ⟨file, f, h, hm, s, marker, hn, hg, hr, -⟩)
    case inl =>
      have ⟨hf, hh⟩ := mem_read.mp ⟨_, hm⟩
      exact ⟨f, hf, h, hh, s, marker, hn, hg, reaches_of_lt hlt⟩
    case inr =>
      have ⟨hf, hh⟩ := mem_read.mp ⟨_, hm⟩
      exact ⟨f, hf, h, hh, s, marker, hn, hg, hr⟩

theorem gate_iff : diffTouchesInlineTestModule z.tree ↔ z.Clear ∨ z.Foreign := by
  rw [diffTouches_iff]
  constructor
  case mp =>
    rintro ⟨s, f, h, hm, hlt⟩
    by_cases hn : Named f s
    case pos => exact .inl ⟨s, f, h, hm, hn, hlt⟩
    case neg => exact .inr ⟨s, f, h, hm, hn, hlt⟩
  case mpr =>
    rintro (⟨s, f, h, hm, -, hlt⟩ | ⟨s, f, h, hm, -, hlt⟩)
    case inl => exact ⟨s, f, h, hm, hlt⟩
    case inr => exact ⟨s, f, h, hm, hlt⟩

theorem gate_exact_iff : (diffTouchesInlineTestModule z.tree ↔ z.Touched) ↔ z.Clear ∨ (z.Missed ↔ z.Foreign) := by
  rw [gate_iff, touched_iff]
  by_cases hc : z.Clear
  case pos => simp [hc]
  case neg => simp [hc, iff_comm]

end Read

section Spanning

def srcName : String := "src/lib.rs"

def moduleHunk : Hunk where
  oldStart := 0
  newStart := 1
  heading  := ⟨[], List.not_mem_nil⟩
  lines    := [
    .added (line "fn one() -> u32 { 1 }" (by decide)),
    .added (line "#[cfg(test)]" (by decide)),
    .added (line "mod tests {}" (by decide))
  ]

-- A new file, whose one hunk starts above the marker.
def newFile : File where
  old    := name srcName
  new    := name srcName
  change := .created 100644
  body   := .hunks [moduleHunk]
  named  := fun _ => rfl

def spanning : ZeroContext where
  files   := [newFile]
  markers := .single srcName 1
  bare    := by simp [newFile, File.hunks, moduleHunk]
  changes := by simp [newFile, File.hunks, moduleHunk, HunkLine.isChange]
  fits    := by simp [newFile, File.hunks, moduleHunk]

theorem not_gate_exact : ¬∀ z : ZeroContext, diffTouchesInlineTestModule z.tree ↔ z.Touched := by
  intro hall
  have htouched : spanning.Touched := by
    refine ⟨newFile, List.mem_singleton_self _, moduleHunk, List.mem_singleton_self _, srcName, 1, ⟨rfl, ?_⟩, rfl, ?_⟩
    · exact fun mode h => Change.noConfusion h
    · exact .inl ⟨2, by decide, by decide⟩
  obtain ⟨s, f, h, hm, marker, hg, hlt⟩ := diffTouches_iff.mp ((hall spanning).mpr htouched)
  have ⟨hf, hh⟩ := mem_read.mp ⟨_, hm⟩
  obtain rfl := List.mem_singleton.mp hf
  obtain rfl := List.mem_singleton.mp hh
  have hmarker : (s, marker) = (srcName, 1) := List.mem_singleton.mp (BTreeMap.get?_eq_some.mp hg)
  obtain rfl := congrArg Prod.snd hmarker
  exact absurd hlt (by decide)

end Spanning

end ZeroContext
