import CoxAgent.Lib.BTreeMap
import CoxAgent.Lib.Lines
import CoxAgent.Lib.Replace

-- The work that is not committed, as far as a change of inline tests is looked for: the diff without context
-- lines, and the line of the first `#[cfg(test)]` of each file that has one, counted from 0.
structure WorkingTreeDiff where
  unified0Diff : String
  cfgTestLine  : BTreeMap String Nat

-- The first line on the new side, of what follows the opening of a hunk header.
def newSideStart (hunk : String) : Option Nat := do
  let newSide ← (hunk.toList.splitOn '+')[1]?
  Text.parseBelow (2 ^ 64) (newSide.takeWhile (· ∉ [',', ' ']))

-- Whether a changed line falls at or below the marker of its file.
def diffTouchesInlineTestModule (tree : WorkingTreeDiff) : Bool :=
  go none (Text.lines tree.unified0Diff)
where
  go (file : Option String) : List String → Bool
    | []            => false
    | line :: lines =>
      match Text.stripPrefix line "+++ b/" with
      | some rest => go (some (Text.trim rest)) lines
      | none      =>
        match Text.stripPrefix line "@@ ", file with
        | some hunk, some f =>
          match newSideStart hunk, tree.cfgTestLine.get? f with
          | some start, some testModLine => start > testModLine || go file lines
          | _, _                         => go file lines
        | _, _              => go file lines
