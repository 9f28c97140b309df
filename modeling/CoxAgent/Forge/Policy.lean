import CoxAgent.Lib.Text
import CoxAgent.State.Records

-- The part of the configuration that the review of pull requests reads.
structure GitConfig where
  enabled             : Bool   := false
  defaultBranch       : String := "main"
  targetBranch        : String := ""
  autoReview          : Bool   := true
  autoMerge           : Bool   := false
  requireCi           : Bool   := true
  maxChangedLines     : Nat    := 3000
  reviewMaxSkips      : Nat    := 4
  holdMaxRounds       : Nat    := 3
  reviewDeadlineHours : Nat    := 12
deriving DecidableEq, Repr

def GitConfig.flowBase (c : GitConfig) : String :=
  let t := Text.trim c.targetBranch
  if t = "" then c.defaultBranch else t

structure PullRequest where
  number    : Nat
  title     : String := ""
  head      : String := ""
  base      : String
  url       : String := ""
  author    : String := ""
  ci        : String := "none"
  mergeable : Bool
  created   : String := ""
deriving DecidableEq, Repr

open Text

-- Lines that are removed do not count.
def diffHasConflictMarkers (diff : String) : Bool :=
  (lines diff).any fun l =>
    startsWith l "+<<<<<<< " || startsWith l " <<<<<<< " || startsWith l "+>>>>>>> " ||
      startsWith l " >>>>>>> "

-- The id at the front of the text: at least two capital letters, a dash and something with a digit.
def ticketIdAt (cs : List Char) : Option String :=
  let letters := cs.takeWhile (·.isUpper)
  if letters.length < 2 then
    none
  else
    match cs.drop letters.length with
    | '-' :: tail =>
      let digits := tail.takeWhile (·.isAlphanum)
      if digits.any (·.isDigit) then some (.ofList (letters ++ '-' :: digits)) else none
    | _           => none

def ticketIdIn (title : String) : Option String :=
  title.toList.tails.findSome? ticketIdAt

-- The other open pull request that names the same ticket.
def competingPr (number : Nat) (title : String) (titles : List (Nat × String)) : Option Nat := do
  let ticket ← ticketIdIn title
  let other ← titles.find? fun o => o.1 ≠ number ∧ ticketIdIn o.2 = some ticket
  return other.1

def sensitivePaths : List String :=
  [".github/workflows", "Dockerfile", "docker-compose", "scripts/", "Cargo.toml", "coxagent.json",
    "CLAUDE.md", "AGENTS.md", ".claude/"]

def isFileHeader (l : String) : Bool :=
  startsWith l "+++" || startsWith l "---"

-- Whether a diff is too big or too load-bearing for a machine to land. A bound of zero is none.
def needsHumanEyes (diff : String) (maxChangedLines : Nat) : Option String :=
  let changed := (lines diff).countP fun l => (startsWith l "+" || startsWith l "-") && !isFileHeader l
  if maxChangedLines > 0 ∧ changed > maxChangedLines then
    some s!"{changed} changed lines is past what lands unreviewed"
  else
    let hit := sensitivePaths.find? fun p => (lines diff).any fun l =>
      contains l p && (isFileHeader l || startsWith l "diff ")
    hit.map fun hit => s!"it changes {hit}, which decides how everything else ships"

def diffTarget (rest : String) : Option String :=
  (words rest).getLast? >>= (stripPrefix · "b/")

def isEvidence (t : String) : Bool :=
  t.utf8ByteSize ≥ 12 && !startsWith t "//" && !startsWith t "*"

-- One more line of the diff. The lines that are added belong to the last file.
def addLine (out : List (String × List String)) (line : String) : List (String × List String) :=
  match stripPrefix line "diff --git " with
  | some rest => out ++ [((diffTarget rest).getD "", [])]
  | none      =>
    match out.getLast?, stripPrefix line "+" with
    | some (file, ls), some added =>
      let t := trim added
      if !startsWith line "+++" && isEvidence t then out.dropLast ++ [(file, ls ++ [t])] else out
    | _, _                        => out

def addedLinesByFile (diff : String) : List (String × List String) :=
  (lines diff).foldl addLine [] |>.filter fun f => f.1 ≠ "" ∧ f.2 ≠ []

-- Whether four fifths of the evidence is on the main branch.
def diffLandedOnMain (diff : String) (read : String → Option String) : Bool :=
  let found := (addedLinesByFile diff).flatMap fun (file, ls) =>
    (ls.take 20).map (contains ((read file).getD "") ·)
  found.length > 0 && found.countP id * 10 ≥ found.length * 8

def changedFiles (diff : String) : List String :=
  (lines diff).filterMap fun l => stripPrefix l "diff --git " >>= diffTarget

def scratchPaths : List String :=
  [".claude/worktrees/", ".claude/settings.local.json", ".gitnexus/", "backups/", "target/",
    "node_modules/", "cox-opencode.json", "cox-config.json"]

-- The agents' own workings that a diff commits.
def commitsScratch (diff : String) : Option String :=
  (lines diff).filter (fun l => isFileHeader l || startsWith l "diff ")
    |>.findSome? fun l => scratchPaths.find? (contains l ·)

structure CompeteCandidate where
  number       : Nat
  files        : Option (List String)
  unsafeChange : Bool
deriving DecidableEq, Repr

inductive CompeteOutcome
  | mergeClose (winner loser : Nat)
  | proceed (winner unsafeOther : Nat)
  | hold (why : String)
deriving DecidableEq, Repr

-- Two pull requests for one ticket. One is closed only if the other covers every file of it.
def resolveCompeting (a b : CompeteCandidate) : CompeteOutcome :=
  match a.files, b.files with
  | some aFiles, some bFiles =>
    if aFiles = [] ∨ bFiles = [] then
      .hold "diff has no parseable file headers — keeping both"
    else
      let aCoversB := bFiles.all (aFiles.contains ·)
      let bCoversA := aFiles.all (bFiles.contains ·)
      if a.unsafeChange then
        .hold "touches a load-bearing or oversized change — a human should rule on it"
      else if b.unsafeChange then
        if bCoversA && !aCoversB then
          .proceed a.number b.number
        else
          .hold "the competing change is load-bearing or oversized — a human should rule on it"
      else if aCoversB then
        .mergeClose a.number b.number
      else if bCoversA then
        .mergeClose b.number a.number
      else
        .hold "each PR touches files the other does not — closing either would drop work"
  | _, _                     => .hold "could not read a competing diff — keeping both"

inductive HoldExpiry
  | keep (rounds : Nat)
  | land (rounds : Nat)
  | close (rounds : Nat)
deriving DecidableEq, Repr

-- What a round makes of a pull request that is held open. The rounds of a hold count while its reason and
-- the head stay the same. A head that cannot be read neither counts nor resets, and no bound never expires.
def openHoldExpiry (prior : Option PrOpenHold) (reason headSha : String) (landable : Bool)
    (maxRounds : Nat) : HoldExpiry :=
  if maxRounds = 0 then
    .keep (prior.elim 1 (·.rounds))
  else
    match prior with
    | none       => .keep 1
    | some prior =>
      if prior.reason ≠ reason then
        .keep 1
      else if headSha = "" then
        .keep (max prior.rounds 1)
      else if prior.headSha ≠ headSha then
        .keep 1
      else
        let rounds := min (prior.rounds + 1) u32Max
        if rounds < maxRounds then
          .keep rounds
        else if landable then
          .land rounds
        else
          .close rounds
