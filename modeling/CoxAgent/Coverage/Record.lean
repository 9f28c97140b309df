import CoxAgent.Domain.TicketOps
import CoxAgent.Lib.FirstBest
import CoxAgent.Lib.UnitFloat
import CoxAgent.State.Basic

-- What the test agent says about one acceptance criterion.
structure TestVerdict where
  ac     : String
  passed : Bool        := false
  note   : String      := ""
  route  : String      := ""
  tests  : List String := []
deriving DecidableEq, Repr

namespace Coverage

open Text

section Matching

def fuzzySimilarity : ℚ := UnitFloat.round (7 / 10)

def keywordOverlapMin : ℚ := UnitFloat.round (3 / 5)

def stopwords : List String := [
  "a", "an", "the", "is", "are", "be", "been", "to", "of", "and", "or", "on", "in", "for",
  "with", "that", "this", "it", "its", "as", "at", "by", "from", "when", "then", "than", "into",
  "not", "no", "after", "before", "each", "every", "any", "all", "should", "must", "can", "will",
  "may", "do", "does", "done"
]

-- The rest of a row of edit distances, where `left` stands before it and the row above starts with `diagonal`.
def editRow (a : Char) (left diagonal : Nat) : List Char → List Nat → List Nat
  | b :: bs, up :: above =>
    let cost := if a ≠ b then 1 else 0
    let cell := min (min (up + 1) (left + 1)) (diagonal + cost)
    cell :: editRow a cell up bs above
  | _, _                 => []

def nextRow (b : List Char) (prev : List Nat) (row : Nat × Char) : List Nat :=
  match prev with
  | diagonal :: above => (row.1 + 1) :: editRow row.2 (row.1 + 1) diagonal b above
  | []                => []

def levenshtein (a b : String) : Nat :=
  let a := a.toList
  let b := b.toList
  if a = [] then
    b.length
  else if b = [] then
    a.length
  else
    a.zipIdx.foldl (fun prev (c, i) => nextRow b prev (i, c)) (List.range (b.length + 1)) |>.getLastD 0

-- The two rows of the loop, of which one is written while the other is read.
structure EditRows where
  prev : List Nat
  cur  : List Nat
deriving DecidableEq, Repr

namespace EditRows

def init (b : List Char) : EditRows where
  prev := List.range (b.length + 1)
  cur  := List.replicate (b.length + 1) 0

def fillCell (ca : Char) (rows : EditRows) (cell : Char × Nat) : EditRows :=
  let (cb, j) := cell
  let cost := if ca ≠ cb then 1 else 0
  let least := min (min (rows.prev.getD (j + 1) 0 + 1) (rows.cur.getD j 0 + 1)) (rows.prev.getD j 0 + cost)
  { rows with cur := rows.cur.set (j + 1) least }

def fillRow (b : List Char) (rows : EditRows) (row : Char × Nat) : EditRows :=
  let (ca, i) := row
  let filled := b.zipIdx.foldl (fillCell ca) { rows with cur := rows.cur.set 0 (i + 1) }
  { prev := filled.cur, cur := filled.prev }

end EditRows

-- The distance as it is computed in place.
def levenshteinRows (a b : String) : Nat :=
  let a := a.toList
  let b := b.toList
  if a = [] then
    b.length
  else if b = [] then
    a.length
  else
    let rows := a.zipIdx.foldl (EditRows.fillRow b) (EditRows.init b)
    rows.prev.getD b.length 0

def similarity (a b : String) : ℚ :=
  let longest := max a.length b.length
  if longest = 0 then 1 else UnitFloat.sub 1 (UnitFloat.div (levenshtein a b) longest)

-- The words that mean something.
def tokens (text : String) : List String :=
  text.toList.splitOnP (fun c => !c.isAlphanum)
    |>.filter (· ≠ [])
    |>.map (fun w => String.ofList (w.map (·.toLower)))
    |>.filter (· ∉ stopwords)

-- The share of the words of the criterion that the text has too.
def keywordOverlap (criterion text : String) : ℚ :=
  let ac := tokens criterion
  let t := tokens text
  if ac = [] then 0 else UnitFloat.div (ac.countP (· ∈ t)) ac.length

def matchScore (criterion text : String) : ℚ :=
  if trim criterion = trim text then 1 else max (similarity criterion text) (keywordOverlap criterion text)

def matchesCriterion (criterion text : String) : Bool :=
  trim criterion = trim text ∨ similarity criterion text ≥ fuzzySimilarity ∨
    keywordOverlap criterion text ≥ keywordOverlapMin

end Matching

section Provenance

def isApiRequestResponse (note : String) : Bool :=
  let s := trim note
  let method := (words s)[0]?.getD ""
  let path := (words s)[1]?.getD ""
  (method ∈ ["GET", "POST", "PUT", "PATCH", "DELETE", "HEAD", "OPTIONS"] ∧ startsWith path "/") ∨
    startsWith s "curl "

-- Where the proof for a verdict lives, most specific first.
def sourcesFor (v : TestVerdict) : List String :=
  let files := v.tests.map trim |>.filter (· ≠ "")
  if files ≠ [] then
    files
  else if isApiRequestResponse v.note then
    [trim v.note]
  else if trim v.route ≠ "" then
    [trim v.route]
  else
    []

def isAsciiGraphic (c : Char) : Bool :=
  33 ≤ c.toNat ∧ c.toNat ≤ 126

def isAppPath (r : String) : Bool :=
  startsWith r "/" && r.toList.all fun c => isAsciiGraphic c && c ∉ "\x22'<>\\\x60".toList

-- Only a path of the app that is deployed makes a link.
def liveReproUrl (route : String) (hostPort : Option UInt16) : Option String :=
  let r := trim route
  match hostPort with
  | some port => if isAppPath r then some s!"http://127.0.0.1:{port}{r}" else none
  | none      => none

end Provenance

-- The verdict goes to the case of the criterion, with where its proof lives. The flag says whether there was a
-- case.
def applyVerdict (t : Ticket) (criterion : String) (v : TestVerdict) (at' : String)
    (hostPort : Option UInt16) : Bool × Ticket :=
  let t := t.ensureTestCasesFromAcceptance
  let note := if trim v.note = "" then none else some (trim v.note)
  let judged := t.setTestCaseResult criterion v.passed note none at'
  let sourced :=
    if sourcesFor v = [] then
      judged
    else
      let r := judged.2.setTestCaseSources criterion (sourcesFor v)
      (judged.1 || r.1, r.2)
  match liveReproUrl v.route hostPort with
  | some url =>
    let r := sourced.2.setTestCaseRepro criterion url
    (sourced.1 || r.1, r.2)
  | none     => sourced

-- The criteria of a board, with the place of their ticket.
def candidates (board : List (List String)) : List (Nat × String) :=
  board.zipIdx.flatMap fun (criteria, i) => criteria.map (i, ·)

-- The place and the criterion that a text is meant for: the first ticket with this very text, or else the closest
-- criterion.
def landing (board : List (List String)) (ac : String) : Option (Nat × String) :=
  match board.findIdx? (ac ∈ ·) with
  | some i => some (i, ac)
  | none   =>
    FirstBest.best (fun c => matchesCriterion ac c.2) (fun c => matchScore ac c.2) (candidates board)
      |>.map (·.2)

def recordVerdict (at' : String) (hostPort : Option UInt16) (acc : Bool × ProjectState)
    (v : TestVerdict) : Bool × ProjectState :=
  let s := acc.2
  let ac := trim v.ac
  if ac = "" then
    acc
  else
    match landing (s.tickets.map (·.acceptanceCriteria)) ac with
    | none                => acc
    | some (i, criterion) =>
      match s.tickets[i]? with
      | none   => acc
      | some t =>
        let r := applyVerdict t criterion v at' hostPort
        (acc.1 || r.1, { s with tickets := s.tickets.set i r.2 })

-- The flag says whether anything changed.
def recordVerdicts (s : ProjectState) (verdicts : List TestVerdict) (at' : String)
    (hostPort : Option UInt16) : Bool × ProjectState :=
  verdicts.foldl (recordVerdict at' hostPort) (false, s)

-- The cases of the source's tests.
example : levenshtein "kitten" "sitting" = 3 := by
  decide

example : keywordOverlap "repro steps are listed on the ticket" "the ticket lists repro steps" = 3 / 4 := by
  decide +kernel

example : liveReproUrl "  /settings#x  " (some 8101) = some "http://127.0.0.1:8101/settings#x" := by
  decide +kernel

end Coverage
