import CoxAgent.Lib.FirstBest
import CoxAgent.Lib.Scan
import CoxAgent.Lib.Text
import CoxAgent.State.Records

-- The ticket ids that the search for reverts finds in the subjects of commits.
namespace RevertLearning

-- The parts before and after the first separator.
def splitOnce (sep : Char) : List Char → Option (List Char × List Char)
  | []      => none
  | c :: cs => if c = sep then some ([], cs) else (splitOnce sep cs).map fun (p, q) => (c :: p, q)

def upperOrDigit (cs : List Char) : Bool :=
  cs.all fun c => c.isUpper || c.isDigit

-- The shape of an id: capitals, a dash, and capitals and digits that start with the one and end with the other.
def isTicketShaped (token : List Char) : Bool :=
  match splitOnce '-' token with
  | none              => false
  | some (name, code) =>
    let upper (cs : List Char) := cs ≠ [] && cs.all (·.isUpper)
    let alnum (cs : List Char) (max : Nat) := cs ≠ [] && cs.length ≤ max && upperOrDigit cs
    alnum name 10 && upper name && 2 ≤ token.length && token.length ≤ 17 &&
      code.length ≥ 2 && code.length ≤ 12 && code.head?.any (·.isUpper) &&
      code.getLast?.any (·.isDigit) && upperOrDigit code

def flush (token : List Char) (ids : List String) : List String :=
  if isTicketShaped token ∧ .ofList token ∉ ids then ids ++ [.ofList token] else ids

-- Letters, digits and dashes make a token. Any other character ends it.
def ticketIdsFrom (ids : List String) (token : List Char) : List Char → List String
  | []      => flush token ids
  | c :: cs =>
    if c.isAlphanum ∨ c = '-' then
      ticketIdsFrom ids (token ++ [c]) cs
    else
      ticketIdsFrom (flush token ids) [] cs

def ticketIdsIn (text : String) : List String :=
  ticketIdsFrom [] [] text.toList

-- The reverts in the log of the base branch, and the tickets whose work they undo.

structure LogCommit where
  sha     : String
  date    : Option String
  subject : String
deriving DecidableEq, Repr

structure RevertHit where
  sha        : String
  subject    : String
  revertedAt : String
  ticket     : String
deriving DecidableEq, Repr

-- Git's own subjects, and the conventional ones.
def isRevertSubject (lower : Text.Lowercase) (subject : String) : Bool :=
  let lower := lower.toLowercase (Text.trim subject)
  ["revert \"", "revert:", "revert "].any (Text.startsWith lower ·)

-- A line in three parts. A date that is blank is none.
def fields (sep : Char) (line : List Char) : LogCommit :=
  let (sha, rest) := (splitOnce sep line).elim (line, none) fun (sha, rest) => (sha, some rest)
  let (date, subject) := match rest with
    | none   => (none, none)
    | some l => (splitOnce sep l).elim (some l, none) fun (date, subject) => (some date, some subject)
  {
    sha     := Text.trim (.ofList sha)
    date    := (date.map fun d => Text.trim (.ofList d)).filter (· ≠ "")
    subject := .ofList (subject.getD [])
  }

-- The unit separator, or a tab if there is no date behind one.
def parseLogLine (line : String) : LogCommit :=
  let byUnit := fields '\x1f' line.toList
  let byTab := fields '\t' line.toList
  if byUnit.date.isSome then byUnit
  else if byTab.date.isSome then byTab
  else { byUnit with date := none }

def parseLogCommits (out : String) : List LogCommit :=
  Text.lines out |>.filter (Text.trim · ≠ "") |>.map parseLogLine

def i64Max     : Nat := 9223372036854775807
def daySecs    : Nat := 86400
def nanosecond : Nat := 1000000000

-- So many days in nanoseconds. The conversion to seconds panics if they are too many.
def durationDays (days : Nat) : Option Nat :=
  let days := if days ≤ i64Max then days else i64Max
  if daySecs * days ≤ i64Max then some (nanosecond * (daySecs * days)) else none

section Detect

-- The lower case of the standard library, the parser of RFC 3339 texts, which gives instants in
-- nanoseconds, and the subject of the commit that a revert undoes.
variable (lower : Text.Lowercase) (parse : String → Option Int) (revertedSubjectOf : String → Option String)

def parseRfc3339 (s : String) : Option Int :=
  parse (Text.trim s)

-- The tickets in the subject, or in the one of the reverted commit if there is none.
def revertIds (c : LogCommit) : List String :=
  let ids := ticketIdsIn c.subject
  if ids = [] then ((revertedSubjectOf c.sha).map ticketIdsIn).getD [] else ids

-- The deploys of the tickets within the window, with their times.
def deploysNear (window : Nat) (deploys : List DeployRecord) (ids : List String) (revertAt : Int) :
    List (DeployRecord × Int) :=
  deploys.filter (fun d => ids.any (· = d.ticket.asStr))
    |>.filterMap (fun d => (parseRfc3339 parse d.at').map (d, ·))
    |>.filter fun (_, at') => (revertAt - at').natAbs ≤ window

-- The nearest deploy names the ticket, the first among equals.
def detectRevert (window : Nat) (deploys : List DeployRecord) (c : LogCommit) : Option RevertHit :=
  if !isRevertSubject lower c.subject then
    none
  else
    match c.date.bind (parseRfc3339 parse) with
    | none          => none
    | some revertAt =>
      let near := deploysNear parse window deploys (revertIds revertedSubjectOf c) revertAt
      (FirstBest.best (fun _ => true) (fun (_, at') => -((revertAt - at').natAbs : Int)) near).map
        fun (_, d, _) =>
          { sha := c.sha, subject := c.subject, revertedAt := c.date.getD "", ticket := d.ticket.asStr }

-- Nothing if the length of the window panics.
def detectReverts (out : String) (deploys : List DeployRecord) (windowDays : Nat) :
    Option (List RevertHit) :=
  (durationDays windowDays).map fun window =>
    parseLogCommits out |>.filterMap (detectRevert lower parse revertedSubjectOf window deploys)

end Detect

end RevertLearning
