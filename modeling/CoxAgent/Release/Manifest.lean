import CoxAgent.Domain.Kinds
import CoxAgent.Lib.Scan
import CoxAgent.Lib.Text
import CoxAgent.Lib.Topo
import CoxAgent.State.Basic

-- The ticket ids that commit subjects refer to. The two readers of a release have each their own shape.

def fieldChars : Scan.Alphabet Char where
  isField c := c.isAlphanum
  dash      := '-'
  noField   := rfl

-- The letters at a position and what is behind the dash that follows them.
def prefixAt (cs : List Char) : Option (List Char × List Char) :=
  let letters := cs.takeWhile (·.isAlpha)
  match cs.drop letters.length with
  | '-' :: tail => some (letters, tail)
  | _           => none

-- The refs in the case of the project's ids, if there are any.
def ticketRefs (found : List (List Char)) : Option (List String) :=
  let refs := found.map fun ref => String.ofList (ref.map (·.toUpper))
  if refs = [] then none else some refs

namespace ReleaseCandidates

def idLike (suffix : List Char) : Bool :=
  suffix.any (·.isDigit) || (suffix.length ≥ 2 && suffix.all (·.isUpper))

-- The ref that starts with the letter. The scan goes on at its end.
def refAt (cs : List Char) : Option (List Char) × Nat :=
  match prefixAt cs with
  | none                 => (none, 0)
  | some (letters, tail) =>
    let suffix := tail.takeWhile (·.isAlphanum)
    if letters.length ≥ 2 ∧ suffix ≠ [] ∧ idLike suffix then
      (some (letters ++ '-' :: suffix), letters.length + suffix.length)
    else
      (none, 0)

def extractTicketRefs (subject : String) : Option (List String) :=
  ticketRefs (Scan.scan fieldChars refAt 0 true subject.toList)

end ReleaseCandidates

namespace ReleaseAssembly

-- Up to three letters and then digits.
def codeAt (tail : List Char) : List Char × List Char :=
  let letters := (tail.take 3).takeWhile (·.isAlpha)
  (letters, (tail.drop letters.length).takeWhile (·.isDigit))

-- The ref that starts with the letter.
def refIn (cs : List Char) : Option (List Char) := do
  let (letters, tail) ← prefixAt cs
  let (code, digits) := codeAt tail
  let delimited := (tail.drop (code.length + digits.length)).head?.all (!·.isAlphanum)
  if letters ≠ [] ∧ digits ≠ [] ∧ delimited then
    some (letters ++ '-' :: (code ++ digits))
  else
    none

-- The scan goes on behind the letters, whether they start a ref or not.
def refAt (cs : List Char) : Option (List Char) × Nat :=
  (refIn cs, (cs.takeWhile (·.isAlpha)).length - 1)

def extractTicketRefs (subject : String) : Option (List String) :=
  ticketRefs (Scan.scan fieldChars refAt 0 true subject.toList)

end ReleaseAssembly

-- Tickets that ship together, prerequisites first.
structure RcBundle where
  name    : String
  members : List TicketId
deriving DecidableEq, Repr

-- A finished ticket that cannot ship yet.
structure BlockedCandidate where
  ticket : TicketId
  reason : String
deriving DecidableEq, Repr

structure RcAssembly where
  bundles : List RcBundle          := []
  blocked : List BlockedCandidate := []
deriving DecidableEq, Repr

-- The terminal statuses of the two lifecycles.
def isVerifiedComplete (t : Ticket) : Bool :=
  t.status ∈ [.done, .documented, .verified]

def dependencyOrder (members : List Ticket) : List TicketId :=
  Topo.order (·.id) (·.dependsOn) members

namespace ProjectState

variable (s : ProjectState)

def resolves (dep : TicketId) : Bool :=
  (s.ticket dep).any isVerifiedComplete

def blockReason (dep : TicketId) : String :=
  match s.ticket dep with
  | some t => s!"prerequisite {dep.asStr} is {t.status.debug} (not Verified-complete)"
  | none   => s!"prerequisite {dep.asStr} is not in the project state"

def isBlocked (t : Ticket) : Bool :=
  isVerifiedComplete t && t.dependsOn.any fun d => !s.resolves d

def blockedCandidates : List BlockedCandidate :=
  s.tickets.filter s.isBlocked |>.map fun t => {
    ticket := t.id
    reason := "; ".intercalate <| t.dependsOn.filter (fun d => !s.resolves d) |>.map s.blockReason
  }

def blockedIds : List TicketId :=
  s.blockedCandidates.map (·.ticket)

-- The work of a goal that has not been rejected.
def goalMembers (goal : Goal) : List Ticket :=
  s.tickets.filter fun t => t.status ≠ .rejected ∧ t.goalId = some goal.id

-- A goal ships as a whole or not at all.
def goalBundle (goal : Goal) : Option RcBundle :=
  let members := s.goalMembers goal
  if members.isEmpty then
    none
  else if members.all fun t => isVerifiedComplete t && t.id ∉ s.blockedIds then
    some { name := s!"{goal.id.asStr}: {goal.title}", members := dependencyOrder members }
  else
    none

-- Finished work of no known goal. It shares no scope, so each ticket is on its own.
def unattributed : List Ticket :=
  s.tickets.filter fun t =>
    isVerifiedComplete t && t.id ∉ s.blockedIds && !s.goals.any fun g => t.goalId = some g.id

def unattributedBundle : Option RcBundle :=
  if s.unattributed.isEmpty then
    none
  else
    some { name := "Unattributed", members := dependencyOrder s.unattributed }

def assemble : RcAssembly where
  bundles := s.goals.filterMap s.goalBundle ++ s.unattributedBundle.toList
  blocked := s.blockedCandidates

def rcMembers : List TicketId :=
  s.assemble.bundles.flatMap (·.members)

end ProjectState

-- Which commit subjects go into a release. There are two implementations.

-- The items that are not listed yet go to the end, each once.
def pushUnique (into : List String) (ids : List String) : List String :=
  ids.foldl (fun l id => if id ∈ l then l else l ++ [id]) into

namespace ReleaseCandidates

-- The terminal statuses of the ticket's own lifecycle.
def isVerifiedComplete (t : Ticket) : Bool :=
  match t.kind with
  | .bug              => t.status = .verified
  | .feature | .chore => t.status ∈ [.done, .documented]

def verifiedCompleteIds (s : ProjectState) : List String :=
  s.tickets.filter isVerifiedComplete |>.map (·.id.asStr)

-- A subject that is kept out, with the refs that it has.
structure ExcludedSubject where
  subject : String
  refs    : List String := []
  reason  : String
deriving DecidableEq, Repr

structure ManifestOutcome where
  included : List String          := []
  excluded : List ExcludedSubject := []
deriving DecidableEq, Repr

-- Subjects that prove nothing releasable.
def skipped (subject : String) : Bool :=
  subject = "" || Text.startsWith subject "Merge " || Text.startsWith subject "release:"

def noReference : String :=
  "no ticket reference — verification cannot be established"

def notComplete (unverified : List String) : String :=
  ", ".intercalate unverified ++ " not Verified-complete"

def considerSubject (verified : List String) (outcome : ManifestOutcome) (subject : String) :
    ManifestOutcome :=
  let subject := Text.trim subject
  if skipped subject then
    outcome
  else
    match extractTicketRefs subject with
    | none      => { outcome with excluded := outcome.excluded ++ [{ subject, reason := noReference }] }
    | some refs =>
      let unverified := refs.filter (· ∉ verified)
      if unverified = [] then
        { outcome with included := outcome.included ++ [subject] }
      else
        { outcome with
          excluded := outcome.excluded ++ [{ subject, refs, reason := notComplete unverified }] }

def filterIncluded (subjects verified : List String) : ManifestOutcome :=
  subjects.foldl (considerSubject verified) {}

-- The line on the ids that ship and on those that are kept out.
def manifestSummary (outcome : ManifestOutcome) : String :=
  let includedIds := pushUnique [] (outcome.included.flatMap fun s => (extractTicketRefs s).getD [])
  let line :=
    if includedIds = [] then "RC manifest: in —" else "RC manifest: in " ++ ", ".intercalate includedIds
  let out := outcome.excluded.map fun e =>
    e.refs.head?.getD "—" ++ " (" ++ (if e.refs = [] then "no ref" else "unverified") ++ ")"
  if outcome.excluded = [] then line else line ++ " · out " ++ ", ".intercalate out

end ReleaseCandidates

namespace ReleaseAssembly

def verifiedCompleteIds (s : ProjectState) : List String :=
  s.tickets.filter isVerifiedComplete |>.map (·.id.asStr)

structure SubjectManifest where
  included    : List String := []
  includedIds : List String := []
  excluded    : List String := []
  excludedIds : List String := []
deriving DecidableEq, Repr

def correlateSubject (verified : List String) (m : SubjectManifest) (subject : String) : SubjectManifest :=
  match extractTicketRefs subject with
  | none     => { m with excluded := m.excluded ++ [subject] }
  | some ids =>
    if ids.all (· ∈ verified) then
      { m with included := m.included ++ [subject], includedIds := pushUnique m.includedIds ids }
    else
      { m with
        excluded    := m.excluded ++ [subject]
        excludedIds := pushUnique m.excludedIds (ids.filter (· ∉ verified)) }

def filterVerifiedSubjects (subjects verified : List String) : SubjectManifest :=
  subjects.foldl (correlateSubject verified) {}

end ReleaseAssembly
