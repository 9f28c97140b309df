import CoxAgent.Domain.Kinds

inductive TestCaseStatus
  | pending
  | passed
  | failed
deriving DecidableEq, Repr

inductive RecordKind
  | verdict
  | evidenceRefresh
deriving DecidableEq, Repr

structure VerdictRecord where
  kind   : RecordKind
  status : TestCaseStatus
  note   : Option String
  image  : Option String
  at'    : String
deriving DecidableEq, Repr

structure CaseEvidence where
  image : Option String
  note  : Option String
  repro : Option String
  at'   : String
deriving DecidableEq, Repr

structure TestCase where
  description : String
  status      : TestCaseStatus
  evidence    : Option CaseEvidence
  sources     : List String
  history     : List VerdictRecord
deriving DecidableEq, Repr

structure WipCheckpoint where
  refName    : String
  sha        : String
  note       : String
  recordedAt : String
deriving DecidableEq, Repr

structure TechnicalDesign where
  approach     : String
  files        : List String
  apiContract  : String
  dataChanges  : String
  testPlan     : String
  alternatives : String
deriving DecidableEq, Repr

structure UxDesign where
  userFlow        : String
  screens         : List String
  componentStates : List String
  responsiveNotes : String
deriving DecidableEq, Repr

structure Design where
  technical : Option TechnicalDesign := none
  ux        : Option UxDesign        := none
deriving DecidableEq, Repr

@[ext]
structure Ticket where
  id                 : TicketId
  kind               : TicketType
  title              : String
  description        : String               := ""
  priority           : Priority             := .medium
  complexity         : Complexity           := .small
  status             : Status
  hasUi              : Bool                 := false
  design             : Design               := {}
  parentId           : Option TicketId      := none
  dependsOn          : List TicketId        := []
  acceptanceCriteria : List String          := []
  testCases          : List TestCase        := []
  claimedBy          : Option String        := none
  claimedAt          : Option String        := none
  assignee           : Option String        := none
  goalId             : Option GoalId        := none
  createdAt          : Option String        := none
  wipCheckpoints     : List WipCheckpoint   := []
  serviceTag         : Option String        := none
deriving DecidableEq, Repr

-- The criteria that no passing test case demonstrates, in ticket order. The first case with the
-- criterion's text decides.
def uncovered (criteria : List String) (cases : List TestCase) : List String :=
  criteria.filter fun ac =>
    (cases.find? (·.description = ac) |>.map (·.status)) ≠ some .passed

namespace Ticket

-- Definition of Ready: a technical design, and a UX design when the ticket has UI.
def checkReady (t : Ticket) : Except DomainError Unit :=
  if t.design.technical.isNone then
    .error (.notReady "design.technical")
  else if t.hasUi && t.design.ux.isNone then
    .error (.notReady "design.ux")
  else
    .ok ()

def checkCovered (t : Ticket) : Except DomainError Unit :=
  match uncovered t.acceptanceCriteria t.testCases with
  | []                 => .ok ()
  | missing@(first :: _) => .error (.coverageIncomplete missing.length first)

-- The edge, then the actor, then the precondition of the target status.
def checkTransition (t : Ticket) (actor : Role) (dst : Status) : Except DomainError Unit :=
  if !transitionAllowed t.kind t.status dst then
    .error (.invalidTransition t.kind t.status dst)
  else if !canTransition actor t.status dst then
    .error (.transitionNotPermitted actor t.status dst)
  else if dst = .ready then
    t.checkReady
  else if dst = .verified then
    t.checkCovered
  else
    .ok ()

-- Leaving `inProgress` (completion or reject) frees the claim.
def enter (t : Ticket) (dst : Status) : Ticket :=
  if dst = .inProgress then
    { t with status := dst }
  else
    { t with status := dst, claimedBy := none, claimedAt := none }

def transitionTo (t : Ticket) (actor : Role) (dst : Status) : Except DomainError Ticket :=
  match t.checkTransition actor dst with
  | .error e => .error e
  | .ok _    => .ok (t.enter dst)

def claim (t : Ticket) (actor : Role) (worker now : String) : Except DomainError Ticket :=
  match t.claimedBy with
  | some holder => .error (.alreadyClaimed holder)
  | none        =>
    match t.transitionTo actor .inProgress with
    | .error e => .error e
    | .ok t    => .ok { t with claimedBy := some worker, claimedAt := some now }

def removeDependency (t : Ticket) (actor : Role) (on : String) : Except DomainError Ticket :=
  if !fieldPermitted actor "depends_on" then
    .error (.fieldNotPermitted actor "depends_on")
  else
    .ok { t with dependsOn := t.dependsOn.filter (·.asStr ≠ on) }

-- The fields other than the status and the claim are out of reach of a transition.
theorem enter_preserves (t : Ticket) (dst : Status) :
    (t.enter dst).id = t.id ∧ (t.enter dst).dependsOn = t.dependsOn := by
  unfold enter
  split <;> exact ⟨rfl, rfl⟩

theorem claim_preserves {t t' : Ticket} {actor : Role} {worker now : String}
    (h : t.claim actor worker now = .ok t') : t'.id = t.id ∧ t'.dependsOn = t.dependsOn := by
  simp only [claim, transitionTo] at h
  split at h <;> try contradiction
  split at h <;> try contradiction
  case _ h₁ =>
    split at h₁ <;> cases h₁
    cases h
    exact t.enter_preserves .inProgress

end Ticket
