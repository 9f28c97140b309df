import CoxAgent.Domain.Ticket
import CoxAgent.Lib.Text

-- The limits of the lists that a ticket carries.
def maxCriteria : Nat := 5
def maxVerdictHistory : Nat := 12
def maxWipCheckpoints : Nat := 3

-- The newest `cap` entries of a list.
def newest {α : Type} (cap : Nat) (l : List α) : List α :=
  l.drop (l.length - cap)

namespace CaseEvidence

def empty : CaseEvidence where
  image := none
  note  := none
  repro := none
  at'   := ""

end CaseEvidence

namespace TestCase

def pending (description : String) : TestCase where
  description := description
  status      := .pending
  evidence    := none
  sources     := []
  history     := []

-- Append a snapshot of the case to its history.
def snapshot (tc : TestCase) (kind : RecordKind) (at' : String) : TestCase :=
  let record : VerdictRecord := {
    kind
    status := tc.status
    note   := tc.evidence.bind (·.note)
    image  := tc.evidence.bind (·.image)
    at'
  }
  { tc with history := newest maxVerdictHistory (tc.history ++ [record]) }

-- A verdict without an image keeps the image that is there.
def setResult (tc : TestCase) (passed : Bool) (note image : Option String) (at' : String) :
    TestCase :=
  let judged := { tc with
    status   := if passed then .passed else .failed
    evidence := some {
      image := image.or (tc.evidence.bind (·.image))
      note
      repro := tc.evidence.bind (·.repro)
      at'
    }
  }
  judged.snapshot .verdict at'

def setImage (tc : TestCase) (image at' : String) : TestCase :=
  let shown := { tc with
    evidence := some {
      image := some image
      note  := tc.evidence.bind (·.note)
      repro := tc.evidence.bind (·.repro)
      at'
    }
  }
  shown.snapshot .evidenceRefresh at'

def setRepro (tc : TestCase) (repro : String) : TestCase :=
  { tc with evidence := some { tc.evidence.getD .empty with repro := some repro } }

def setSources (tc : TestCase) (sources : List String) : TestCase :=
  { tc with sources }

end TestCase

-- Change the first case with the given text. `none` if there is none.
def updateCase (description : String) (f : TestCase → TestCase) :
    List TestCase → Option (List TestCase)
  | []        => none
  | tc :: tcs =>
    if tc.description = description then
      some (f tc :: tcs)
    else
      (tc :: ·) <$> updateCase description f tcs

namespace Ticket

-- A fresh ticket in the first status of its type.
def new (id : TicketId) (type : TicketType) (title description : String) (priority : Priority)
    (complexity : Complexity) (hasUi : Bool) : Except DomainError Ticket :=
  if Text.trim title = "" then
    .error (.empty "title")
  else
    .ok {
      id, kind := type, title, description, priority, complexity, hasUi
      status := match type with
        | .bug              => .open
        | .feature | .chore => .pending
    }

def setAcceptanceCriteria (t : Ticket) (criteria : List String) : Ticket :=
  { t with acceptanceCriteria := criteria.map Text.trim |>.filter (· ≠ "") |>.take maxCriteria }

-- A write to a field that only some roles may write.
def write (actor : Role) (field : String) (t : Ticket) : Except DomainError Ticket :=
  if !fieldPermitted actor field then
    .error (.fieldNotPermitted actor field)
  else
    .ok t

def setGoalId (t : Ticket) (actor : Role) (goalId : GoalId) : Except DomainError Ticket :=
  write actor "goal_id" { t with goalId := some goalId }

def setServiceTag (t : Ticket) (actor : Role) (tag : String) : Except DomainError Ticket :=
  write actor "service_tag" { t with
    serviceTag := if Text.trim tag = "" then none else some (Text.trim tag) }

def assignToHuman (t : Ticket) (username : String) : Ticket :=
  { t with assignee := if Text.trim username = "" then none else some (Text.trim username) }

-- Only the first stamp counts.
def stampCreatedAt (t : Ticket) (at' : String) : Ticket :=
  if t.createdAt.isNone then { t with createdAt := some at' } else t

def edit (t : Ticket) (actor : Role) (title description : String) : Except DomainError Ticket :=
  if actor ∉ [.po, .user] then
    .error (.fieldNotPermitted actor "title")
  else if Text.trim title = "" then
    .error (.empty "title")
  else
    .ok { t with title, description }

def clarify (t : Ticket) (actor : Role) (description : String) : Except DomainError Ticket :=
  if actor ∉ [.ba, .po, .user] then
    .error (.fieldNotPermitted actor "description")
  else if Text.trim description = "" then
    .error (.empty "description")
  else
    .ok { t with description := Text.trim description }

def setPriority (t : Ticket) (actor : Role) (priority : Priority) : Except DomainError Ticket :=
  write actor "priority" { t with priority }

def setTechnicalDesign (t : Ticket) (actor : Role) (design : TechnicalDesign) :
    Except DomainError Ticket :=
  write actor "design.technical" { t with design := { t.design with technical := some design } }

def setUxDesign (t : Ticket) (actor : Role) (design : UxDesign) : Except DomainError Ticket :=
  write actor "design.ux" { t with design := { t.design with ux := some design } }

def setParent (t : Ticket) (actor : Role) (parent : TicketId) : Except DomainError Ticket :=
  write actor "parent_id" { t with parentId := some parent }

def addDependency (t : Ticket) (actor : Role) (on : TicketId) : Except DomainError Ticket :=
  write actor "depends_on" <|
    if on ∈ t.dependsOn then t else { t with dependsOn := t.dependsOn ++ [on] }

-- Give an orphaned claim back to the queue.
def releaseClaim (t : Ticket) (actor : Role) : Except DomainError Ticket :=
  if actor ≠ .system then
    .error (.fieldNotPermitted actor "claim")
  else if t.status ≠ .inProgress then
    .error (.invalidTransition t.kind t.status t.status)
  else
    .ok { t with
      claimedBy := none
      claimedAt := none
      status    := match t.kind with
        | .bug              => .open
        | .feature | .chore => .ready
    }

-- Repair a bug in a status of features. The flag says whether there was something to repair.
def reclaimMisfiled (t : Ticket) (actor : Role) : Except DomainError (Bool × Ticket) :=
  if actor ≠ .system then
    .error (.fieldNotPermitted actor "status")
  else if t.kind = .bug ∧ t.status ∈ [.pending, .ready, .done, .documented] then
    .ok (true, { t with status := .open, claimedBy := none, claimedAt := none })
  else
    .ok (false, t)

-- Swap the holder of a claim. Returns the holder before.
def takeOver (t : Ticket) (actor : Role) (worker now : String) :
    Except DomainError (Option String × Ticket) :=
  if actor ≠ .system then
    .error (.fieldNotPermitted actor "claim")
  else if t.status ≠ .inProgress then
    .error (.invalidTransition t.kind t.status t.status)
  else
    .ok (t.claimedBy, { t with claimedBy := some worker, claimedAt := some now })

def recordWipCheckpoint (t : Ticket) (actor : Role) (cp : WipCheckpoint) :
    Except DomainError Ticket :=
  write actor "wip_checkpoints" { t with
    wipCheckpoints := newest maxWipCheckpoints (t.wipCheckpoints ++ [cp]) }

def clearWipCheckpoints (t : Ticket) (actor : Role) : Except DomainError Ticket :=
  write actor "wip_checkpoints" { t with wipCheckpoints := [] }

-- One case for each criterion, where a criterion that has a case keeps it.
def syncTestCasesFromAcceptance (t : Ticket) : Ticket :=
  { t with
    testCases := t.acceptanceCriteria.map fun ac =>
      t.testCases.find? (·.description = ac) |>.getD (.pending ac) }

def ensureTestCasesFromAcceptance (t : Ticket) : Ticket :=
  let inSync := t.testCases.length = t.acceptanceCriteria.length ∧
    (t.testCases.zip t.acceptanceCriteria).all fun (tc, ac) => tc.description = ac
  if inSync then t else t.syncTestCasesFromAcceptance

-- Change one case. The flag says whether there was one.
def withCase (t : Ticket) (description : String) (f : TestCase → TestCase) : Bool × Ticket :=
  match updateCase description f t.testCases with
  | none           => (false, t)
  | some testCases => (true, { t with testCases })

def setTestCaseResult (t : Ticket) (description : String) (passed : Bool)
    (note image : Option String) (at' : String) : Bool × Ticket :=
  t.withCase description (·.setResult passed note image at')

def setTestCaseImage (t : Ticket) (description image at' : String) : Bool × Ticket :=
  t.withCase description (·.setImage image at')

-- A blank address is refused.
def setTestCaseRepro (t : Ticket) (description repro : String) : Bool × Ticket :=
  if Text.trim repro = "" then
    (false, t)
  else
    t.withCase description (·.setRepro repro)

def setTestCaseSources (t : Ticket) (description : String) (sources : List String) :
    Bool × Ticket :=
  t.withCase description (·.setSources sources)

end Ticket

-- The public operations that change a ticket.
inductive TicketOp
  | setAcceptanceCriteria (criteria : List String)
  | setGoalId (actor : Role) (goalId : GoalId)
  | setServiceTag (actor : Role) (tag : String)
  | assignToHuman (username : String)
  | stampCreatedAt (at' : String)
  | edit (actor : Role) (title description : String)
  | clarify (actor : Role) (description : String)
  | claim (actor : Role) (worker now : String)
  | setPriority (actor : Role) (priority : Priority)
  | setTechnicalDesign (actor : Role) (design : TechnicalDesign)
  | setUxDesign (actor : Role) (design : UxDesign)
  | setParent (actor : Role) (parent : TicketId)
  | removeDependency (actor : Role) (on : String)
  | addDependency (actor : Role) (on : TicketId)
  | transitionTo (actor : Role) (dst : Status)
  | releaseClaim (actor : Role)
  | reclaimMisfiled (actor : Role)
  | takeOver (actor : Role) (worker now : String)
  | recordWipCheckpoint (actor : Role) (cp : WipCheckpoint)
  | clearWipCheckpoints (actor : Role)
  | syncTestCasesFromAcceptance
  | ensureTestCasesFromAcceptance
  | setTestCaseResult (description : String) (passed : Bool) (note image : Option String)
      (at' : String)
  | setTestCaseImage (description image at' : String)
  | setTestCaseRepro (description repro : String)
  | setTestCaseSources (description : String) (sources : List String)

namespace TicketOp

def run (t : Ticket) : TicketOp → Except DomainError Ticket
  | setAcceptanceCriteria criteria      => .ok (t.setAcceptanceCriteria criteria)
  | setGoalId actor goalId              => t.setGoalId actor goalId
  | setServiceTag actor tag             => t.setServiceTag actor tag
  | assignToHuman username              => .ok (t.assignToHuman username)
  | stampCreatedAt at'                  => .ok (t.stampCreatedAt at')
  | edit actor title description        => t.edit actor title description
  | clarify actor description           => t.clarify actor description
  | claim actor worker now              => t.claim actor worker now
  | setPriority actor priority          => t.setPriority actor priority
  | setTechnicalDesign actor design     => t.setTechnicalDesign actor design
  | setUxDesign actor design            => t.setUxDesign actor design
  | setParent actor parent              => t.setParent actor parent
  | removeDependency actor on           => t.removeDependency actor on
  | addDependency actor on              => t.addDependency actor on
  | transitionTo actor dst              => t.transitionTo actor dst
  | releaseClaim actor                  => t.releaseClaim actor
  | reclaimMisfiled actor               => (t.reclaimMisfiled actor).map Prod.snd
  | takeOver actor worker now           => (t.takeOver actor worker now).map Prod.snd
  | recordWipCheckpoint actor cp        => t.recordWipCheckpoint actor cp
  | clearWipCheckpoints actor           => t.clearWipCheckpoints actor
  | syncTestCasesFromAcceptance         => .ok t.syncTestCasesFromAcceptance
  | ensureTestCasesFromAcceptance       => .ok t.ensureTestCasesFromAcceptance
  | setTestCaseResult d passed note image at' =>
    .ok (t.setTestCaseResult d passed note image at').2
  | setTestCaseImage d image at'        => .ok (t.setTestCaseImage d image at').2
  | setTestCaseRepro d repro            => .ok (t.setTestCaseRepro d repro).2
  | setTestCaseSources d sources        => .ok (t.setTestCaseSources d sources).2

-- An operation that fails leaves the ticket as it is.
def step (t : Ticket) (o : TicketOp) : Ticket :=
  match o.run t with
  | .ok t'   => t'
  | .error _ => t

end TicketOp
