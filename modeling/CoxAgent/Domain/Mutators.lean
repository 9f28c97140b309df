import CoxAgent.Domain.TicketOps

-- An operation as the source writes it: checks and writes on the ticket itself, one after the other.
-- An error keeps the writes before it.
abbrev Mutator := EStateM DomainError Ticket

namespace Mutator

def ensure : Except DomainError Unit → Mutator Unit
  | .ok _    => pure ()
  | .error e => throw e

-- A write that only some roles may make.
def guarded (actor : Role) (field : String) (w : Ticket → Ticket) : Mutator Unit := do
  if !fieldPermitted actor field then
    throw (.fieldNotPermitted actor field)
  modify w

def setGoalId (actor : Role) (goalId : GoalId) : Mutator Unit :=
  guarded actor "goal_id" fun t => { t with goalId := some goalId }

def setServiceTag (actor : Role) (tag : String) : Mutator Unit :=
  guarded actor "service_tag" fun t => { t with
    serviceTag := if Text.trim tag = "" then none else some (Text.trim tag) }

def edit (actor : Role) (title description : String) : Mutator Unit := do
  if actor ∉ [.po, .user] then
    throw (.fieldNotPermitted actor "title")
  if Text.trim title = "" then
    throw (.empty "title")
  modify fun t => { t with title }
  modify fun t => { t with description }

def clarify (actor : Role) (description : String) : Mutator Unit := do
  if actor ∉ [.ba, .po, .user] then
    throw (.fieldNotPermitted actor "description")
  if Text.trim description = "" then
    throw (.empty "description")
  modify fun t => { t with description := "" }
  modify fun t => { t with description := t.description ++ Text.trim description }

def setPriority (actor : Role) (priority : Priority) : Mutator Unit :=
  guarded actor "priority" fun t => { t with priority }

def setTechnicalDesign (actor : Role) (design : TechnicalDesign) : Mutator Unit :=
  guarded actor "design.technical" fun t => { t with
    design := { t.design with technical := some design } }

def setUxDesign (actor : Role) (design : UxDesign) : Mutator Unit :=
  guarded actor "design.ux" fun t => { t with design := { t.design with ux := some design } }

def setParent (actor : Role) (parent : TicketId) : Mutator Unit :=
  guarded actor "parent_id" fun t => { t with parentId := some parent }

def removeDependency (actor : Role) (on : String) : Mutator Unit :=
  guarded actor "depends_on" fun t => { t with dependsOn := t.dependsOn.filter (·.asStr ≠ on) }

def addDependency (actor : Role) (on : TicketId) : Mutator Unit :=
  guarded actor "depends_on" fun t =>
    if on ∈ t.dependsOn then t else { t with dependsOn := t.dependsOn ++ [on] }

def transitionTo (actor : Role) (dst : Status) : Mutator Unit := do
  let t ← get
  if !transitionAllowed t.kind t.status dst then
    throw (.invalidTransition t.kind t.status dst)
  if !canTransition actor t.status dst then
    throw (.transitionNotPermitted actor t.status dst)
  if dst = .ready then
    ensure t.checkReady
  if dst = .verified then
    ensure t.checkCovered
  modify fun t => { t with status := dst }
  -- Leaving `inProgress` frees the claim.
  if dst ≠ .inProgress then
    modify fun t => { t with claimedBy := none }
    modify fun t => { t with claimedAt := none }

def claim (actor : Role) (worker now : String) : Mutator Unit := do
  match (← get).claimedBy with
  | some holder => throw (.alreadyClaimed holder)
  | none        =>
    transitionTo actor .inProgress
    modify fun t => { t with claimedBy := some worker }
    modify fun t => { t with claimedAt := some now }

def releaseClaim (actor : Role) : Mutator Unit := do
  let t ← get
  if actor ≠ .system then
    throw (.fieldNotPermitted actor "claim")
  if t.status ≠ .inProgress then
    throw (.invalidTransition t.kind t.status t.status)
  modify fun t => { t with
    status := match t.kind with
      | .bug              => .open
      | .feature | .chore => .ready }
  modify fun t => { t with claimedBy := none }
  modify fun t => { t with claimedAt := none }

def reclaimMisfiled (actor : Role) : Mutator Bool := do
  let t ← get
  if actor ≠ .system then
    throw (.fieldNotPermitted actor "status")
  if ¬(t.kind = .bug ∧ t.status ∈ [.pending, .ready, .done, .documented]) then
    return false
  modify fun t => { t with status := .open }
  modify fun t => { t with claimedBy := none }
  modify fun t => { t with claimedAt := none }
  return true

def takeOver (actor : Role) (worker now : String) : Mutator (Option String) := do
  let t ← get
  if actor ≠ .system then
    throw (.fieldNotPermitted actor "claim")
  if t.status ≠ .inProgress then
    throw (.invalidTransition t.kind t.status t.status)
  let previous := t.claimedBy
  modify fun t => { t with claimedBy := none }
  modify fun t => { t with claimedBy := some worker }
  modify fun t => { t with claimedAt := some now }
  return previous

def recordWipCheckpoint (actor : Role) (cp : WipCheckpoint) : Mutator Unit := do
  guarded actor "wip_checkpoints" fun t => { t with wipCheckpoints := t.wipCheckpoints ++ [cp] }
  modify fun t => { t with wipCheckpoints := newest maxWipCheckpoints t.wipCheckpoints }

def clearWipCheckpoints (actor : Role) : Mutator Unit :=
  guarded actor "wip_checkpoints" fun t => { t with wipCheckpoints := [] }

end Mutator

-- The operation on the ticket itself. Those without an error are one write.
def TicketOp.mutate : TicketOp → Mutator Unit
  | setAcceptanceCriteria criteria      => modify (·.setAcceptanceCriteria criteria)
  | setGoalId actor goalId              => Mutator.setGoalId actor goalId
  | setServiceTag actor tag             => Mutator.setServiceTag actor tag
  | assignToHuman username              => modify (·.assignToHuman username)
  | stampCreatedAt at'                  => modify (·.stampCreatedAt at')
  | edit actor title description        => Mutator.edit actor title description
  | clarify actor description           => Mutator.clarify actor description
  | claim actor worker now              => Mutator.claim actor worker now
  | setPriority actor priority          => Mutator.setPriority actor priority
  | setTechnicalDesign actor design     => Mutator.setTechnicalDesign actor design
  | setUxDesign actor design            => Mutator.setUxDesign actor design
  | setParent actor parent              => Mutator.setParent actor parent
  | removeDependency actor on           => Mutator.removeDependency actor on
  | addDependency actor on              => Mutator.addDependency actor on
  | transitionTo actor dst              => Mutator.transitionTo actor dst
  | releaseClaim actor                  => Mutator.releaseClaim actor
  | reclaimMisfiled actor               => do let _ ← Mutator.reclaimMisfiled actor
  | takeOver actor worker now           => do let _ ← Mutator.takeOver actor worker now
  | recordWipCheckpoint actor cp        => Mutator.recordWipCheckpoint actor cp
  | clearWipCheckpoints actor           => Mutator.clearWipCheckpoints actor
  | syncTestCasesFromAcceptance         => modify (·.syncTestCasesFromAcceptance)
  | ensureTestCasesFromAcceptance       => modify (·.ensureTestCasesFromAcceptance)
  | setTestCaseResult d passed note image at' =>
    modify fun t => (t.setTestCaseResult d passed note image at').2
  | setTestCaseImage d image at'        => modify fun t => (t.setTestCaseImage d image at').2
  | setTestCaseRepro d repro            => modify fun t => (t.setTestCaseRepro d repro).2
  | setTestCaseSources d sources        => modify fun t => (t.setTestCaseSources d sources).2
