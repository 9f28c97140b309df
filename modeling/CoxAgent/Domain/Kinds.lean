import Mathlib.Data.String.Basic

-- A ticket id such as `CXA-F001`. Deserialization is transparent and skips the blank check of the
-- constructor, so any string can be the id of a stored ticket.
@[ext]
structure TicketId where
  asStr : String
deriving DecidableEq, Repr

structure GoalId where
  asStr : String
deriving DecidableEq, Repr

inductive GoalStatus
  | active
  | retired
deriving DecidableEq, Repr

-- A declared goal of the product. The id stays, the title may be reworded.
structure Goal where
  id     : GoalId
  title  : String
  status : GoalStatus := .active
deriving DecidableEq, Repr

def Goal.isActive (g : Goal) : Bool :=
  g.status = .active

inductive TicketType
  | feature
  | bug
  | chore
deriving DecidableEq, Repr

inductive Priority
  | low
  | medium
  | high
deriving DecidableEq, Repr

inductive Complexity
  | small
  | medium
  | large
deriving DecidableEq, Repr

-- Features and chores use the statuses up to `onHold`, bugs the last three; `inProgress`, `rejected`
-- and `onHold` are shared.
inductive Status
  | pending
  | ready
  | inProgress
  | done
  | documented
  | rejected
  | onHold
  | «open»
  | fixed
  | verified
deriving DecidableEq, Repr

inductive Role
  | ba
  | po
  | sm
  | sa
  | pd
  | devBug
  | devFeature
  | test
  | docs
  | user
  | system
deriving DecidableEq, Repr

inductive DomainError
  | empty (field : String)
  | invalidTransition (ticketType : TicketType) (src dst : Status)
  | fieldNotPermitted (role : Role) (field : String)
  | transitionNotPermitted (role : Role) (src dst : Status)
  | notReady (missing : String)
  | coverageIncomplete (uncovered : Nat) (first : String)
  | invalidVersion (raw : String)
  | alreadyClaimed (holder : String)
deriving DecidableEq, Repr

-- What an outbound port reports when it fails.
inductive PortError
  | notFound (msg : String)
  | conflict (msg : String)
  | corrupt (msg : String)
  | backend (msg : String)
deriving DecidableEq, Repr

-- What a use case reports when it fails.
inductive AppError
  | domain (e : DomainError)
  | port (e : PortError)
deriving DecidableEq, Repr

-- The names that the texts of errors use.
def TicketType.debug : TicketType → String
  | feature => "Feature"
  | bug     => "Bug"
  | chore   => "Chore"

def Status.debug : Status → String
  | pending    => "Pending"
  | ready      => "Ready"
  | inProgress => "InProgress"
  | done       => "Done"
  | documented => "Documented"
  | rejected   => "Rejected"
  | onHold     => "OnHold"
  | «open»     => "Open"
  | fixed      => "Fixed"
  | verified   => "Verified"

def Role.debug : Role → String
  | ba         => "Ba"
  | po         => "Po"
  | sm         => "Sm"
  | sa         => "Sa"
  | pd         => "Pd"
  | devBug     => "DevBug"
  | devFeature => "DevFeature"
  | test       => "Test"
  | docs       => "Docs"
  | user       => "User"
  | system     => "System"

def DomainError.display : DomainError → String
  | empty field                         => s!"empty {field}: must not be blank"
  | invalidTransition type src dst      =>
    s!"invalid transition for {type.debug}: {src.debug} -> {dst.debug}"
  | fieldNotPermitted role field        =>
    s!"role {role.debug} is not allowed to change field `{field}`"
  | transitionNotPermitted role src dst =>
    s!"role {role.debug} is not allowed to perform transition {src.debug} -> {dst.debug}"
  | notReady missing                    => s!"ticket not ready: missing {missing}"
  | coverageIncomplete uncovered first  =>
    s!"cannot verify: {uncovered} acceptance criterion(s) not demonstrated by a passing test " ++
      s!"(first: `{first}`)"
  | invalidVersion raw                  => s!"invalid version string `{raw}`"
  | alreadyClaimed holder               => s!"ticket already claimed by `{holder}`"

section Transitions

open Status

-- Whether `from → to` is an edge for this type of ticket. Repeating the current status is always
-- allowed, so that a retried run is a no-op.
def transitionAllowed (type : TicketType) (src dst : Status) : Bool :=
  src == dst ||
  match type with
  | .feature | .chore =>
    match src, dst with
    | pending, ready | pending, rejected                    => true
    | ready, inProgress | ready, pending | ready, rejected  => true
    | inProgress, done                                      => true
    | done, documented                                      => true
    | pending, onHold | ready, onHold                       => true
    | onHold, pending | onHold, rejected                    => true
    -- Ship-truth demotion: marked shipped, but the diff never landed.
    | done, pending | documented, pending                   => true
    | _, _                                                  => false
  | .bug =>
    match src, dst with
    | «open», inProgress | «open», rejected | «open», onHold => true
    | inProgress, fixed | inProgress, rejected               => true
    | fixed, verified | fixed, «open»                        => true
    | onHold, «open» | onHold, rejected                      => true
    | verified, «open»                                       => true
    | _, _                                                   => false

-- Whether `actor` may perform the move. `system` does bookkeeping and may perform every edge.
def canTransition (actor : Role) (src dst : Status) : Bool :=
  src == dst || actor == .system ||
  match src, dst with
  | pending, ready                                 => actor ∈ [.sa, .pd, .user]
  | pending, rejected | «open», rejected
  | ready, rejected | onHold, rejected             => actor ∈ [.po, .user]
  | pending, onHold | ready, onHold | «open», onHold => actor ∈ [.po, .sm, .user]
  | onHold, pending | onHold, «open»               => actor ∈ [.po, .sm, .user]
  | done, pending | documented, pending
  | verified, «open»                               => actor ∈ [.po, .user]
  | ready, pending                                 => actor ∈ [.po, .user]
  | ready, inProgress | «open», inProgress         => actor ∈ [.devBug, .devFeature]
  | inProgress, done                               => actor ∈ [.devFeature, .devBug]
  | inProgress, fixed                              => actor == .devBug
  | fixed, verified | fixed, «open»                => actor ∈ [.test, .user]
  | done, documented                               => actor == .docs
  | _, _                                           => false

-- Whether `actor` may write `field`, independently of the ticket's status.
def fieldPermitted (actor : Role) (field : String) : Bool :=
  actor == .system ||
  match field with
  | "priority"    => actor ∈ [.po, .user]
  | "goal_id"     => actor ∈ [.po, .user]
  | "service_tag" => actor ∈ [.ba, .po, .user, .sa]
  | "design.technical" | "depends_on" | "parent_id" => actor == .sa
  | "design.ux"   => actor ∈ [.pd, .sa]
  | _             => false

@[simp]
theorem fieldPermitted_system (field : String) : fieldPermitted .system field = true := by
  simp [fieldPermitted]

end Transitions
