import CoxAgent.Lib.Text
import CoxAgent.State.Basic

-- What the library of semantic versions does.
structure SemverLib where
  parse : String → Option SemVer
  le    : SemVer → SemVer → Bool

structure MilestoneProjection where
  id            : String
  name          : String
  targetVersion : String
  goalComplete  : Bool
  released      : Bool
  reached       : Bool
  committed     : List TicketId
  «open»        : List TicketId
  progress      : Nat
deriving DecidableEq, Repr

-- Work that is delivered or dead. What is fixed or on hold still stands in the way.
def closesScope (status : Status) : Bool :=
  status ∈ [.done, .documented, .verified, .rejected]

-- The conversion to eight bits, clamped to a full bar.
def percentByte (n : Nat) : Nat :=
  if n < 2 ^ 8 then n else 100

-- The closed share of a scope, rounded half up.
def milestoneProgress (released : Bool) (closed scope : Nat) : Nat :=
  if released then 100
  else if scope ≠ 0 then percentByte ((closed * 100 + scope / 2) / scope)
  else 0

namespace ProjectState

variable (lib : SemverLib) (s : ProjectState)

-- The first milestone that is not released, unless its target is broken.
def activeTargetIndex : Option Nat :=
  (s.milestones.findIdx? (!·.fulfilled)).filter fun i =>
    s.milestones[i]?.any (lib.parse ·.targetVersion |>.isSome)

def attributedMilestone (id : TicketId) : Option String :=
  s.sprint.bind fun sprint =>
    if id ∈ sprint.committed then
      (s.activeTargetIndex lib).bind fun i => s.milestones[i]?.map (·.name)
    else
      none

-- What the sprint has committed and the board still has.
def committedScope : List TicketId :=
  s.sprint.elim [] fun sprint => sprint.committed.filter fun id => (s.ticket id).isSome

def isClosedTicket (id : TicketId) : Bool :=
  (s.ticket id).any (closesScope ·.status)

def isOpenTicket (id : TicketId) : Bool :=
  (s.ticket id).any (!closesScope ·.status)

-- The scope belongs to the active target by position.
def rowScope (i : Nat) : List TicketId :=
  if s.activeTargetIndex lib = some i then s.committedScope else []

def projectMilestone (i : Nat) (m : Milestone) : MilestoneProjection where
  id            := m.name
  name          := m.name
  targetVersion := m.targetVersion
  goalComplete  := m.goalComplete
  released      := m.fulfilled
  reached       := m.fulfilled || (lib.parse m.targetVersion).any (lib.le · s.currentVersion)
  committed     := s.rowScope lib i
  «open»        := if s.activeTargetIndex lib = some i then s.committedScope.filter s.isOpenTicket else []
  progress      :=
    milestoneProgress m.fulfilled ((s.rowScope lib i).countP s.isClosedTicket) (s.rowScope lib i).length

def projectMilestones : List MilestoneProjection :=
  s.milestones.mapIdx (s.projectMilestone lib)

end ProjectState
