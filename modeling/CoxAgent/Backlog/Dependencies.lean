import CoxAgent.Lib.Lists
import CoxAgent.Lib.LongestPath
import CoxAgent.Lib.Reach
import CoxAgent.Selection
import CoxAgent.State.Integrity

-- A ticket that blocks another one, with its status.
structure Blocker where
  ticket : TicketId
  status : Status
deriving DecidableEq, Repr

-- A ready ticket that is blocked, with what blocks it.
structure BlockedSummary where
  id       : TicketId
  blockers : List TicketId
deriving DecidableEq, Repr

structure DependencyRadar where
  blocked      : List BlockedSummary := []
  criticalPath : List TicketId       := []
deriving DecidableEq, Repr

-- The statuses in which a dependency no longer blocks, as the radar has them.
def resolved : Status → Bool
  | .done | .documented | .verified => true
  | _                               => false

namespace ProjectState

variable (s : ProjectState)

-- A ticket that exists and can still block another one.
def unfinished (id : TicketId) : Bool :=
  (s.ticket id).any (!resolved ·.status)

def blockedBy (id : TicketId) : List Blocker :=
  match s.ticket id with
  | none   => []
  | some t => Lists.retainNew (t.dependsOn.filter s.unfinished) |>.filterMap fun dep =>
      (s.ticket dep).map fun d => ⟨dep, d.status⟩

-- The blocking work from the direct blockers on, each in front of what blocks it.
def blockingChain (id : TicketId) : List TicketId :=
  (Reach.walk s.dependencies s.unfinished s.tickets.length id ([], [id])).1

-- A ticket whose dependencies lead back to it. The stack holds each dependency of the board at most once.
def onCycle (t : Ticket) : Bool :=
  let fuel := Reach.work s.dependencies (s.tickets.map (·.id)) [] t.dependsOn.reverse
  Reach.finds s.dependencies t.id fuel [] t.dependsOn.reverse

def cycleMembers : BTreeSet String :=
  (s.tickets.filter s.onCycle).map (·.id.asStr) |>.foldl (fun members id => members.insert id ()) ∅

def unknownDependencies : List (TicketId × TicketId) :=
  s.tickets.flatMap fun t =>
    (Lists.retainNew t.dependsOn).filter (fun dep => (s.ticket dep).isNone) |>.map fun dep => (t.id, dep)

-- The highest priority on a chain.
def topPriority (chain : List TicketId) : Nat :=
  (chain.filterMap fun id => (s.ticket id).map (priorityRank ·.priority)).max?.getD 0

-- The longer chain first, then the higher priority, then the smaller ids.
def betterChain (candidate best : List TicketId) : Bool :=
  if candidate.length ≠ best.length then
    best.length < candidate.length
  else if s.topPriority candidate ≠ s.topPriority best then
    s.topPriority best < s.topPriority candidate
  else
    candidate.map (·.asStr) < best.map (·.asStr)

def dependsOn (id : TicketId) : Option (List TicketId) :=
  (s.ticket id).map (·.dependsOn)

def longestUnresolvedFrom (seen : List TicketId) (id : TicketId) (memo : LongestPath.Memo TicketId) :
    List TicketId × LongestPath.Memo TicketId :=
  LongestPath.longest s.dependsOn s.unfinished s.betterChain s.tickets.length seen id memo

-- The longest chain of unfinished work, which has at least one dependency.
def criticalPath : List TicketId :=
  (s.tickets.foldl (fun (best, memo) t =>
    if resolved t.status then
      (best, memo)
    else
      let (path, memo) := s.longestUnresolvedFrom [] t.id memo
      let candidate := t.id :: path
      (if 2 ≤ candidate.length && s.betterChain candidate best then candidate else best, memo))
    (([], fun _ => none) : List TicketId × LongestPath.Memo TicketId)).1

def blockers (id : TicketId) : List TicketId :=
  s.blockingChain id ++ ((s.unknownDependencies.filter (·.1 = id)).map (·.2))

-- Every ready ticket that something blocks, and the critical path.
def radar : DependencyRadar where
  blocked      := s.tickets.filter (·.status = .ready) |>.filterMap fun t =>
    if s.blockers t.id = [] then none else some ⟨t.id, s.blockers t.id⟩
  criticalPath := s.criticalPath

end ProjectState
