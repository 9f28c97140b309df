import CoxAgent.Lib.Lists
import CoxAgent.Lib.Text
import CoxAgent.Selection
import CoxAgent.Sprint.Drive
import Mathlib.Algebra.Ring.Nat

-- What the scope of a sprint is sized, filled and judged by.
namespace ProjectState

variable (s : ProjectState)

-- How many committed tickets have shipped.
def doneCount : Nat :=
  match s.sprint with
  | none        => 0
  | some sprint => sprint.committed.countP fun id =>
      (s.ticket id).any fun t => t.status ∈ [.done, .documented]

-- The least number of tickets that a sprint is sized for.
def capacityFloor : Nat := 3

-- What the last sprints have finished, with a little stretch and without what was reverted.
def sprintCapacity : Nat :=
  let history := s.sprints.reverse.take 5 |>.map (·.done)
  if history = [] then
    capacityFloor * 2
  else
    let avg := history.sum / history.length
    let reverted := s.revertedWork.countP (·.decision = .approved)
    max (avg + avg / 2 - reverted) capacityFloor

-- The open bugs that no floor parks take the seats that are left, while there are any.
def seatBugs (floor : Option Priority) : Nat → List TicketId → List Ticket → List TicketId
  | 0, picked, _               => picked
  | _, picked, []              => picked
  | budget + 1, picked, t :: ts =>
    if t.kind = .bug ∧ t.status = .open ∧ ¬belowBugBurnFloor floor t.priority ∧ t.id ∉ picked then
      seatBugs floor budget (picked ++ [t.id]) ts
    else
      seatBugs floor (budget + 1) picked ts

-- The features and chores that are left when the bugs have their seats.
def fillsSeat (picked : List TicketId) (t : Ticket) : Bool :=
  t.isFeature ∧ t.status ∉ [.done, .documented, .rejected] ∧ t.id ∉ picked

-- What a fresh sprint commits to: a seat for a ready feature, the bugs before the next feature work in
-- full, and what fits of the other open bugs and of the features.
def openBacklog (floor : Option Priority) : List TicketId :=
  let cap      := s.sprintCapacity
  let reserved := (s.tickets.find? readyFeature).toList.map (·.id)
  let scope    := reserved ++ s.burnDownScope
  let picked   := seatBugs floor (cap - scope.length) scope s.tickets
  picked ++ ((s.tickets.filter (fillsSeat picked)).take (cap - picked.length)).map (·.id)

end ProjectState

-- Letters beyond ASCII: their lower case, and whether a character is a letter or a number.
structure Letters where
  lower        : Text.Lowercase
  alphanumeric : Char → Bool

-- A title that shares a long word with the goal.
def pushesGoal (l : Letters) (goal title : String) : Bool :=
  (l.lower.toLowercase title).toList.splitOnP (!l.alphanumeric ·) |>.map String.ofList
    |>.filter (5 ≤ ·.utf8ByteSize) |>.any (Text.contains goal ·)

inductive SprintWindow
  | days (n : Nat)
  | cycles (n : Nat)
deriving DecidableEq, Repr

-- The length that is recorded on the next sprint. That of a window of days is only for display.
def SprintWindow.length (window : SprintWindow) (sprint : Option Sprint) : Nat :=
  match window with
  | .cycles len => len
  | .days _     => sprint.elim 0 (·.lengthCycles)

-- How the window of a sprint elapses, and the floor that the next sprint burns bugs at.
structure SprintPolicy where
  window       : SprintWindow
  bugBurnFloor : Option Priority := none
deriving DecidableEq, Repr

-- The time, and how many seconds ago a stamp was. A stamp that is no time gives `none`.
structure SprintClock where
  now          : String
  secondsSince : String → Option Int

namespace SprintClock

variable (c : SprintClock)

-- A stamp that cannot be read is as old as can be.
def age (unit : Int) (startedAt : String) : Nat :=
  match c.secondsSince startedAt with
  | some d => (max (d.tdiv unit) 0).toNat
  | none   => 2 ^ 64 - 1

def sprintAgeMinutes : String → Nat :=
  c.age 60

def sprintAgeDays : String → Nat :=
  c.age (24 * 60 * 60)

end SprintClock

-- Remove tickets from a plan and then add others, each once.
def PlannedSprint.rescope (add remove : List TicketId) (p : PlannedSprint) : PlannedSprint :=
  { p with
    tickets := add.foldl (fun ts t => if t ∈ ts then ts else ts ++ [t])
      (p.tickets.filter (· ∉ remove)) }

-- The tickets that the top-up may commit.
def Sprint.eligible (sprint : Sprint) (t : Ticket) : Bool :=
  t.id ∉ sprint.committed ∧
    (t.status = .ready ∨ t.status = .open ∧ ¬belowBugBurnFloor sprint.bugBurnFloor t.priority)

def minSprintMinutes : Nat := 240

namespace ProjectState

variable (s : ProjectState)

-- Whether every committed ticket is finished or has left the board. No commitment proves nothing.
def allCommittedDone (sprint : Sprint) : Bool :=
  sprint.committed ≠ [] ∧ sprint.committed.all fun id =>
    (s.ticket id).all fun t => t.status ∈ [.documented, .verified, .rejected]

def goalFrom (committed : List TicketId) : String :=
  let titles := committed.filterMap (fun id => (s.ticket id).map (·.title)) |>.take 3
  if titles = [] then "Stabilise and polish" else "Ship " ++ ", ".intercalate titles

-- What came of the running sprint goes to the history.
def archiveSprint (now : String) : ProjectState :=
  match s.sprint with
  | none         => s
  | some closing => { s with
      sprints := s.sprints ++ [{
        number    := closing.number
        goal      := closing.goal
        committed := closing.committed.length
        done      := s.doneCount
        at'       := now
      }] }

-- A planned ticket that has not shipped, been rejected or parked since.
def stillPlanned (id : TicketId) : Bool :=
  (s.ticket id).any fun t => t.status ∉ [.documented, .verified, .rejected, .onHold]

-- The tickets of the next sprint: those of the plan that are left, or what the backlog commits to.
def nextCommitted (floor : Option Priority) (planned : Option PlannedSprint) : List TicketId :=
  let live := (planned.elim [] (·.tickets)).filter s.stillPlanned
  if live = [] then s.openBacklog floor else live

def nextGoal (planned : Option PlannedSprint) (committed : List TicketId) : String :=
  match (planned.map (·.goal)).filter (Text.trim · ≠ "") with
  | some goal => Text.trim goal
  | none      =>
    if Text.trim s.sprintGoal ≠ "" then Text.trim s.sprintGoal else s.goalFrom committed

-- Archive the running sprint and open the next one. The front of the queue is consumed.
def rollOver (now : String) (cycle length : Nat) (floor : Option Priority) : Nat × ProjectState :=
  let number    := s.sprint.elim 0 (·.number) + 1
  let planned   := s.sprintQueue.head?
  let s         := { s.archiveSprint now with sprintQueue := s.sprintQueue.tail }
  let committed := s.nextCommitted floor planned
  (number, { s with
    sprint := some {
      number
      goal         := s.nextGoal planned committed
      startedCycle := cycle
      lengthCycles := length
      committed
      startedAt    := now
      bugBurnFloor := floor
    } })

-- Whether the window of the sprint has elapsed. No sprint is always due.
def needOpen (c : SprintClock) (cycle : Nat) (window : SprintWindow) : Bool :=
  match s.sprint with
  | none        => true
  | some sprint =>
    match window with
    | .cycles len =>
      cycle - sprint.startedCycle ≥ len ∧ c.sprintAgeMinutes sprint.startedAt ≥ minSprintMinutes
    | .days days  => c.sprintAgeDays sprint.startedAt ≥ days

-- Open the first sprint, or the next one when the work is finished or the window has elapsed. Returns
-- its number.
def advance (c : SprintClock) (cycle : Nat) (policy : SprintPolicy) : Option Nat × ProjectState :=
  if s.sprint.any s.allCommittedDone || s.needOpen c cycle policy.window then
    let (number, s) := s.rollOver c.now cycle (policy.window.length s.sprint) policy.bugBurnFloor
    (some number, s)
  else
    (none, s)

-- The running sprint ends at once. The next one burns at its floor.
def closeNow (now : String) (cycle : Nat) : Option Nat × ProjectState :=
  match s.sprint with
  | none        => (none, s)
  | some sprint =>
    let (number, s) := s.rollOver now cycle (max sprint.lengthCycles 1) sprint.bugBurnFloor
    (some number, s)

-- Rewrite the scope of the running sprint, if there is one.
def modifyCommitted (f : List TicketId → List TicketId) : ProjectState :=
  { s with sprint := s.sprint.map fun sprint => { sprint with committed := f sprint.committed } }

-- A person pulls a ticket into the running sprint. Says whether the sprint changed.
def commitTicket (id : TicketId) : Bool × ProjectState :=
  if s.ticket id = none ∨ s.sprint = none ∨ id ∈ s.committed then
    (false, s)
  else
    (true, s.modifyCommitted (· ++ [id]))

def uncommitTicket (id : TicketId) : Bool × ProjectState :=
  let s' := s.modifyCommitted (·.filter (· ≠ id))
  (s'.committed.length ≠ s.committed.length, s')

-- What the developers could take up now.
def workable : List TicketId :=
  s.readyFeatureCandidates ++ s.openBugCandidates

-- Whether something committed is in work or can be taken up.
def committedCanProgress : Bool :=
  s.committed.any fun id => id ∈ s.workable || (s.ticket id).any (·.status = .inProgress)

def hasFeature : Bool :=
  s.committed.any fun id => (s.ticket id).any Ticket.isFeature

-- A ready feature or chore outside the scope, however blocked it is.
def unscopedReady : Option TicketId :=
  (s.tickets.find? fun t => readyFeature t ∧ t.id ∉ s.committed).map (·.id)

-- Pull one ticket in, if there is one and a sprint. Returns how many.
def pull (pick : Option TicketId) : Nat × ProjectState :=
  match pick, s.sprint with
  | some id, some _ => (1, s.modifyCommitted (· ++ [id]))
  | _, _            => (0, s)

-- A scope without features gets a ready one.
def reserveFeature : Nat × ProjectState :=
  if s.hasFeature then (0, s) else s.pull s.unscopedReady

-- Refill a scope that would leave the developers idle: an empty one from the backlog, one that cannot
-- progress with one workable ticket, and one without features with a ready one. Returns how many
-- tickets were committed.
def refillEmptyScope : Nat × ProjectState :=
  if s.sprint.any (·.committed = []) then
    let backlog := s.openBacklog s.activeBugBurnFloor
    (backlog.length, s.modifyCommitted fun _ => backlog)
  else if s.committedCanProgress then
    s.reserveFeature
  else
    match s.workable.find? (· ∉ s.committed), s.sprint with
    | some id, some _ => (1, s.modifyCommitted (· ++ [id]))
    | _, _            => s.reserveFeature

section Queue

-- Queue a sprint to run later, with the tickets that exist, each once. Returns the id of the plan.
def queueSprint (now goal : String) (tickets : List TicketId) (by' : String) : Nat × ProjectState :=
  let id := (s.sprintQueue.map (·.id)).max?.getD 0 + 1
  let plan : PlannedSprint := {
    id
    goal      := Text.trim goal
    tickets   := Lists.retainNew (tickets.filter fun t => (s.ticket t).isSome)
    createdAt := now
    queuedBy  := by'
  }
  (id, { s with sprintQueue := s.sprintQueue ++ [plan] })

def modifyPlan (id : Nat) (f : PlannedSprint → PlannedSprint) : Bool × ProjectState :=
  match Lists.updateFirst (·.id = id) f s.sprintQueue with
  | none             => (false, s)
  | some sprintQueue => (true, { s with sprintQueue })

-- Add tickets that exist to a plan, after others are removed from it.
def scopeQueuedSprint (id : Nat) (add remove : List TicketId) : Bool × ProjectState :=
  s.modifyPlan id (·.rescope (add.filter fun t => (s.ticket t).isSome) remove)

def renameQueuedSprint (id : Nat) (goal : String) : Bool × ProjectState :=
  s.modifyPlan id fun p => { p with goal := Text.trim goal }

def deleteQueuedSprint (id : Nat) : Bool × ProjectState :=
  let sprintQueue := s.sprintQueue.filter (·.id ≠ id)
  (sprintQueue.length ≠ s.sprintQueue.length, { s with sprintQueue })

-- Move a plan in the queue. A move off either end is refused.
def moveQueuedSprint (id : Nat) (delta : Int) : Bool × ProjectState :=
  match s.sprintQueue.findIdx? (·.id = id) with
  | none   => (false, s)
  | some i =>
    let j := i + delta
    if j < 0 ∨ s.sprintQueue.length ≤ j.toNat then
      (false, s)
    else
      (true, { s with sprintQueue := Lists.swap s.sprintQueue i j.toNat })

end Queue

section TopUp

-- The text of the first milestone whose goal is not complete.
def activeMilestoneGoal (l : Letters) : Option String :=
  (s.milestones.find? (!·.goalComplete)).map fun m => l.lower.toLowercase (m.name ++ " " ++ m.goal)

-- The committed tickets that the top-up takes for work.
def actionable (committed : List TicketId) : Nat :=
  s.tickets.countP fun t => t.id ∈ committed ∧ t.status ∈ [.ready, .open]

-- High priority first, and then the work that pushes the active milestone.
def rank (l : Letters) (t : Ticket) : Nat × Nat × TicketId :=
  let ms := if (s.activeMilestoneGoal l).any (pushesGoal l · t.title) then 0 else 1
  (2 - priorityRank t.priority, ms, t.id)

def rankedBefore (a b : Nat × Nat × TicketId) : Bool :=
  a.1 < b.1 || (a.1 == b.1 && (a.2.1 < b.2.1 ||
    (a.2.1 == b.2.1 && decide (a.2.2.asStr ≤ b.2.2.asStr))))

def ranked (l : Letters) (sprint : Sprint) : List TicketId :=
  (s.tickets.filter sprint.eligible).map (s.rank l) |>.insertionSort (rankedBefore · ·)
    |>.map (·.2.2)

-- Keep at least so many tickets in the scope that are still to be worked on. Returns how many were
-- committed. The scope is made a set first.
def topUpScope (l : Letters) (floor : Nat) : Nat × ProjectState :=
  let s := s.modifyCommitted Lists.retainNew
  match s.sprint with
  | none        => (0, s)
  | some sprint =>
    let actionable := s.actionable sprint.committed
    if actionable ≥ floor then
      (0, s)
    else
      let picks := (s.ranked l sprint).take (floor - actionable)
      (picks.length, s.modifyCommitted (· ++ picks))

end TopUp

end ProjectState

-- What writes the scope of the sprints, between tickets that are filed and moved.
inductive SprintOp
  | advance (c : SprintClock) (cycle : Nat) (policy : SprintPolicy)
  | closeNow (now : String) (cycle : Nat)
  | commitTicket (id : TicketId)
  | uncommitTicket (id : TicketId)
  | refillEmptyScope
  | topUpScope (l : Letters) (floor : Nat)
  | autoHoldExhausted (now : String)
  | queueSprint (now goal : String) (tickets : List TicketId) (by' : String)
  | scopeQueuedSprint (id : Nat) (add remove : List TicketId)
  | deleteQueuedSprint (id : Nat)
  | renameQueuedSprint (id : Nat) (goal : String)
  | moveQueuedSprint (id : Nat) (delta : Int)
  | createTicket (t : Ticket)
  | transition (id : TicketId) (actor : Role) (dst : Status)

-- The operation, and whether it reports a change. The id of a new ticket is minted, so that none has it.
def SprintOp.run (s : ProjectState) : SprintOp → Bool × ProjectState
  | advance c cycle policy           => (s.advance c cycle policy).map Option.isSome id
  | closeNow now cycle               => (s.closeNow now cycle).map Option.isSome id
  | commitTicket id                  => s.commitTicket id
  | uncommitTicket id                => s.uncommitTicket id
  | refillEmptyScope                 => s.refillEmptyScope.map (· ≠ 0) id
  | topUpScope l floor               => (s.topUpScope l floor).map (· ≠ 0) id
  | autoHoldExhausted now            => ((s.autoHoldExhausted now).2 ≠ [], (s.autoHoldExhausted now).1)
  | queueSprint now goal tickets by' => (s.queueSprint now goal tickets by').map (fun _ => true) id
  | scopeQueuedSprint id add remove  => s.scopeQueuedSprint id add remove
  | deleteQueuedSprint id            => s.deleteQueuedSprint id
  | renameQueuedSprint id goal       => s.renameQueuedSprint id goal
  | moveQueuedSprint id delta        => s.moveQueuedSprint id delta
  | createTicket t                   =>
    if t.id ∈ s.tickets.map (·.id) then (false, s) else (true, { s with tickets := s.tickets ++ [t] })
  | transition id actor dst          => (true, s.tryMove id actor dst)

def SprintOp.step (s : ProjectState) (o : SprintOp) : ProjectState :=
  (o.run s).2
