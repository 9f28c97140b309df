import CoxAgent.Sprint.Drive

-- The text with which an attempt dies at the cap of the loop.
def capDetail : String := "iteration/token cap"

namespace ProjectState

variable (s : ProjectState)

-- The failures that are recorded of a ticket, the oldest first.
def attemptFailures (id : TicketId) : List AttemptFailure :=
  (s.ticketFailures.get? id.asStr).getD []

-- Whether the ladder of escalation takes the ticket. The splits of a ticket that dies at the cap have a
-- budget of their own.
def unparks (id : TicketId) : Bool :=
  let done := s.redesigns id
  let caps := (s.attemptFailures id).countP (Text.contains ·.detail capDetail)
  (s.ticketFailAttempts.get? id.asStr).any (3 ≤ ·) ∧
    (done < maxTicketRescues ∨ (2 ≤ caps ∧ done < maxTicketRescues + 5))

-- The first of the tickets that the ladder takes, in the order of their ids.
def smUnparkTickets : Option (TicketId × String) :=
  s.ticketFailAttempts.keys.filter (s.unparks ⟨·⟩)
    |>.filterMap (fun id => (s.ticket ⟨id⟩).map fun t => (t.id, t.title))
    |>.head?

end ProjectState

def dailyRecoveryFloor : Nat := maxTicketRescues + 5

def sweepActor : String := "daily-sweep"

-- What the daily recovery knows of a parked ticket.
structure RecoverySnapshot where
  id          : String
  ticketType  : TicketType
  status      : Status
  rescuesUsed : Nat
  attempts    : List AttemptFailure
  holdReason  : Option String
  liveParent  : Bool

inductive RecoveryBlock
  | rescueBudgetRemaining | liveParent | humanHold | notHeldBug | noCountedFailure
deriving DecidableEq, Repr

inductive EscalationRoute
  | spec | mechanical | design | oversize
deriving DecidableEq, Repr

-- Who can unstick a ticket goes by the layers at which its attempts died. Those of the infrastructure are
-- nobody's.
def routeFromFailures (failures : List AttemptFailure) (specGap : Bool) : EscalationRoute :=
  let real := failures.filter (·.layer ≠ .infra)
  if real = [] then
    .design
  else if 2 ≤ real.countP (Text.contains ·.detail capDetail) then
    .oversize
  else if real.any (·.layer = .spec) || specGap then
    .spec
  else if real.all (·.layer = .gate) then
    .mechanical
  else
    .design

def FailureLayer.debug : FailureLayer → String
  | spec   => "Spec"
  | gate   => "Gate"
  | design => "Design"
  | infra  => "Infra"

structure RecoveryVerdict where
  snapshotId : String
  eligible   : Bool
  blocked    : Option RecoveryBlock
  diagnosis  : String

namespace RecoverySnapshot

variable (snapshot : RecoverySnapshot)

def countedFailures : Nat :=
  snapshot.attempts.countP (·.layer ≠ .infra)

def explain : RecoveryBlock → String
  | .rescueBudgetRemaining =>
    s!"kept held by {sweepActor}: rescue budget not spent yet ({snapshot.rescuesUsed} rescue(s) < floor " ++
      s!"{dailyRecoveryFloor}) — the unpark lane owns it this cycle"
  | .liveParent            =>
    s!"kept held by {sweepActor}: parent ticket is still live — the child resumes with its parent, not on " ++
      "the sweep"
  | .humanHold             =>
    match snapshot.holdReason with
    | some reason =>
      s!"kept held by {sweepActor}: a human parked it deliberately (hold reason: \"{reason}\")"
    | none        =>
      s!"kept held by {sweepActor}: a human parked it deliberately (hold reason recorded separately)"
  | .notHeldBug            =>
    s!"kept held by {sweepActor}: not a bug in OnHold — outside the daily-recovery lane"
  | .noCountedFailure      =>
    if snapshot.attempts = [] then
      s!"kept held by {sweepActor}: no failure recorded — the sweep never acts without evidence"
    else
      s!"kept held by {sweepActor}: every recorded failure is infra-layer, which never counts — resuming " ++
        "would burn an attempt on nobody's fault"

def owner : String :=
  match routeFromFailures snapshot.attempts false with
  | .spec       => "BA (spec)"
  | .mechanical => "SA repair (mechanical gates)"
  | .design     => "SA (design)"
  | .oversize   => "SA (split — oversize)"

def resumeDiagnosis (at' : String) : String :=
  let last := (snapshot.attempts.filter (·.layer ≠ .infra)).getLast?.elim "(no failure recorded)" fun f =>
    s!"[{f.layer.debug}/{f.gate}] {f.detail}"
  let heldBecause := snapshot.holdReason.elim
    s!"auto-held after {snapshot.rescuesUsed} senior rescue(s) exhausted" fun reason =>
    s!"parked by hand: \"{reason}\""
  sweepActor ++ " at " ++ at' ++ s!": resuming — swept because rescues_used {snapshot.rescuesUsed} >= recovery floor " ++
    s!"{dailyRecoveryFloor} (unpark lane left it); {heldBecause}; {snapshot.countedFailures} counted " ++
    s!"failure(s), routed to {snapshot.owner}; last failure: {last}"

-- The first reason that speaks against a resume.
def block : Option RecoveryBlock :=
  if snapshot.ticketType ≠ .bug ∨ snapshot.status ≠ .onHold then
    some .notHeldBug
  else if snapshot.holdReason.isSome then
    some .humanHold
  else if snapshot.liveParent then
    some .liveParent
  else if snapshot.rescuesUsed < dailyRecoveryFloor then
    some .rescueBudgetRemaining
  else if snapshot.countedFailures = 0 then
    some .noCountedFailure
  else
    none

def recoveryEligibility (at' : String) : RecoveryVerdict where
  snapshotId := snapshot.id
  eligible   := snapshot.block.isNone
  blocked    := snapshot.block
  diagnosis  := snapshot.block.elim (snapshot.resumeDiagnosis at') snapshot.explain

end RecoverySnapshot

-- The verdicts, those of the tickets to resume first.
structure RecoveryPlan where
  verdicts : List RecoveryVerdict
  eligible : Nat
  blocked  : Nat

def dailyRecoveryPlan (candidates : List RecoverySnapshot) (at' : String) : RecoveryPlan :=
  let verdicts := candidates.map (·.recoveryEligibility at')
  let (eligible, blocked) := verdicts.partition (·.eligible)
  ⟨eligible ++ blocked, eligible.length, blocked.length⟩

-- The snapshot of a ticket, from what the state records of it. Who takes the snapshot looks at the parent.
def ProjectState.snapshot (s : ProjectState) (liveParent : Bool) (t : Ticket) : RecoverySnapshot where
  id          := t.id.asStr
  ticketType  := t.kind
  status      := t.status
  rescuesUsed := s.redesigns t.id
  attempts    := s.attemptFailures t.id
  holdReason  := s.holdReasons.get? t.id.asStr
  liveParent  := liveParent
