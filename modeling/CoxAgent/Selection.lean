import CoxAgent.State.Basic

def priorityRank : Priority → Nat
  | .low    => 0
  | .medium => 1
  | .high   => 2

-- A burn targets the bugs at or above its floor.
def belowBugBurnFloor (floor : Option Priority) (p : Priority) : Bool :=
  match floor with
  | some f => priorityRank p < priorityRank f
  | none   => false

def Ticket.isFeature (t : Ticket) : Bool :=
  t.kind = .feature ∨ t.kind = .chore

-- Why a piece of open work cannot move.
inductive BlockedReason
  | dependencyUnsatisfied
  | outOfDevScope
deriving DecidableEq, Repr

-- One entry for each reason that holds a ticket back.
structure BlockedWork where
  id     : TicketId
  title  : String
  reason : BlockedReason
deriving DecidableEq, Repr

namespace ProjectState

def activeBugBurnFloor (s : ProjectState) : Option Priority :=
  s.sprint.bind (·.bugBurnFloor)

-- Open bugs are emergency work unless a burn parks them. Without a sprint everything is in scope.
def inDevScope (s : ProjectState) (id : TicketId) : Bool :=
  let committed :=
    match s.sprint with
    | some sprint => decide (id ∈ sprint.committed)
    | none        => true
  match s.ticket id with
  | some t =>
    if t.kind = .bug ∧ t.status = .open then
      !belowBugBurnFloor s.activeBugBurnFloor t.priority
    else
      committed
  | none => committed

-- In scope first, then by falling priority, then by rising id.
def queuedBefore (s : ProjectState) (a b : Ticket) : Bool :=
  match s.inDevScope a.id, s.inDevScope b.id with
  | true, false => true
  | false, true => false
  | _, _        =>
    priorityRank b.priority < priorityRank a.priority ||
    (priorityRank b.priority == priorityRank a.priority && decide (a.id.asStr ≤ b.id.asStr))

def candidates (s : ProjectState) (p : Ticket → Bool) : List TicketId :=
  s.tickets.filter p |>.insertionSort (s.queuedBefore · ·) |>.map (·.id)

-- The statuses in which a dependency no longer blocks.
def satisfied (status : Status) : Bool :=
  status ∈ [.done, .documented, .verified]

def depsSatisfied (s : ProjectState) (t : Ticket) : Bool :=
  t.dependsOn.all fun dep => (s.ticket dep).any fun d => satisfied d.status

-- A feature or chore that only its dependencies can still hold back.
def readyFeature (t : Ticket) : Bool :=
  (t.kind = .feature ∨ t.kind = .chore) ∧ t.status = .ready

def readyFeatureCandidates (s : ProjectState) : List TicketId :=
  s.candidates fun t => readyFeature t && s.depsSatisfied t

-- A bug in play that no burn parks. One with a design is ready, one that was split off is pending.
def openBug (floor : Option Priority) (t : Ticket) : Bool :=
  t.kind = .bug ∧ t.status ∈ [.open, .ready, .pending] ∧ ¬belowBugBurnFloor floor t.priority

def openBugCandidates (s : ProjectState) : List TicketId :=
  s.candidates (openBug s.activeBugBurnFloor)

def needsDesign (t : Ticket) : Bool :=
  t.isFeature ∧ t.status = .pending ∧ t.design.technical = none

def designCandidates (s : ProjectState) : List TicketId :=
  s.candidates needsDesign

def needsUx (t : Ticket) : Bool :=
  t.isFeature ∧ t.status = .pending ∧ t.hasUi ∧ t.design.technical ≠ none ∧ t.design.ux = none

def uxCandidates (s : ProjectState) : List TicketId :=
  s.candidates needsUx

def nextFeatureWork (s : ProjectState) : Option TicketId :=
  s.tickets.find? (fun t => t.isFeature ∧ t.status ∈ [.pending, .ready]) |>.map (·.id)

-- The open bugs that block the next feature work, or that come before it on the board.
def burnDownScope (s : ProjectState) : List TicketId :=
  match s.nextFeatureWork with
  | none         => []
  | some feature =>
    let featurePos  := s.tickets.findIdx? (·.id = feature)
    let featureDeps := (s.ticket feature).map (·.dependsOn)
    let inScope (p : Ticket × Nat) : Bool :=
      p.1.kind = .bug ∧ p.1.status = .open ∧
        (featureDeps.any (p.1.id ∈ ·) ∨ featurePos.any (p.2 < ·))
    s.tickets.zipIdx.filter inScope |>.map (·.1.id)

-- The reasons that hold a ticket back, by the predicates of the queues.
def blockedReasons (s : ProjectState) (t : Ticket) : List BlockedReason :=
  (if s.depsSatisfied t then [] else [.dependencyUnsatisfied]) ++
  (if s.inDevScope t.id then [] else [.outOfDevScope])

def workBlockers (s : ProjectState) : List BlockedWork :=
  s.tickets.filter (fun t => t.isFeature ∧ t.status ∈ [.pending, .ready, .inProgress]) |>.flatMap
    fun t => (s.blockedReasons t).map fun reason => { id := t.id, title := t.title, reason }

theorem mem_candidates {s : ProjectState} {p : Ticket → Bool} {id : TicketId} :
    id ∈ s.candidates p ↔ ∃ t ∈ s.tickets, t.id = id ∧ p t := by
  simp only [candidates, List.mem_map, List.mem_insertionSort, List.mem_filter]
  constructor
  · intro ⟨t, ⟨ht, hp⟩, he⟩
    exact ⟨t, ht, he, hp⟩
  · intro ⟨t, ht, he, hp⟩
    exact ⟨t, ⟨ht, hp⟩, he⟩

end ProjectState
