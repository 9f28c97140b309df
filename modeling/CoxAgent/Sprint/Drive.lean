import CoxAgent.Cycle.Evict
import CoxAgent.Domain.Kinds
import CoxAgent.Domain.TicketOps
import CoxAgent.Forge.Calls
import CoxAgent.State.Edit

-- A transition that is refused leaves the ticket as it is.
def Ticket.tryTo (actor : Role) (dst : Status) (t : Ticket) : Ticket :=
  (t.transitionTo actor dst).toOption.getD t

-- Where a ticket goes when it is resumed.
def TicketType.resumed : TicketType → Status
  | .bug              => .open
  | .feature | .chore => .pending

def holdAfterAttempts : Nat := 3

def autoHoldReason : String :=
  s!"auto-held after {holdAfterAttempts} failed attempts"

namespace ProjectState

variable (s : ProjectState)

def failAttempts (id : TicketId) : Nat :=
  (s.ticketFailAttempts.get? id.asStr).getD 0

def tryMove (id : TicketId) (actor : Role) (dst : Status) : ProjectState :=
  s.modifyTicket id (·.tryTo actor dst)

-- The tickets in play that have failed too often.
def exhausted : List TicketId :=
  s.tickets.filter (fun t =>
    t.status ∈ [.pending, .ready, .open] ∧ holdAfterAttempts ≤ s.failAttempts t.id) |>.map (·.id)

-- Park one ticket. It leaves the scope of the running sprint.
def autoHold (now : String) (p : ProjectState × List TicketId) (id : TicketId) :
    ProjectState × List TicketId :=
  let (s, held) := p
  if (s.ticket id).any fun t => (t.transitionTo .system .onHold).toOption.isSome then
    let s := s.tryMove id .system .onHold
    let s := { s with
      sprint      := s.sprint.map fun sp : Sprint => { sp with committed := sp.committed.filter (· ≠ id) }
      holdReasons := s.holdReasons.insert id.asStr autoHoldReason
    }
    let s := s.logActivity now "SYSTEM"
      "auto-held after repeated failures — resume it from the ticket when unblocked" (some id.asStr)
    (s, held ++ [id])
  else
    (s, held)

def autoHoldExhausted (now : String) : ProjectState × List TicketId :=
  s.exhausted.foldl (autoHold now) (s, [])

def clearFailAttempts (id : TicketId) : ProjectState :=
  { s with
    ticketFailAttempts := s.ticketFailAttempts.remove id.asStr
    holdReasons        := s.holdReasons.remove id.asStr
  }

-- A person parks a ticket or resumes it. A resume forgives the failures. The text is that of a refusal.
def holdTicket (holding : Bool) (reason : Option String) (me now : String) (id : TicketId) :
    ProjectState × Option String :=
  match s.ticket id with
  | none   => (s, some "no such ticket")
  | some t =>
    let dst := if holding then .onHold else t.kind.resumed
    match t.transitionTo .user dst with
    | .error e => (s, some e.display)
    | .ok _    =>
      let s := s.tryMove id .user dst
      let given := (reason.map Text.trim).filter (· ≠ "")
      let s :=
        if holding then
          { s with holdReasons := s.holdReasons.insert id.asStr (given.getD "held by a person") }
        else
          s.clearFailAttempts id
      let action := if holding then "put on hold" else "resumed from hold"
      (s.logActivity now me action (some id.asStr), none)

end ProjectState

-- A bug that has failed this often is not resumed any more.
def churnArrest : Nat := 6

-- How many rescues one ticket may have before the decision is a person's.
def maxTicketRescues : Nat := 2

-- Committed work is resumed, or raised so that it is selected first.
def Ticket.driven (live : List TicketId) (t : Ticket) : Ticket :=
  if t.status = .onHold ∧ t.id ∉ live then
    t.tryTo .sm .pending
  else if t.status ∈ [.open, .pending, .ready] ∧ t.priority ≠ .high then
    (t.setPriority .po .high).toOption.getD t
  else
    t

namespace ProjectState

variable (s : ProjectState)

def committed : List TicketId :=
  s.sprint.elim [] (·.committed)

-- The tickets that have a child in work.
def liveParents : List TicketId :=
  s.tickets.filter (!terminal ·.status) |>.filterMap (·.parentId)

-- A child of a rejected parent is out of scope.
def deadChild (t : Ticket) : Bool :=
  !terminal t.status &&
    t.parentId.any fun p => s.tickets.any fun t' => t'.status = .rejected ∧ t'.id = p

def deadChildren : List TicketId :=
  s.tickets.filter s.deadChild |>.map (·.id)

def redesigns (id : TicketId) : Nat :=
  (s.ticketRedesigns.get? id.asStr).getD 0

-- The bugs on hold that have rescues left and have not failed too often.
def heldBug (live : List TicketId) (t : Ticket) : Bool :=
  t.kind = .bug ∧ t.status = .onHold ∧ t.id ∉ live ∧ s.failAttempts t.id < churnArrest ∧
    s.redesigns t.id < maxTicketRescues + 5

def heldBugs (live : List TicketId) : List TicketId :=
  s.tickets.filter (s.heldBug live) |>.map (·.id)

def arrested : List Ticket :=
  s.tickets.filter fun t => t.kind = .bug ∧ t.status = .onHold ∧ churnArrest ≤ s.failAttempts t.id

-- Once a day the team is told about the bugs that are not resumed.
def noticeArrested (e : EditIo) : ProjectState :=
  let today : String := .ofList (e.now.toList.take 10)
  let pile := s.arrested
  if pile ≠ [] ∧ s.dailyJobs.get? "churn_arrest" ≠ some today then
    let names := ", ".intercalate <| pile.map fun t => s!"{t.id.asStr} ({s.failAttempts t.id}x)"
    let msg := s!"⛔ Churn arrest: {pile.length} bug(s) stuck past {churnArrest} attempts, no longer " ++
      s!"auto-resumed — SA please split or escalate: {names}"
    { s with dailyJobs := s.dailyJobs.insert "churn_arrest" today }
      |>.postChatIn e.mint e.now "SM" msg agentsChannel []
  else
    s

-- The driver of the sprint goes by what the sprint commits to. Without a commitment it does nothing.
def smDriveSprintFlow (e : EditIo) : ProjectState :=
  if s.committed = [] then
    s
  else
    let live := s.liveParents
    let committed := s.committed
    let s := s.deadChildren.foldl (·.tryMove · .system .rejected) s
    let held := s.heldBugs live
    let s := s.noticeArrested e
    let s := held.foldl (·.tryMove · .sm .open) s
    committed.foldl (fun s id => s.modifyTicket id (·.driven live)) s

end ProjectState

-- A ticket that is rejected, or gone.
def ProjectState.Rejected (s : ProjectState) (id : TicketId) : Prop :=
  ∀ t, s.ticket id = some t → t.status = .rejected

-- What the rest of the system may do between the sweeps: ids stay unique, no failure is counted but for the
-- tickets given, and what is rejected stays so.
structure Calm (counted : TicketId → Prop) (f : ProjectState → ProjectState) : Prop where
  unique   : ∀ s, (s.tickets.map (·.id)).Nodup → ((f s).tickets.map (·.id)).Nodup
  attempts : ∀ s id, ¬counted id → (f s).failAttempts id ≤ s.failAttempts id
  rejected : ∀ s id, s.Rejected id → (f s).Rejected id

-- The sweeps, a person who resumes a ticket, a failed attempt that is recorded, and anything else, such as
-- the writer of the daily recovery, of which the code has the signature only.
inductive SweepEvent
  | autoHold (e : EditIo)
  | smDrive (e : EditIo)
  | resume (id : TicketId) (me : String) (e : EditIo)
  | failure (id : TicketId) (f : ProjectState → ProjectState) (calm : Calm (· = id) f)
  | other (f : ProjectState → ProjectState) (calm : Calm (fun _ => False) f)

namespace SweepEvent

def step (s : ProjectState) : SweepEvent → ProjectState
  | autoHold e     => if e.fails then s else (s.autoHoldExhausted e.now).1
  | smDrive e      => if e.fails then s else s.smDriveSprintFlow e
  | resume id me e => if e.fails then s else (s.holdTicket false none me e.now id).1
  | failure _ f _  => f s
  | other f _      => f s

-- The event takes the ticket off its hold.
def Resumes (id : TicketId) (s : ProjectState) (e : SweepEvent) : Prop :=
  (∃ t, s.ticket id = some t ∧ t.status = .onHold) ∧
    ∃ t, (step s e).ticket id = some t ∧ t.status ≠ .onHold

-- The event parks the ticket, as one that has failed too often.
def Parks (id : TicketId) (s : ProjectState) : SweepEvent → Prop
  | autoHold e => e.fails = false ∧ id ∈ (s.autoHoldExhausted e.now).2
  | _          => False

def Records (id : TicketId) : SweepEvent → Prop
  | failure id' _ _ => id' = id
  | _               => False

end SweepEvent
