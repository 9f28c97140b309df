import CoxAgent.Domain.Kinds
import CoxAgent.Domain.Mutators
import CoxAgent.Domain.TicketOps
import CoxAgent.State.Edit
import CoxAgent.Store.Sql
import CoxAgent.Store.Theorems.Mutate

namespace RecoverUseCase

-- The tickets that recovery takes for orphaned: it looks at nothing but the status.
def orphaned (s : ProjectState) : List TicketId :=
  s.tickets.filter (·.status = .inProgress) |>.map (·.id)

-- Release the claims one after the other. An id without a ticket is skipped.
def release (s : ProjectState) (ids : List TicketId) : Except DomainError ProjectState :=
  ids.foldlM (fun s id => s.ticketMut id (·.releaseClaim .system) |>.getD (.ok s)) s

def execute {J : Type} (c : Codec J) (st : SqlStateStore) :
    SqlProg J (Except AppError (List TicketId)) := do
  match ← st.load c with
  | .error e => return .error (.port e)
  | .ok s    =>
    let ids := orphaned s
    if ids = [] then
      return .ok []
    else
      match release s ids with
      | .error e => return .error (.domain e)
      | .ok s'   =>
        match ← st.save c s' with
        | .error e => return .error (.port e)
        | .ok _    => return .ok ids

end RecoverUseCase

-- Why a claim action was refused.
inductive ClaimError
  | notFound
  | notPermitted
  | conflict (msg : String)
  | store (e : AppError)
deriving DecidableEq, Repr

structure TakeoverOutcome where
  previousHolder : Option String
  claimedBy      : String
  claimedAt      : String
  ticket         : Ticket
deriving DecidableEq, Repr

-- What a person asks for who takes over a ticket, with the readings of the clock that go into the
-- trail.
structure Takeover where
  id           : TicketId
  worker       : String
  now          : String
  canManage    : Bool
  caller       : String
  activeRunner : Option String := none
  loggedAt     : String        := ""
  postedAt     : String        := ""
  commentId    : String        := ""
deriving DecidableEq, Repr

namespace ClaimsUseCase

-- The account in `account@host`.
def claimAccount (worker : String) : String :=
  .ofList (worker.toList.takeWhile (· ≠ '@'))

-- A manager may act on every claim, others only on their own.
def mayTouchClaim (canManage : Bool) (caller : String) : Option String → Bool
  | none      => canManage
  | some held => canManage || claimAccount held = caller

def runnerBusy (holder activeRunner : Option String) : Option String := do
  let held ← holder
  let runner ← activeRunner
  if runner = held then
    some s!"runner {held} is actively working this ticket — pause it first"
  else
    none

def claimable (t : Ticket) : Bool :=
  match t.kind with
  | .bug              => t.status = .open
  | .feature | .chore => t.status = .ready

-- Swap the holder of a claim.
def swap (req : Takeover) (t : Ticket) : Except ClaimError Ticket :=
  match t.takeOver .system req.worker req.now with
  | .error e    => .error (.conflict e.display)
  | .ok (_, t') => .ok t'

-- Claim a ticket that is in the queue.
def claimFresh (req : Takeover) (t : Ticket) : Except ClaimError Ticket :=
  if !claimable t then
    .error (.conflict (s!"{req.id.asStr} is {t.status.debug.toLower} — only a Ready " ++
      "feature/chore or an Open bug can be taken over"))
  else
    match t.claim .system req.worker req.now with
    | .error e => .error (.conflict e.display)
    | .ok t'   => .ok t'

-- The activity and the comment that go with the takeover.
def trail (req : Takeover) (previous : Option String) (s : ProjectState) : ProjectState :=
  let from' := previous.elim "" fun h => s!" (was {h})"
  s.logActivity req.loggedAt req.caller "took over the ticket" (some req.id.asStr)
    |>.postComment req.commentId req.postedAt "USER"
      (s!"🧑‍💻 {req.id.asStr} taken over by @{req.caller}" ++ from') (some req.id.asStr)

-- The decision over one state. A claim that is held is swapped, an unclaimed ticket is claimed.
def takeoverInState (req : Takeover) (s : ProjectState) :
    Except ClaimError (TakeoverOutcome × ProjectState) :=
  match s.ticket req.id with
  | none      => .error .notFound
  | some view =>
    if !mayTouchClaim req.canManage req.caller view.claimedBy then
      .error .notPermitted
    else
      match runnerBusy view.claimedBy req.activeRunner with
      | some why => .error (.conflict why)
      | none     =>
        let take := if view.claimedBy.isSome then swap req else claimFresh req
        match s.ticketMut req.id take with
        | none             => .error .notFound
        | some (.error e)  => .error e
        | some (.ok s')    => .ok ({
            previousHolder := view.claimedBy
            claimedBy      := req.worker
            claimedAt      := req.now
            ticket         := (s'.ticket req.id).getD view
          }, trail req view.claimedBy s')

-- The mutator of the takeover. It always succeeds: what is refused leaves the state as it is, and that
-- is saved as well.
def takeOver (req : Takeover) (s : ProjectState) : ProjectState :=
  match takeoverInState req s with
  | .ok (_, s') => s'
  | .error _    => s

def takeoverClaim {J : Type} (c : Codec J) (st : SqlStateStore) (req : Takeover) :
    SqlProg J (Except PortError Unit) :=
  st.mutateState c fun s => .ok (takeOver req s)

end ClaimsUseCase

-- What a person asks for who hands back a ticket, with the readings of the clock that go into the trail.
structure Handback where
  id           : TicketId
  note         : String
  branchRef    : String        := ""
  canManage    : Bool
  caller       : String
  activeRunner : Option String := none
  loggedAt     : String        := ""
  postedAt     : String        := ""
  commentId    : String        := ""
deriving DecidableEq, Repr

-- A decision of the use case as the source writes it: checks and writes on the state itself, one after the
-- other. An error keeps the writes before it.
abbrev ClaimRun := EStateM ClaimError ProjectState

namespace ClaimRun

open ClaimsUseCase

-- An operation on the ticket in its place.
def onTicket {α : Type} (id : TicketId) (m : Mutator α) : ClaimRun α := fun s =>
  match s.ticket id with
  | none   => .error .notFound s
  | some t =>
    match m t with
    | .ok a t'    => .ok a (s.modifyTicket id fun _ => t')
    | .error e t' => .error (.conflict e.display) (s.modifyTicket id fun _ => t')

-- Who asks must be entitled to, and no runner may be at work on the ticket.
def checkHolder (canManage : Bool) (caller : String) (holder activeRunner : Option String) : ClaimRun Unit := do
  if !mayTouchClaim canManage caller holder then
    throw .notPermitted
  match runnerBusy holder activeRunner with
  | some why => throw (.conflict why)
  | none     => pure ()

-- The claim that is held is swapped, or a ticket of the queue is claimed. Returns the holder before.
def take (req : Takeover) (view : Ticket) : ClaimRun (Option String) :=
  if view.claimedBy.isSome then
    onTicket req.id (.takeOver .system req.worker req.now)
  else do
    if !claimable view then
      throw (.conflict (s!"{req.id.asStr} is {view.status.debug.toLower} — only a Ready " ++
        "feature/chore or an Open bug can be taken over"))
    onTicket req.id (.claim .system req.worker req.now)
    return none

def takeoverInState (req : Takeover) : ClaimRun TakeoverOutcome := do
  match (← get).ticket req.id with
  | none      => throw .notFound
  | some view =>
    checkHolder req.canManage req.caller view.claimedBy req.activeRunner
    let previous ← take req view
    let ticket := ((← get).ticket req.id).getD view
    modify (trail req previous)
    return { previousHolder := previous, claimedBy := req.worker, claimedAt := req.now, ticket }

-- Where the work on a ticket of the type ends.
def finished : TicketType → Status
  | .bug              => .fixed
  | .feature | .chore => .done

def handbackBody (back : Handback) : String :=
  s!"↩️ handed back to the loop: {back.note}" ++
    if back.branchRef = "" then "" else s!"\nbranch/commit: {back.branchRef}"

def handbackInState (back : Handback) : ClaimRun Status := do
  match (← get).ticket back.id with
  | none      => throw .notFound
  | some view =>
    checkHolder back.canManage back.caller view.claimedBy back.activeRunner
    if view.status ≠ .inProgress then
      throw (.conflict s!"{back.id.asStr} is {view.status.debug.toLower} — nothing in progress to hand back")
    onTicket back.id (.transitionTo .system (finished view.kind))
    modify (·.logActivity back.loggedAt back.caller "handed back to the loop" (some back.id.asStr))
    modify (·.postComment back.commentId back.postedAt "USER" (handbackBody back) (some back.id.asStr))
    return finished view.kind

end ClaimRun

-- What a process does after its boot, in the name of a worker: claim tickets and serve takeovers, where
-- each step may depend on the results of those before it.
inductive Shift {J : Type} (c : Codec J) (st : SqlStateStore) (worker : String) :
    SqlProg J Unit → Prop
  | rest : Shift c st worker (.done ())
  | claim {id : TicketId} {now : String} {k : Except PortError Bool → SqlProg J Unit} :
      (∀ r, Shift c st worker (k r)) → Shift c st worker (st.claimTicket id worker now >>= k)
  | takeover {req : Takeover} {k : Except PortError Unit → SqlProg J Unit} :
      (∀ r, Shift c st worker (k r)) →
      Shift c st worker (ClaimsUseCase.takeoverClaim c st req >>= k)

-- A process recovers when it boots. If that fails then it does not come up.
def process {J : Type} (c : Codec J) (st : SqlStateStore) (shift : SqlProg J Unit) :
    SqlProg J Unit := do
  match ← RecoverUseCase.execute c st with
  | .error _ => return ()
  | .ok _    => shift

-- Who has claimed a ticket.
def ProjectState.claimant (s : ProjectState) (id : TicketId) : Option String :=
  s.ticket id >>= (·.claimedBy)

def World.claimant {J : Type} (c : Codec J) (p : String) (w : World J) (id : TicketId) :
    Option String :=
  w.stored c p >>= (·.claimant id)

-- Processes that share a store, with those that have crashed, the heartbeats of the workers (which go
-- to a table of their own), and the ghost record of the process that each ticket was handed to last.
structure Fleet (J ι : Type) extends Sys (Sql.iface J) ι (World J) Unit where
  crashed  : ι → Bool
  presence : String → Option String
  holder   : TicketId → Option ι

inductive FleetEvent (ι : Type)
  | step (i : ι)
  | heartbeat (i : ι) (now : String)
  | crash (i : ι)

namespace Fleet

variable {J ι : Type} [DecidableEq ι] (c : Codec J) (p : String) (worker : ι → String)

-- A ticket is handed to the process whose step has put the worker's name on it. When it is put in
-- another name, a person has taken the ticket over. A name that is wiped off does not tell the process
-- that it has lost the ticket.
def handOver (i : ι) (w w' : World J) (holder : TicketId → Option ι) (id : TicketId) : Option ι :=
  match w'.claimant c p id with
  | none     => holder id
  | some who =>
    if w.claimant c p id = some who then
      holder id
    else if who = worker i then
      some i
    else
      none

-- A process that has crashed does nothing any more.
def step (s : Fleet J ι) : FleetEvent ι → Fleet J ι
  | .step i          =>
    if s.crashed i then
      s
    else
      { s with
        toSys  := s.toSys.step (sql c) i
        holder := handOver c p worker i s.world (s.toSys.step (sql c) i).world s.holder
      }
  | .heartbeat i now =>
    if s.crashed i then
      s
    else
      { s with presence := Function.update s.presence (worker i) (some now) }
  | .crash i         => { s with crashed := Function.update s.crashed i true }

-- The processes before their boot.
def init (handle : ι → Nat) (shift : ι → SqlProg J Unit) (w : World J) : Fleet J ι where
  toSys    := Sys.init w fun i => process c ⟨handle i, p⟩ (shift i)
  crashed  := fun _ => false
  presence := fun _ => none
  holder   := fun _ => none

-- Every process that was handed a ticket and has not crashed is still the one the store knows.
def KeepsClaims (s : Fleet J ι) : Prop :=
  ∀ id i, s.holder id = some i → s.crashed i = false → s.world.claimant c p id = some (worker i)

-- A claim that is about to be won is on a ticket that no living process was handed.
def ClaimsFree (s : Fleet J ι) : Prop :=
  ∀ i id who now k, s.prog i = .call (.claimTx p id who now) k →
    (sql c (.claimTx p id who now) s.world).1 = .ok true →
    ∀ j, s.holder id = some j → s.crashed j = true

-- The condition on an event: the save of a process finds the row that it has loaded before, and when
-- a process boots, no ticket in progress is in the hands of one that is alive.
def BootsAlone (s : Fleet J ι) : FleetEvent ι → Prop
  | .step i => s.crashed i = false → FreshStep p s.toSys i ∧ (s.past i = [] →
      ∀ st, s.world.stored c p = some st → ∀ id ∈ RecoverUseCase.orphaned st, ∀ j,
        s.holder id = some j → s.crashed j = true)
  | _       => True

end Fleet
