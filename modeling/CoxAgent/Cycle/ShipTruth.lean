import CoxAgent.Forge.Calls
import CoxAgent.Lib.Text
import CoxAgent.State.Edit

-- The daily check that what is marked as shipped is on the base branch.

-- Whether there is git and the state loads, what git answers, with the messages of the commits on the base
-- branch, and what the store makes of the edit.
structure ShipTruthIo where
  git     : Bool          := true
  loads   : Bool          := true
  today   : String
  fetches : Bool          := true
  greps   : String → Bool := fun _ => true
  history : List String   := []
  edit    : EditIo        := {}

def isShipped (status : Status) : Bool :=
  status ∈ [.done, .documented, .verified]

-- A ticket whose pull request is open is no ghost.
def inFlight (prs : List PrOpen) (id : String) : Bool :=
  prs.any fun pr => Text.contains pr.title id || Text.contains pr.head id

-- Where a ticket goes that has not shipped after all.
def demotion (status : Status) : Status :=
  if status = .verified then .open else .pending

namespace ProjectState

variable (io : ShipTruthIo) (branch : String)

-- The shipped tickets that no pull request and no commit mentions.
def ghosts (s : ProjectState) : List TicketId :=
  s.tickets.filter (isShipped ·.status)
    |>.map (·.id)
    |>.filter (!inFlight s.openPrs ·.asStr)
    |>.filter fun id => io.greps id.asStr && !io.history.any (Text.contains · id.asStr)

def reopenGhost (now : String) (s : ProjectState) (id : TicketId) : ProjectState :=
  match s.ticketMut id fun t => t.transitionTo .system (demotion t.status) with
  | some (.ok s) => s.logActivity now "SYSTEM"
      "ship-truth: claimed shipped but absent from main — reopened" (some id.asStr)
  | _            => s

def shipTruthMessage (ghosts : List TicketId) : String :=
  let base := "origin/" ++ if Text.trim branch = "" then "main" else Text.trim branch
  s!"🔎 Ship-truth sweep: {ghosts.length} ticket(s) were marked shipped but their " ++
    s!"diff is not on {base} — reopened for an honest re-run: " ++
    ", ".intercalate (ghosts.map (·.asStr))

-- The sweep judges by the state that it has loaded, and moves the tickets of the one that is stored.
def shipTruthSweep (loaded stored : ProjectState) : ProjectState :=
  if !io.git || !io.loads || loaded.dailyJobs.get? "ship_truth" = some io.today || !io.fetches ||
      io.edit.fails then
    stored
  else
    let ghosts := loaded.ghosts io
    let s := { stored with dailyJobs := stored.dailyJobs.insert "ship_truth" io.today }
    let s := ghosts.foldl (reopenGhost io.edit.now) s
    if ghosts = [] then
      s
    else
      s.postComment io.edit.mint io.edit.now "SM" (shipTruthMessage branch ghosts) none

end ProjectState

-- A ticket transition of another client.
structure TicketMove where
  id    : TicketId
  actor : Role
  to'   : Status
deriving DecidableEq, Repr

-- A transition that is refused changes nothing.
def ProjectState.move (s : ProjectState) (m : TicketMove) : ProjectState :=
  match s.ticketMut m.id (·.transitionTo m.actor m.to') with
  | some (.ok s) => s
  | _            => s
