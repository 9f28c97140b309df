import CoxAgent.Backlog.AddTicket
import CoxAgent.Forge.Calls
import CoxAgent.State.Edit

inductive SyncCall
  | hubLesson (text : String)
  | git (args : List String) (ok : Bool)
  | notify (kind message : String)

abbrev SyncRun := PortRun SyncCall

-- What git says when a release is tagged, if there is git. The version of the branch may not parse.
structure TagIo where
  git    : Bool := false
  parses : Bool := false
  known  : Bool := false
  tagged : Bool := false
  pushed : Bool := false
  edit   : EditIo := {}
deriving DecidableEq

-- A pull request that is merged, with what the ports answer while it is synced.
structure MergedPr where
  number : Nat
  head   : String
  tag    : TagIo  := {}
  edit   : EditIo := {}
deriving DecidableEq

-- One that is closed without a merge.
structure ClosedPr where
  number : Nat
  head   : String
  loads  : Bool   := true
  edit   : EditIo := {}
deriving DecidableEq

-- What a branch name has after its last slash.
def headTicket (head : String) : String :=
  .ofList <| (head.toList.splitOn '/').getLastD []

-- What has become of the ticket of a merged pull request.
def mergedEnd (kind : TicketType) : Role × Status :=
  match kind with
  | .bug              => (.devBug, .fixed)
  | .feature | .chore => (.devFeature, .done)

def Ticket.finish (t : Ticket) : Ticket × Bool :=
  let (role, terminal) := mergedEnd t.kind
  match t.transitionTo role terminal with
  | .ok t'   => (t', true)
  | .error _ => (t, false)

-- Walk the legal path to the end of its type. The flag says whether it got there.
def Ticket.closeMerged (t : Ticket) : Ticket × Bool :=
  match t.status with
  | .open | .ready =>
    match t.transitionTo (mergedEnd t.kind).1 .inProgress with
    | .ok t'   => t'.finish
    | .error _ => (t, false)
  | .inProgress    => t.finish
  | _              => (t, false)

def Status.landed : Status → Bool
  | .fixed | .done | .verified | .documented | .rejected => true
  | _                                                    => false

namespace ProjectState

variable (ticket : String) (s : ProjectState)

-- The time of the merge is for tickets that exist only.
def stampMerge (now : String) : ProjectState :=
  if ticket ∈ s.ticketIds then
    { s with ticketLastMerge := s.ticketLastMerge.insert ticket now }
  else
    s

def forgetAttempts : ProjectState :=
  { s with
    ticketFailAttempts := s.ticketFailAttempts.remove ticket
    ticketJournal      := s.ticketJournal.remove ticket
    ticketSessions     := s.ticketSessions.retain fun key => !Text.startsWith key (ticket ++ "/")
  }

def noteMerge (number : Nat) (now : String) : ProjectState :=
  { s with prOpenHolds := s.prOpenHolds.remove number }.stampMerge ticket now |>.forgetAttempts ticket

-- The pull request is done with once its ticket has landed, or there is none. Until then it is synced
-- again.
def closeTicket (number : Nat) (e : EditIo) (tid : TicketId) : ProjectState :=
  let moved := (s.ticket tid).any (·.closeMerged.2)
  let s := s.modifyTicket tid (·.closeMerged.1)
  let done := moved || (s.ticket tid).all (·.status.landed)
  let s := if done then { s with seenMergedPrs := s.seenMergedPrs.insert number () } else s
  if moved then
    s.postComment e.mint e.now "SM"
      s!"✅ PR #{number} was merged by a human — {ticket} closed and un-parked to match." (some ticket)
  else
    s

def syncMerged (number : Nat) (e : EditIo) : ProjectState :=
  if number ∈ s.seenMergedPrs.keys then
    s
  else
    let s := s.noteMerge ticket number e.now
    match TicketId.new ticket with
    | .error _ => s
    | .ok tid  => s.closeTicket ticket number e tid

def closedLesson (number : Nat) (ticket : String) : String :=
  s!"PR #{number} ({ticket}) was closed by a human WITHOUT merging — the approach                      " ++
    "was rejected, not the details. Re-read the ticket and redesign before recoding."

def syncClosed (number : Nat) (e : EditIo) : ProjectState :=
  let s := { s with
    seenClosedPrs := s.seenClosedPrs.insert number ()
    prOpenHolds   := s.prOpenHolds.remove number
  }
  let s := s.addLesson e.now (closedLesson number ticket)
  let s := s.journalNote ticket s!"human closed PR #{number} unmerged — redesign, don't recode"
  s.postComment e.mint e.now "SM"
    (s!"🚫 PR #{number} closed by a human without merge — treating it as a                              " ++
      s!"redesign signal for {ticket}.")
    (some ticket)

end ProjectState

namespace PortRun

-- The tag of a release is set once.
def tagMergedRelease (base : String) (head : String) (io : TagIo) (o : SyncRun) : SyncRun :=
  match Text.stripPrefix (Text.trim head) "release/v" with
  | none         => o
  | some version =>
    if !io.parses || !io.git then
      o
    else
      let tag := "v" ++ version
      let o := o.act (.git ["fetch", "origin", base] true)
        |>.act (.git ["rev-parse", tag] io.known)
      if io.known then
        o
      else
        let o := o.act (.git ["tag", "-a", tag, "-m", tag, s!"origin/{base}"] io.tagged)
        if !io.tagged then
          o
        else
          let o := o.act (.git ["push", "origin", tag] io.pushed)
          if !io.pushed then
            o
          else
            o.edit io.edit (fun s =>
              s.logActivity io.edit.now "SM" s!"tagged release {tag}" none
                |>.postChatIn io.edit.mint io.edit.now "SM" s!"🏷️ {tag} tagged and published."
                  agentsChannel [])
              |>.act (.notify "release_tagged" s!"{tag} tagged")

def syncMergedPr (base : String) (o : SyncRun) (pr : MergedPr) : SyncRun :=
  let o := if Text.startsWith pr.head "release/v" then o.tagMergedRelease base pr.head pr.tag else o
  o.edit pr.edit (·.syncMerged (headTicket pr.head) pr.number pr.edit)

-- A pull request that is known, or a state that cannot be read, is passed over.
def syncClosedPr (o : SyncRun) (pr : ClosedPr) : SyncRun :=
  if !pr.loads || pr.number ∈ o.state.seenClosedPrs.keys then
    o
  else
    let ticket := headTicket pr.head
    o.act (.hubLesson (ProjectState.closedLesson pr.number ticket))
      |>.edit pr.edit (·.syncClosed ticket pr.number pr.edit)

end PortRun

-- The two passes of the hygiene of the forge that sync pull requests. The forge may not answer.
def forgeSync (base : String) (merged : Option (List MergedPr)) (closed : Option (List ClosedPr))
    (o : SyncRun) : SyncRun :=
  let o := (merged.getD []).foldl (·.syncMergedPr base ·) o
  (closed.getD []).foldl (·.syncClosedPr ·) o

-- A person gives a ticket another try. The memory of synced pull requests is cleared along with it.
def unparkTicket (id : String) (e : EditIo) (s : ProjectState) : ProjectState :=
  let had := id ∈ s.ticketFailAttempts.keys
  let s' := { s with
    ticketFailAttempts := s.ticketFailAttempts.remove id
    ticketJournal      := s.ticketJournal.remove id
    seenMergedPrs      := ∅
  }
  if !had ∧ id ∉ s.ticketIds then
    s
  else
    s'.logActivity e.now "USER" "un-parked ticket" (some id)
      |>.postComment e.mint e.now "SM" s!"▶️ {id} un-parked by a human — agents may retry it." (some id)

-- What happens to the state around the passes: each pull request that a pass syncs, a person who gives a
-- ticket another try, and anything else, which keeps the memory of synced pull requests.
inductive SyncEvent
  | merged (pr : MergedPr)
  | closed (pr : ClosedPr)
  | unpark (id : String) (e : EditIo)
  | other (f : ProjectState → ProjectState)
      (keeps : ∀ s, ∀ n ∈ s.seenMergedPrs.keys, n ∈ (f s).seenMergedPrs.keys)

namespace SyncEvent

variable (base : String)

def step (o : SyncRun) : SyncEvent → SyncRun
  | merged pr   => o.syncMergedPr base pr
  | closed pr   => o.syncClosedPr pr
  | unpark id e => o.edit e (unparkTicket id e)
  | other f _   => { o with state := f o.state }

-- The events of a pass.
def ofPass (prs : List MergedPr) (prs' : List ClosedPr) : List SyncEvent :=
  prs.map merged ++ prs'.map closed

end SyncEvent

theorem forgeSync_eq_foldl {base : String} {prs : List MergedPr} {prs' : List ClosedPr} {o : SyncRun} :
    forgeSync base (some prs) (some prs') o = (SyncEvent.ofPass prs prs').foldl (SyncEvent.step base) o := by
  simp only [forgeSync, SyncEvent.ofPass, List.foldl_append, List.foldl_map, Option.getD_some]
  rfl
