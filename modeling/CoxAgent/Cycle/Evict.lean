import CoxAgent.State.Basic
import CoxAgent.Store.Sql

-- The statuses whose tickets take part in no lane any more.
def terminal (status : Status) : Bool :=
  status ∈ [.documented, .verified, .rejected]

-- A ticket whose subtask is still being worked on has to stay.
def hasLiveChild (s : ProjectState) (t : Ticket) : Bool :=
  s.tickets.any fun c => c.parentId.map (·.asStr) = some t.id.asStr ∧ !terminal c.status

-- What may leave the hot state: terminal, not committed to the sprint and without live children.
def evictable (s : ProjectState) (t : Ticket) : Bool :=
  let sprintIds := s.sprint.elim [] (·.committed.map (·.asStr))
  terminal t.status ∧ t.id.asStr ∉ sprintIds ∧ !hasLiveChild s t

def evictionCandidates (s : ProjectState) : List String :=
  s.tickets.filter (evictable s) |>.map (·.id.asStr)

def pruneTicketBookkeeping (s : ProjectState) (id : String) : ProjectState := { s with
  ticketJournal        := s.ticketJournal.remove id
  ticketStepProvenance := s.ticketStepProvenance.remove id
  ticketFailures       := s.ticketFailures.remove id
  ticketEvidence       := s.ticketEvidence.remove id
  ticketAttachments    := s.ticketAttachments.remove id
  ticketFailAttempts   := s.ticketFailAttempts.remove id
  ticketRedesigns      := s.ticketRedesigns.remove id
  holdReasons          := s.holdReasons.remove id
}

def evictTicket (s : ProjectState) (id : String) : ProjectState :=
  pruneTicketBookkeeping { s with tickets := s.tickets.filter (·.id.asStr ≠ id) } id

-- A failed removal is ignored.
def dropDependency (t : Ticket) (id : String) : Ticket :=
  match t.removeDependency .system id with
  | .ok t'   => t'
  | .error _ => t

-- The mutator that the sweep commits for the tickets it has archived.
def evict (archived : List String) (s : ProjectState) : ProjectState :=
  let s := archived.foldl evictTicket s
  { s with tickets := s.tickets.map fun t => archived.foldl dropDependency t }

variable {J : Type} (c : Codec J)

-- How many tickets one sweep moves.
def evictionBound : Nat := 50

-- Put the tickets into the archive as the state has them. A failed put is skipped.
def archiveTickets (project : String) (s : ProjectState) : List String → SqlProg J (List String)
  | []        => return []
  | id :: ids =>
    match s.tickets.find? (·.id.asStr = id) with
    | none   => archiveTickets project s ids
    | some t => do
      let stored ← ask (.archivePut project t)
      let archived ← archiveTickets project s ids
      return if stored then id :: archived else archived

-- Move terminal tickets from the hot state to the archive: the candidates, the copies and the removal
-- each start from a load of their own.
def evictTerminalTickets (st : SqlStateStore) (project : String) : SqlProg J Unit := do
  if project = "" then
    return ()
  else
    match ← st.load c with
    | .error _ => return ()
    | .ok s    =>
      let candidates := evictionCandidates s |>.take evictionBound
      if candidates = [] then
        return ()
      else
        match ← st.load c with
        | .error _ => return ()
        | .ok s    =>
          let archived ← archiveTickets project s candidates
          if archived = [] then
            return ()
          else
            let _ ← st.mutateState c fun s => .ok (evict archived s)
            return ()
