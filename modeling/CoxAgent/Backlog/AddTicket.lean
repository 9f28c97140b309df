import CoxAgent.Cycle.Evict
import CoxAgent.Domain.TicketOps
import CoxAgent.Lib.Text
import CoxAgent.State.Edit
import CoxAgent.Store.Sql
import Mathlib.Data.List.Dedup
import Mathlib.Data.List.Infix

-- Lower case, with every run of other characters than ASCII letters and digits as one space.
def normalizeTitle (title : String) : String :=
  Text.trim (.ofList (title.toList.foldl step ([], false)).1)
where
  step : List Char × Bool → Char → List Char × Bool
    | (out, prevSpace), c =>
      if c.isAlphanum then
        (out ++ [c.toLower], false)
      else if !prevSpace ∧ out ≠ [] then
        (out ++ [' '], true)
      else
        (out, prevSpace)

-- The words that say nothing about the theme of a ticket.
def stopWords : List String := [
  "the", "and", "for", "with", "a", "an", "of", "to", "in", "on", "per", "via", "your", "our",
  "support", "feature", "add", "enable"
]

-- The words of a title that count, each of them once.
def titleTokens (title : String) : List String :=
  (normalizeTitle title).toList.splitOn ' '
    |>.map String.ofList
    |>.filter (fun w => w.utf8ByteSize > 2 ∧ w ∉ stopWords)
    |>.dedup

-- The Jaccard similarity of two sets, as the numerator and the denominator of a ratio.
def jaccard (a b : List String) : Nat × Nat :=
  if a = [] ∨ b = [] then (0, 1) else ((a ∩ b).length, (a ∪ b).length)

-- Whether a similarity is at least 3/5. The source divides in `f64`, where the ratio of two counts is at
-- least the rounded threshold iff the exact one is at least 3/5.
def duplicateJaccardThreshold (similarity : Nat × Nat) : Bool :=
  3 * similarity.2 ≤ 5 * similarity.1

def containsText (t k : String) : Bool :=
  k.toList <:+: t.toList

-- The recurring rituals around the backlog, of which only one is to be open at a time.
def isBacklogMeta (title : String) : Bool :=
  let t := normalizeTitle title
  let ritual := ["triage", "burndown", "burn down", "stabiliz", "grooming"].any (containsText t)
  let aboutBacklog := ["bug", "backlog", "sprint"].any (containsText t)
  ritual && aboutBacklog

-- A blank title counts as a duplicate of anything.
def duplicatesExisting (title : String) (existing : List String) : Bool :=
  let norm := normalizeTitle title
  norm = "" ∨ existing.any fun e =>
    normalizeTitle e = norm ∨ (isBacklogMeta title ∧ isBacklogMeta e) ∨
      duplicateJaccardThreshold (jaccard (titleTokens title) (titleTokens e))

-- More titles make for more duplicates.
theorem duplicatesExisting_mono {title : String} {l l' : List String} (hs : l ⊆ l')
    (h : duplicatesExisting title l) : duplicatesExisting title l' := by
  simp only [duplicatesExisting, Bool.decide_or, Bool.or_eq_true, decide_eq_true_eq,
    List.any_eq_true] at h ⊢
  cases h
  case inl h => exact .inl h
  case inr h =>
    obtain ⟨e, he, h⟩ := h
    exact .inr ⟨e, hs he, h⟩

-- The test of the gate: a ceremony under another name.
example : duplicatesExisting "Backlog triage: assess bug risk and burn down"
    ["Bug triage and burn-down cadence"] := by
  decide

example : duplicatesExisting "Read receipts for delivery" ["Delivery and read receipts"] := by
  decide +kernel

def TicketId.new (raw : String) : Except DomainError TicketId :=
  if Text.trim raw = "" then
    .error (.empty "ticket_id")
  else
    .ok ⟨raw⟩

-- What the callers hand in for a new ticket.
structure AddTicketInput where
  ticketType         : TicketType
  title              : String
  description        : String         := ""
  priority           : Priority       := .medium
  complexity         : Complexity     := .small
  hasUi              : Bool           := false
  acceptanceCriteria : List String    := []
  goal               : Option GoalId  := none
  serviceTag         : Option String  := none
deriving DecidableEq, Repr

section Mint

def typeCode : TicketType → Char
  | .feature => 'F'
  | .bug     => 'B'
  | .chore   => 'C'

-- What the ids of a type start with: `CXC-F` with an alias, `F` without one.
def idPrefix («alias» : String) (type : TicketType) : String :=
  if «alias» = "" then
    .ofList [typeCode type]
  else
    «alias» ++ "-" ++ .ofList [typeCode type]

-- The number in an id of the type, a `u64`.
def idNumber («alias» : String) (type : TicketType) (id : TicketId) : Option Nat :=
  id.asStr.toList.dropPrefix? (idPrefix «alias» type).toList >>= Text.parseBelow (2 ^ 64)

-- The highest number of the type that a ticket of the state has.
def highest (s : ProjectState) (type : TicketType) : Nat :=
  s.tickets.filterMap (idNumber s.alias type ·.id) |>.max? |>.getD 0

-- The next id of the type. The addition is one of `u64`.
def mintId (type : TicketType) (s : ProjectState) : Except DomainError TicketId :=
  let next := (highest s type + 1) % 2 ^ 64
  TicketId.new (idPrefix s.alias type ++ .ofList (Text.zeroPad 3 next))

end Mint

namespace AddTicketUseCase

def duplicateRefused : String := "duplicate ticket refused"

def matchesOpen (title : String) : AppError :=
  .port (.backend
    (duplicateRefused ++ ": \"" ++ title ++ "\" matches an open ticket (same theme already tracked)"))

def matchesRejected (title : String) : AppError :=
  .port (.backend (duplicateRefused ++ ": \"" ++ title ++
    "\" matches a REJECTED ticket — a human already said no to this theme; do not refile it"))

-- The titles that are still being worked on.
def activeTitles (s : ProjectState) : List String :=
  s.tickets.filter (·.status ∉ [.done, .documented, .rejected, .verified]) |>.map (·.title)

def rejectedTitles (s : ProjectState) : List String :=
  s.tickets.filter (·.status = .rejected) |>.map (·.title)

def duplicateGate (s : ProjectState) (title : String) : Except AppError Unit :=
  if duplicatesExisting title (activeTitles s) then
    .error (matchesOpen title)
  else if duplicatesExisting title (rejectedTitles s) then
    .error (matchesRejected title)
  else
    .ok ()

-- A declared goal has to be one of the project's and still be active.
def goalGate (s : ProjectState) : Option GoalId → Except AppError Unit
  | none     => .ok ()
  | some gid =>
    match s.goals.find? (·.id = gid) with
    | none   => .error (.port (.backend
        s!"ticket refused: declared goal {gid.asStr} is not one of this project's stated goals"))
    | some g =>
      if g.isActive then
        .ok ()
      else
        .error (.port (.backend (s!"ticket refused: goal {gid.asStr} ({g.title}) is retired " ++
          "— its gate is closed to new work")))

-- The goal has passed its gate, so that the machine may bind it.
def bindGoal (t : Ticket) : Option GoalId → Except DomainError Ticket
  | none     => .ok t
  | some gid => t.setGoalId .system gid

def stampTag (t : Ticket) : Option String → Except DomainError Ticket
  | none     => .ok t
  | some tag => t.setServiceTag .system tag

-- The new ticket, with everything the input says about it.
def build (input : AddTicketInput) (now : String) (id : TicketId) : Except DomainError Ticket := do
  let t ← Ticket.new id input.ticketType input.title input.description input.priority
    input.complexity input.hasUi
  let t := t.stampCreatedAt now
  let t := t.setAcceptanceCriteria input.acceptanceCriteria
  let t ← bindGoal t input.goal
  stampTag t input.serviceTag

-- What happens between the load and the save: the gates, the id, the ticket and the validation.
def append (input : AddTicketInput) (now : String) (s : ProjectState) :
    Except AppError (TicketId × ProjectState) := do
  duplicateGate s input.title
  goalGate s input.goal
  let id ← (mintId input.ticketType s).mapError .domain
  let t ← (build input now id).mapError .domain
  let s' := { s with tickets := s.tickets ++ [t] }
  s'.validate.mapError (.port <| .corrupt ·)
  return (id, s')

def execute {J : Type} (c : Codec J) (st : SqlStateStore) (input : AddTicketInput) (now : String) :
    SqlProg J (Except AppError TicketId) := do
  match ← st.load c with
  | .error e => return .error (.port e)
  | .ok s    =>
    match append input now s with
    | .error e     => return .error e
    | .ok (id, s') =>
      match ← st.save c s' with
      | .error e => return .error (.port e)
      | .ok _    => return .ok id

end AddTicketUseCase

-- The ticket stays as it is or takes an edge of its type.
def Ticket.MovesTo (t t' : Ticket) : Prop :=
  t' = t ∨ ∃ actor dst, t.transitionTo actor dst = .ok t'

-- Tickets change their statuses. None of them comes or goes.
structure ProjectState.Moves (s s' : ProjectState) : Prop where
  «alias»       : s'.alias = s.alias
  schemaVersion : s'.schemaVersion = s.schemaVersion
  tickets       : List.Forall₂ Ticket.MovesTo s.tickets s'.tickets

-- What a caller does to the state when it moves tickets along their lifecycle, with all the notes it
-- leaves behind.
structure Mover where
  run   : ProjectState → Except PortError ProjectState
  moves : ∀ {s s'}, run s = .ok s' → s.Moves s'

-- A guarded transition of the ticket with the given id.
def transition (s : ProjectState) (id : TicketId) (actor : Role) (dst : Status) :
    Except AppError ProjectState :=
  match s.ticketMut id fun t => (t.transitionTo actor dst).mapError .domain with
  | none   => .error (.port (.corrupt s!"ticket {id.asStr} vanished mid-cycle"))
  | some r => r

theorem transition_moves {s s' : ProjectState} {id : TicketId} {actor : Role} {dst : Status}
    (h : transition s id actor dst = .ok s') : s.Moves s' := by
  unfold transition at h
  split at h
  case h_1 => contradiction
  case h_2 r hr =>
    subst h
    obtain ⟨t, t', _, ht, hs⟩ := ProjectState.ticketMut_ok hr
    have ht := Except.mapError_eq_ok.mp ht
    exact ⟨hs.keeps.left, hs.keeps.right, hs.forall₂ (fun _ => .inl rfl) (.inr ⟨actor, dst, ht⟩)⟩

-- A caller that makes one transition. The callers differ in the error they make of a failure.
def Mover.single (id : TicketId) (actor : Role) (dst : Status) (report : AppError → PortError) :
    Mover where
  run s   := (transition s id actor dst).mapError report
  moves h := transition_moves (Except.mapError_eq_ok.mp h)

-- What a client of a project's store does with the backlog: file a ticket, move tickets (with a save of
-- its own or through `mutate_state`), or sweep the terminal ones into the archive.
inductive Job
  | create (input : AddTicketInput) (now : String)
  | move (m : Mover)
  | mutate (m : Mover)
  | sweep (project : String)

-- The result of a creation. The other jobs have none.
abbrev Outcome := Option (Except AppError TicketId)

def Job.prog {J : Type} (c : Codec J) (st : SqlStateStore) : Job → SqlProg J Outcome
  | create input now => do
    let id ← AddTicketUseCase.execute c st input now
    return some id
  | move m           => do
    match ← st.load c with
    | .error _ => return none
    | .ok s    =>
      match m.run s with
      | .error _ => return none
      | .ok s'   =>
        let _ ← st.save c s'
        return none
  | mutate m         => do
    let _ ← st.mutateState c m.run
    return none
  | sweep project    => do
    evictTerminalTickets c st project
    return none

-- Any number of clients that each do one job, so that the jobs may also follow one another.
def backlog {J ι : Type} [DecidableEq ι] (c : Codec J) (p : String) (handle : ι → Nat)
    (jobs : ι → Job) (w : World J) : Sys (Sql.iface J) ι (World J) Outcome :=
  Sys.init w fun i => (jobs i).prog c ⟨handle i, p⟩
