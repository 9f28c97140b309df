import CoxAgent.Lib.Dfs
import CoxAgent.State.Basic

namespace ProjectState

-- The first id that a set of the ids before it already contains.
def firstRepeated (seen : List TicketId) : List TicketId → Option TicketId
  | []        => none
  | id :: ids => if id ∈ seen then some id else firstRepeated (id :: seen) ids

-- The first dependency, in ticket order, on a ticket that does not exist.
def firstUnknown (s : ProjectState) : Option (TicketId × TicketId) :=
  s.tickets.findSome? fun t =>
    t.dependsOn.find? (· ∉ s.tickets.map (·.id)) |>.map fun dep => (t.id, dep)

def dependencies (s : ProjectState) (id : TicketId) : List TicketId :=
  match s.ticket id with
  | some t => t.dependsOn
  | none   => []

def firstDependencyCycle (s : ProjectState) : Option TicketId :=
  Dfs.firstCycle s.dependencies (s.tickets.map (·.id))

def validate (s : ProjectState) : Except String Unit :=
  match firstRepeated [] (s.tickets.map (·.id)) with
  | some id => .error s!"duplicate ticket id: {id.asStr}"
  | none    =>
    match s.firstUnknown with
    | some (id, dep) => .error s!"ticket {id.asStr} depends on unknown ticket {dep.asStr}"
    | none           =>
      match s.firstDependencyCycle with
      | some node => .error s!"dependency cycle involving ticket {node.asStr}"
      | none      => .ok ()

-- What validation is for: every id names one ticket, every dependency names a ticket, and the
-- dependencies can be worked off in some order.
structure Valid (s : ProjectState) : Prop where
  unique  : (s.tickets.map (·.id)).Nodup
  known   : ∀ t ∈ s.tickets, ∀ dep ∈ t.dependsOn, ∃ t' ∈ s.tickets, t'.id = dep
  acyclic : WellFounded (Dfs.Dep s.dependencies)

theorem firstRepeated_eq_none {seen ids : List TicketId} :
    firstRepeated seen ids = none ↔ ids.Nodup ∧ ∀ id ∈ ids, id ∉ seen := by
  induction ids generalizing seen
  case nil => simp [firstRepeated]
  case cons id ids hi =>
    by_cases h : id ∈ seen
    case pos => simp [firstRepeated, h]
    case neg =>
      simp only [firstRepeated, h, ↓reduceIte, hi, List.nodup_cons, List.mem_cons, not_or,
        forall_eq_or_imp, not_false_eq_true, true_and]
      constructor
      · intro ⟨hn, hs⟩
        exact ⟨⟨fun hm => (hs id hm).left rfl, hn⟩, fun id' hm => (hs id' hm).right⟩
      · intro ⟨⟨hm, hn⟩, hs⟩
        exact ⟨hn, fun id' hm' => ⟨fun he => hm (he ▸ hm'), hs id' hm'⟩⟩

variable {s : ProjectState} {t : Ticket} {id : TicketId}

theorem firstUnknown_eq_none :
    s.firstUnknown = none ↔ ∀ t ∈ s.tickets, ∀ dep ∈ t.dependsOn, ∃ t' ∈ s.tickets, t'.id = dep := by
  simp [firstUnknown, List.findSome?_eq_none_iff]

theorem dependencies_absent (h : id ∉ s.tickets.map (·.id)) : s.dependencies id = [] := by
  have hn : s.ticket id = none := by
    simp only [ticket, List.find?_eq_none, decide_eq_true_eq]
    intro t ht he
    exact h (List.mem_map.mpr ⟨t, ht, he⟩)
  simp [dependencies, hn]

theorem validate_ok_iff : s.validate = .ok () ↔ s.Valid := by
  have hc : s.firstDependencyCycle = none ↔ WellFounded (Dfs.Dep s.dependencies) :=
    Dfs.firstCycle_none_iff fun _ => dependencies_absent
  unfold validate
  constructor
  case mp =>
    intro h
    split at h <;> try contradiction
    split at h <;> try contradiction
    split at h <;> try contradiction
    case _ h₁ _ h₂ _ h₃ =>
      exact ⟨(firstRepeated_eq_none.mp h₁).left, firstUnknown_eq_none.mp h₂, hc.mp h₃⟩
  case mpr =>
    intro h
    have h₁ : firstRepeated [] (s.tickets.map (·.id)) = none :=
      firstRepeated_eq_none.mpr ⟨h.unique, by simp⟩
    rw [h₁, firstUnknown_eq_none.mpr h.known, hc.mpr h.acyclic]

-- With unique ids the lookup finds every ticket.
theorem ticket_eq_of_nodup (h : (s.tickets.map (·.id)).Nodup) (ht : t ∈ s.tickets) :
    s.ticket t.id = some t := by
  rw [ticket]
  cases hf : s.tickets.find? (·.id = t.id)
  case none =>
    have := List.find?_eq_none.mp hf t ht
    simp at this
  case some t' =>
    have hid : t'.id = t.id := by simpa using List.find?_some hf
    have hm := List.mem_of_find?_eq_some hf
    have := List.inj_on_of_nodup_map h hm ht hid
    rw [this]

namespace Valid

theorem ticket_eq (h : s.Valid) (ht : t ∈ s.tickets) : s.ticket t.id = some t :=
  ticket_eq_of_nodup h.unique ht

end Valid

end ProjectState

namespace Rule

def duplicateTicketId        := "duplicate_ticket_id"
def duplicateDocId           := "duplicate_doc_id"
def duplicateChannelId       := "duplicate_channel_id"
def duplicateCommentId       := "duplicate_comment_id"
def duplicateChatId          := "duplicate_chat_id"
def duplicatePlannedSprintId := "duplicate_planned_sprint_id"
def danglingTicketReference  := "dangling_ticket_reference"
def deployIndexRegression    := "deploy_index_regression"
def negativeSpend            := "negative_spend"

end Rule

structure IntegrityFinding where
  ruleId   : String
  ticketId : Option String
  detail   : String
deriving DecidableEq, Repr

structure IntegrityViolation where
  findings : List IntegrityFinding
deriving DecidableEq, Repr

def IntegrityViolation.display (v : IntegrityViolation) : String :=
  v.findings.foldl (fun text f => s!"{text} [{f.ruleId}] {f.detail}")
    s!"structural integrity audit failed ({v.findings.length}):"

-- The ids that appear more than once, each reported once, in the order of their second appearance.
def duplicates (ids : List String) : List String :=
  go [] [] ids
where
  go (seen dupes : List String) : List String → List String
    | []        => dupes
    | id :: ids =>
      if id ∈ seen then
        go seen (if id ∈ dupes then dupes else dupes ++ [id]) ids
      else
        go (id :: seen) dupes ids

-- The ticket a session key `<ticket>/<role>` is about.
def sessionTicket (key : String) : String :=
  .ofList <| key.toList.takeWhile (· ≠ '/')

-- The finding for a key of the collection `map` that names no ticket.
def danglingFinding (map key : String) : IntegrityFinding where
  ruleId   := Rule.danglingTicketReference
  ticketId := some key
  detail   := s!"{map} references missing ticket {key}"

def flagDangling (map : String) (keys tickets : List String) : List IntegrityFinding :=
  keys.filter (· ∉ tickets) |>.map (danglingFinding map)

-- Drop the keys that name no ticket and add their number to `healed`.
def dropDangling (tickets : List String) (map : BTreeMap String ν) (healed : Nat) :
    BTreeMap String ν × Nat :=
  let kept := map.retain (· ∈ tickets)
  (kept, healed + (map.len - kept.len))

namespace ProjectState

def auditIdUniqueness (s : ProjectState) : List IntegrityFinding :=
  (duplicates s.ticketIds).map (fun id =>
    ⟨Rule.duplicateTicketId, some id, s!"ticket id {id} appears more than once"⟩) ++
  (duplicates (s.docs.map (·.id))).map (fun id =>
    ⟨Rule.duplicateDocId, none, s!"doc id {id} appears more than once"⟩) ++
  (duplicates (s.channels.map (·.id))).map (fun id =>
    ⟨Rule.duplicateChannelId, none, s!"channel id {id} appears more than once"⟩) ++
  (duplicates (s.comments.map (·.id))).map (fun id =>
    ⟨Rule.duplicateCommentId, none, s!"comment id {id} appears more than once"⟩) ++
  (duplicates (s.chat.map (·.id))).map (fun id =>
    ⟨Rule.duplicateChatId, none, s!"chat message id {id} appears more than once"⟩) ++
  (duplicates (s.sprintQueue.map (toString ·.id))).map (fun id =>
    ⟨Rule.duplicatePlannedSprintId, none, s!"planned sprint id {id} appears more than once"⟩)

def auditTicketReferences (s : ProjectState) : List IntegrityFinding :=
  let tickets := s.ticketIds
  flagDangling "hold_reasons" s.holdReasons.keys tickets ++
  flagDangling "ticket_attachments" s.ticketAttachments.keys tickets ++
  flagDangling "cost_holds" s.costHolds.keys tickets ++
  flagDangling "ticket_evidence" s.ticketEvidence.keys tickets ++
  flagDangling "ticket_last_merge" s.ticketLastMerge.keys tickets ++
  flagDangling "ticket_redesigns" s.ticketRedesigns.keys tickets ++
  flagDangling "ticket_fail_attempts" s.ticketFailAttempts.keys tickets ++
  flagDangling "auto_approved_at" s.autoApprovedAt.keys tickets ++
  flagDangling "ticket_journal" s.ticketJournal.keys tickets ++
  flagDangling "ticket_failures" s.ticketFailures.keys tickets ++
  flagDangling "swept_tickets" s.sweptTickets.keys tickets ++
  flagDangling "cost_approved" s.costApproved.keys tickets ++
  -- A session is looked up by the ticket part of its key but reported under the whole key.
  (s.ticketSessions.keys.filter (sessionTicket · ∉ tickets)).map (danglingFinding "ticket_sessions")

def auditCounters (s : ProjectState) : List IntegrityFinding :=
  match s.lastGoodDeploy with
  | some good =>
    if good.deployIndex > s.deployIndex then
      [⟨Rule.deployIndexRegression, none,
        s!"deploy_index {s.deployIndex} is behind last_good_deploy index {good.deployIndex} — " ++
        "the deploy ordinal rolled back"⟩]
    else
      []
  | none => []

def auditSpend (s : ProjectState) : List IntegrityFinding :=
  (if s.spend.totalCostUsd < 0 ∨ s.spendTodayUsd < 0 then
    [⟨Rule.negativeSpend, none,
      s!"negative spend: total {s.spend.totalCostUsd}, today {s.spendTodayUsd}"⟩]
  else
    []) ++
  (if (s.spend.byRole.values ++ s.spend.meteredCostByRole.values).any (· < 0) ∨
      s.spend.byOperator.values.any (·.costUsd < 0) then
    [⟨Rule.negativeSpend, none, "negative per-role or per-operator spend"⟩]
  else
    [])

def auditStructuralIntegrity (s : ProjectState) : List IntegrityFinding :=
  s.auditIdUniqueness ++ s.auditTicketReferences ++ s.auditCounters ++ s.auditSpend

-- Remove what dangles, then audit again. The state is changed in place, so it comes with every
-- result. The last three collections are pruned without being counted.
def healDanglingReferences (s : ProjectState) : Except IntegrityViolation Nat × ProjectState :=
  let before := s.auditStructuralIntegrity
  if before = [] then
    (.ok 0, s)
  else if before.any (·.ruleId ≠ Rule.danglingTicketReference) then
    (.error ⟨before⟩, s)
  else
    let tickets := s.ticketIds
    let (holdReasons, healed)        := dropDangling tickets s.holdReasons 0
    let (ticketAttachments, healed)  := dropDangling tickets s.ticketAttachments healed
    let (costHolds, healed)          := dropDangling tickets s.costHolds healed
    let (ticketEvidence, healed)     := dropDangling tickets s.ticketEvidence healed
    let (ticketLastMerge, healed)    := dropDangling tickets s.ticketLastMerge healed
    let (ticketRedesigns, healed)    := dropDangling tickets s.ticketRedesigns healed
    let (ticketFailAttempts, healed) := dropDangling tickets s.ticketFailAttempts healed
    let (autoApprovedAt, healed)     := dropDangling tickets s.autoApprovedAt healed
    let (ticketJournal, healed)      := dropDangling tickets s.ticketJournal healed
    let (ticketFailures, healed)     := dropDangling tickets s.ticketFailures healed
    let s' := { s with
      holdReasons, ticketAttachments, costHolds, ticketEvidence, ticketLastMerge, ticketRedesigns
      ticketFailAttempts, autoApprovedAt, ticketJournal, ticketFailures
      sweptTickets   := s.sweptTickets.retain (· ∈ tickets)
      costApproved   := s.costApproved.retain (· ∈ tickets)
      ticketSessions := s.ticketSessions.retain (sessionTicket · ∈ tickets)
    }
    let after := s'.auditStructuralIntegrity
    if after = [] then (.ok healed, s') else (.error ⟨after⟩, s')

end ProjectState
