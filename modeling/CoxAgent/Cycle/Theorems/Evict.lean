import CoxAgent.Cycle.Evict
import CoxAgent.Selection
import CoxAgent.Store.Theorems.Db

-- What is left of a state when only the tickets and bookkeeping of some ids are kept.
def keepIds (p : String → Bool) (s : ProjectState) : ProjectState := { s with
  tickets              := s.tickets.filter (p ·.id.asStr)
  ticketJournal        := s.ticketJournal.retain p
  ticketStepProvenance := s.ticketStepProvenance.retain p
  ticketFailures       := s.ticketFailures.retain p
  ticketEvidence       := s.ticketEvidence.retain p
  ticketAttachments    := s.ticketAttachments.retain p
  ticketFailAttempts   := s.ticketFailAttempts.retain p
  ticketRedesigns      := s.ticketRedesigns.retain p
  holdReasons          := s.holdReasons.retain p
}

-- The ticket without its dependencies on the evicted ones.
def dropDependencies (archived : List String) (t : Ticket) : Ticket :=
  { t with dependsOn := t.dependsOn.filter (·.asStr ∉ archived) }

variable {archived : List String} {s : ProjectState} {t : Ticket}

theorem keepIds_keepIds {p q : String → Bool} :
    keepIds q (keepIds p s) = keepIds (fun id => p id && q id) s := by
  simp [keepIds, BTreeMap.retain_retain, List.filter_filter, Bool.and_comm]

theorem evictTicket_eq {id : String} : evictTicket s id = keepIds (· ≠ id) s :=
  rfl

theorem keepIds_true : keepIds (fun _ => true) s = s := by
  simp [keepIds, BTreeMap.retain_eq_self]

theorem foldl_evictTicket : archived.foldl evictTicket s = keepIds (· ∉ archived) s := by
  induction archived generalizing s
  case nil => simp [keepIds_true]
  case cons id ids hi =>
    rw [List.foldl_cons, hi, evictTicket_eq, keepIds_keepIds]
    simp

theorem foldl_dropDependency : archived.foldl dropDependency t = dropDependencies archived t := by
  induction archived generalizing t
  case nil => simp [dropDependencies]
  case cons id ids hi =>
    rw [List.foldl_cons, hi]
    simp [dropDependencies, dropDependency, Ticket.removeDependency, List.filter_filter,
      Bool.and_comm]

theorem evict_eq : evict archived s = { keepIds (· ∉ archived) s with
    tickets := (s.tickets.filter (·.id.asStr ∉ archived)).map (dropDependencies archived) } := by
  simp only [evict, foldl_evictTicket, foldl_dropDependency]
  rfl

theorem tickets_evict : (evict archived s).tickets =
    (s.tickets.filter (·.id.asStr ∉ archived)).map (dropDependencies archived) := by
  rw [evict_eq]

theorem mem_tickets_evict : t ∈ (evict archived s).tickets ↔
    ∃ t' ∈ s.tickets, t'.id.asStr ∉ archived ∧ dropDependencies archived t' = t := by
  simp [tickets_evict, and_assoc]

theorem ticketIds_evict : (evict archived s).ticketIds = s.ticketIds.filter (· ∉ archived) := by
  simp [ProjectState.ticketIds, tickets_evict, dropDependencies, List.filter_map, Function.comp_def]

-- A ticket that stays is found under its id as before.
theorem ticket_evict {id : TicketId} (h : id.asStr ∉ archived) :
    (evict archived s).ticket id = (s.ticket id).map (dropDependencies archived) := by
  simp only [ProjectState.ticket, tickets_evict, List.find?_map, List.find?_filter]
  congr 2
  funext t
  by_cases he : t.id = id
  case pos => simp [dropDependencies, he, h]
  case neg => simp [dropDependencies, he]

section Ready

open ProjectState

-- Ready, and held back by nothing but the tickets that are evicted.
def freeBut (archived : List String) (s : ProjectState) (t : Ticket) : Prop :=
  readyFeature t ∧ ∀ dep ∈ t.dependsOn, dep.asStr ∉ archived →
    (s.ticket dep).any (satisfied ·.status)

theorem mem_readyFeatureCandidates {id : TicketId} :
    id ∈ s.readyFeatureCandidates ↔ ∃ t ∈ s.tickets, t.id = id ∧ readyFeature t ∧
      ∀ dep ∈ t.dependsOn, (s.ticket dep).any (satisfied ·.status) := by
  simp [readyFeatureCandidates, mem_candidates, depsSatisfied]

theorem mem_readyFeatureCandidates_evict {id : TicketId} (h : id.asStr ∉ archived) :
    id ∈ (evict archived s).readyFeatureCandidates ↔
      ∃ t ∈ s.tickets, t.id = id ∧ freeBut archived s t := by
  have hd (t : Ticket) : (∀ dep ∈ (dropDependencies archived t).dependsOn,
      ((evict archived s).ticket dep).any (satisfied ·.status)) ↔
      ∀ dep ∈ t.dependsOn, dep.asStr ∉ archived → (s.ticket dep).any (satisfied ·.status) := by
    simp only [dropDependencies, List.mem_filter, decide_eq_true_eq, and_imp]
    refine forall_congr' fun dep => forall_congr' fun _ => forall_congr' fun hn => ?_
    rw [ticket_evict hn]
    cases s.ticket dep <;> simp [dropDependencies]
  rw [mem_readyFeatureCandidates]
  constructor
  case mp =>
    intro ⟨t, ht, hid, hr, hs⟩
    have ⟨t', ht', _, he⟩ := mem_tickets_evict.mp ht
    subst he
    exact ⟨t', ht', hid, hr, (hd t').mp hs⟩
  case mpr =>
    intro ⟨t, ht, hid, hr, hs⟩
    refine ⟨_, mem_tickets_evict.mpr ⟨t, ht, ?_, rfl⟩, hid, hr, (hd t).mpr hs⟩
    rwa [hid]

-- Dropping the edges to evicted tickets leaves the queue as it was iff no such edge was the last
-- thing that held a ready ticket back. Ids need not be unique here, so for each id one ticket that
-- was free before is enough.
theorem evict_keeps_ready_iff :
    (∀ t ∈ s.tickets, t.id.asStr ∉ archived →
      (t.id ∈ (evict archived s).readyFeatureCandidates ↔ t.id ∈ s.readyFeatureCandidates)) ↔
    ∀ t ∈ s.tickets, t.id.asStr ∉ archived → freeBut archived s t →
      ∃ t' ∈ s.tickets, t'.id = t.id ∧ freeBut archived s t' ∧
        ∀ dep ∈ t'.dependsOn, dep.asStr ∈ archived → (s.ticket dep).any (satisfied ·.status) := by
  constructor
  case mp =>
    intro h t ht hn hf
    have hm := (mem_readyFeatureCandidates_evict hn).mpr ⟨t, ht, rfl, hf⟩
    have ⟨t', ht', hid, hr, hs⟩ := mem_readyFeatureCandidates.mp ((h t ht hn).mp hm)
    exact ⟨t', ht', hid, ⟨hr, fun dep hd _ => hs dep hd⟩, fun dep hd _ => hs dep hd⟩
  case mpr =>
    intro h t ht hn
    constructor
    case mp =>
      intro hm
      have ⟨t₁, ht₁, hid₁, hf₁⟩ := (mem_readyFeatureCandidates_evict hn).mp hm
      have ⟨t₂, ht₂, hid₂, hf₂, hs⟩ := h t₁ ht₁ (hid₁ ▸ hn) hf₁
      refine mem_readyFeatureCandidates.mpr ⟨t₂, ht₂, hid₂.trans hid₁, hf₂.left, fun dep hd => ?_⟩
      by_cases ha : dep.asStr ∈ archived
      case pos => exact hs dep hd ha
      case neg => exact hf₂.right dep hd ha
    case mpr =>
      intro hm
      have ⟨t', ht', hid, hr, hs⟩ := mem_readyFeatureCandidates.mp hm
      exact (mem_readyFeatureCandidates_evict hn).mpr
        ⟨t', ht', hid, hr, fun dep hd _ => hs dep hd⟩

-- A rejected ticket may be evicted, and the ready ticket that depends on it is set free by that.
theorem evict_frees_dependent_of_rejected : ¬ ∀ (s : ProjectState) (archived : List String),
    archived ⊆ evictionCandidates s → ∀ t ∈ s.tickets, t.id.asStr ∉ archived →
      (t.id ∈ (evict archived s).readyFeatureCandidates ↔ t.id ∈ s.readyFeatureCandidates) := by
  intro h
  have := h {
    tickets := [
      { id := ⟨"CXA-F001"⟩, kind := .feature, title := "first", status := .rejected },
      { id := ⟨"CXA-F002"⟩, kind := .feature, title := "second", status := .ready
        dependsOn := [⟨"CXA-F001"⟩] }
    ]
  } ["CXA-F001"] (by decide) _ (List.mem_cons_of_mem _ List.mem_cons_self) (by decide)
  revert this
  decide

end Ready

section Commit

open ProjectState

-- The audited collections that an eviction cleans up itself.
def pruned : List String := [
  "hold_reasons", "ticket_attachments", "ticket_evidence", "ticket_redesigns",
  "ticket_fail_attempts", "ticket_journal", "ticket_failures"
]

end Commit
