import CoxAgent.Lib.Dfs
import CoxAgent.State.Integrity

namespace ProjectState

open Relation

-- Some ticket with the id `id` lists `dep`.
def DependsOn (s : ProjectState) (id dep : TicketId) : Prop :=
  ∃ t ∈ s.tickets, t.id = id ∧ dep ∈ t.dependsOn

variable {s s' : ProjectState} {t : Ticket} {id dep node : TicketId}

-- The search follows the first ticket with an id.
theorem dependsOn_of_dep (h : Dfs.Dep s.dependencies dep id) : s.DependsOn id dep := by
  unfold Dfs.Dep dependencies at h
  split at h
  case h_2 => contradiction
  case h_1 t ht =>
    obtain ⟨hmem, hid⟩ := ticket_mem ht
    exact ⟨t, hmem, hid, h⟩

-- With unique ids there is no other one.
theorem dep_of_dependsOn (hu : (s.tickets.map (·.id)).Nodup) (h : s.DependsOn id dep) :
    Dfs.Dep s.dependencies dep id := by
  obtain ⟨t, ht, rfl, hd⟩ := h
  rwa [Dfs.Dep, dependencies, ticket_eq_of_nodup hu ht]

theorem onCycle_of_dep (h : TransGen (Dfs.Dep s.dependencies) node node) :
    TransGen s.DependsOn node node :=
  transGen_swap.mp (TransGen.mono (fun _ _ => dependsOn_of_dep) _ _ h)

theorem dep_of_onCycle (hu : (s.tickets.map (·.id)).Nodup) (h : TransGen s.DependsOn node node) :
    TransGen (Dfs.Dep s.dependencies) node node :=
  transGen_swap.mp (TransGen.mono (fun _ _ => dep_of_dependsOn hu) _ _ h)

theorem valid_iff : s.Valid ↔
    (s.tickets.map (·.id)).Nodup ∧
    (∀ t ∈ s.tickets, ∀ dep ∈ t.dependsOn, ∃ t' ∈ s.tickets, t'.id = dep) ∧
    ∀ id, ¬ TransGen s.DependsOn id id := by
  have hw := Dfs.acyclic_iff_wellFounded fun _ => dependencies_absent (s := s)
  constructor
  case mp =>
    intro h
    exact ⟨h.unique, h.known, fun id hc => hw.mpr h.acyclic id (dep_of_onCycle h.unique hc)⟩
  case mpr =>
    intro ⟨hu, hk, hc⟩
    exact ⟨hu, hk, hw.mp fun id hd => hc id (onCycle_of_dep hd)⟩

-- A ticket that no other depends on is on no cycle.
theorem Valid.append (h : s.Valid) (ht : s'.tickets = s.tickets ++ [t]) (hf : t.id ∉ s.tickets.map (·.id))
    (hd : ∀ dep ∈ t.dependsOn, dep ∈ s.tickets.map (·.id)) : s'.Valid := by
  obtain ⟨hu, hk, hc⟩ := valid_iff.mp h
  have hdep : ∀ t' ∈ s'.tickets, ∀ dep ∈ t'.dependsOn, dep ∈ s.tickets.map (·.id) := by
    intro t' ht' dep hdep
    rw [ht, List.mem_append, List.mem_singleton] at ht'
    obtain ht' | rfl := ht'
    · exact List.mem_map.mpr (hk t' ht' dep hdep)
    · exact hd dep hdep
  refine valid_iff.mpr ⟨?unique, ?known, ?acyclic⟩
  case unique =>
    rw [ht, List.map_append]
    apply hu.append (List.nodup_singleton _)
    simpa using hf
  case known =>
    intro t' ht' dep hm
    obtain ⟨t'', ht'', he⟩ := List.mem_map.mp (hdep t' ht' dep hm)
    exact ⟨t'', by simp [ht, ht''], he⟩
  case acyclic =>
    have hstep : ∀ {a b}, a ≠ t.id → s'.DependsOn a b → s.DependsOn a b := by
      rintro a b ha ⟨t', ht', rfl, hm⟩
      rw [ht, List.mem_append, List.mem_singleton] at ht'
      obtain ht' | rfl := ht'
      · exact ⟨t', ht', rfl, hm⟩
      · exact absurd rfl ha
    have htarget : ∀ {a b}, s'.DependsOn a b → b ≠ t.id := by
      rintro a b ⟨t', ht', rfl, hm⟩ rfl
      exact hf (hdep t' ht' _ hm)
    have hpath : ∀ {a b}, TransGen s'.DependsOn a b → b ≠ t.id ∧ (a ≠ t.id → TransGen s.DependsOn a b) := by
      intro a b hp
      induction hp
      case single b hs => exact ⟨htarget hs, fun ha => .single (hstep ha hs)⟩
      case tail b c _ hs hi => exact ⟨htarget hs, fun ha => (hi.2 ha).tail (hstep hi.1 hs)⟩
    exact fun id hp => hc id ((hpath hp).2 (hpath hp).1)

-- Only the ids and the dependencies matter.
theorem Valid.congr (h : s.Valid)
    (he : s'.tickets.map (fun t => (t.id, t.dependsOn)) = s.tickets.map fun t => (t.id, t.dependsOn)) : s'.Valid := by
  have hmem (s : ProjectState) (id dep : TicketId) :
      s.DependsOn id dep ↔ ∃ p ∈ s.tickets.map fun t => (t.id, t.dependsOn), p.1 = id ∧ dep ∈ p.2 := by
    simp [DependsOn]
  have hids (s : ProjectState) : s.tickets.map (·.id) = (s.tickets.map fun t => (t.id, t.dependsOn)).map (·.1) := by
    simp
  have hdep : s'.DependsOn = s.DependsOn := by
    funext id dep
    exact propext (by rw [hmem, hmem, he])
  obtain ⟨hu, hk, hc⟩ := valid_iff.mp h
  refine valid_iff.mpr ⟨?unique, ?known, ?acyclic⟩
  case unique  => rwa [hids, he, ← hids]
  case acyclic => rwa [hdep]
  case known =>
    intro t ht dep hd
    have hd : s'.DependsOn t.id dep := ⟨t, ht, rfl, hd⟩
    rw [hdep] at hd
    obtain ⟨t, ht, -, hd⟩ := hd
    have hm : dep ∈ s.tickets.map (·.id) := List.mem_map.mpr (hk t ht dep hd)
    rw [hids, ← he, ← hids] at hm
    exact List.mem_map.mp hm

theorem firstDependencyCycle_onCycle (h : s.firstDependencyCycle = some node) :
    TransGen s.DependsOn node node :=
  onCycle_of_dep (Dfs.firstCycle_some (fun _ => dependencies_absent) h)

-- The search is reached when nothing else is wrong, and decides then.
theorem validate_cycle (hu : (s.tickets.map (·.id)).Nodup)
    (hk : ∀ t ∈ s.tickets, ∀ dep ∈ t.dependsOn, ∃ t' ∈ s.tickets, t'.id = dep)
    (h : s.firstDependencyCycle = some node) :
    s.validate = .error s!"dependency cycle involving ticket {node.asStr}" := by
  have hr : firstRepeated [] (s.tickets.map (·.id)) = none :=
    firstRepeated_eq_none.mpr ⟨hu, by simp⟩
  simp only [validate, hr, firstUnknown_eq_none.mpr hk, h]

-- Validation accepts exactly the tickets with unique ids, known dependencies and no cycle. The
-- search ends on every graph, and what it reports is on a cycle.
theorem validate_exact (s : ProjectState) :
    (s.validate = .ok () ↔
      (s.tickets.map (·.id)).Nodup ∧
      (∀ t ∈ s.tickets, ∀ dep ∈ t.dependsOn, ∃ t' ∈ s.tickets, t'.id = dep) ∧
      ∀ id, ¬ TransGen s.DependsOn id id) ∧
    (∀ r, Dfs.Finds s.dependencies (Dfs.initial (s.tickets.map (·.id))) (s.tickets.map (·.id)) r ↔
      r = s.firstDependencyCycle) ∧
    ∀ node, s.firstDependencyCycle = some node →
      TransGen s.DependsOn node node ∧
      ((s.tickets.map (·.id)).Nodup →
        (∀ t ∈ s.tickets, ∀ dep ∈ t.dependsOn, ∃ t' ∈ s.tickets, t'.id = dep) →
        s.validate = .error s!"dependency cycle involving ticket {node.asStr}") := by
  refine ⟨validate_ok_iff.trans valid_iff, fun _ => Dfs.finds_iff, fun node h => ?_⟩
  exact ⟨firstDependencyCycle_onCycle h, fun hu hk => validate_cycle hu hk h⟩

-- Two tickets that wait for each other.
theorem validate_exact_mutual :
    let feat1 : TicketId := ⟨"FEAT-001"⟩
    let feat2 : TicketId := ⟨"FEAT-002"⟩
    let s : ProjectState := { tickets := [
      { id := feat1, kind := .feature, title := "login", status := .pending, dependsOn := [feat2] },
      { id := feat2, kind := .feature, title := "tokens", status := .pending, dependsOn := [feat1] }] }
    TransGen s.DependsOn feat1 feat1 ∧
    s.validate = .error "dependency cycle involving ticket FEAT-001" := by
  intro feat1 feat2 s
  have h := (validate_exact s).right.right feat1 (by decide)
  exact ⟨h.left, h.right (by decide) (by decide)⟩

end ProjectState

theorem danglingFinding_inj {map map' key key' : String}
    (h : danglingFinding map key = danglingFinding map' key') : map = map' ∧ key = key' := by
  simp only [danglingFinding, IntegrityFinding.mk.injEq, Option.some.injEq, true_and] at h
  have ⟨hk, hd⟩ := h
  subst hk
  have hl := congrArg String.toList hd
  simp only [toString, String.toList_append, List.append_left_inj] at hl
  exact ⟨String.toList_inj.mp hl, rfl⟩

section Duplicates

variable {ids seen dupes : List String}

theorem duplicates.go_eq_nil :
    duplicates.go seen dupes ids = [] ↔ dupes = [] ∧ ids.Nodup ∧ ∀ id ∈ ids, id ∉ seen := by
  induction ids generalizing seen dupes
  case nil => simp [go]
  case cons id ids hi =>
    by_cases h : id ∈ seen
    case pos => by_cases hd : id ∈ dupes <;> simp [go, h, hd, hi]; grind
    case neg => simp [go, h, hi]; grind

theorem duplicates_eq_nil : duplicates ids = [] ↔ ids.Nodup := by
  simp [duplicates, duplicates.go_eq_nil]

end Duplicates

namespace ProjectState

-- The collections whose keys must name a ticket.
def audited (s : ProjectState) : List (String × List String) := [
  ("hold_reasons",         s.holdReasons.keys),
  ("ticket_attachments",   s.ticketAttachments.keys),
  ("cost_holds",           s.costHolds.keys),
  ("ticket_evidence",      s.ticketEvidence.keys),
  ("ticket_last_merge",    s.ticketLastMerge.keys),
  ("ticket_redesigns",     s.ticketRedesigns.keys),
  ("ticket_fail_attempts", s.ticketFailAttempts.keys),
  ("auto_approved_at",     s.autoApprovedAt.keys),
  ("ticket_journal",       s.ticketJournal.keys),
  ("ticket_failures",      s.ticketFailures.keys),
  ("swept_tickets",        s.sweptTickets.keys),
  ("cost_approved",        s.costApproved.keys),
  ("ticket_sessions",      s.ticketSessions.keys)
]

-- The collections among them whose removals the repair counts.
def counted : List String := [
  "hold_reasons", "ticket_attachments", "cost_holds", "ticket_evidence", "ticket_last_merge",
  "ticket_redesigns", "ticket_fail_attempts", "auto_approved_at", "ticket_journal",
  "ticket_failures"
]

-- The ticket that a key of the collection `map` is about.
def keyTicket (map key : String) : String :=
  if map = "ticket_sessions" then sessionTicket key else key

-- Keep the keys of the audited collections that satisfy `p`. Everything else stays as it is.
def retainKeys (p : String → String → Bool) (s : ProjectState) : ProjectState := { s with
  holdReasons        := s.holdReasons.retain (p "hold_reasons")
  ticketAttachments  := s.ticketAttachments.retain (p "ticket_attachments")
  costHolds          := s.costHolds.retain (p "cost_holds")
  ticketEvidence     := s.ticketEvidence.retain (p "ticket_evidence")
  ticketLastMerge    := s.ticketLastMerge.retain (p "ticket_last_merge")
  ticketRedesigns    := s.ticketRedesigns.retain (p "ticket_redesigns")
  ticketFailAttempts := s.ticketFailAttempts.retain (p "ticket_fail_attempts")
  autoApprovedAt     := s.autoApprovedAt.retain (p "auto_approved_at")
  ticketJournal      := s.ticketJournal.retain (p "ticket_journal")
  ticketFailures     := s.ticketFailures.retain (p "ticket_failures")
  sweptTickets       := s.sweptTickets.retain (p "swept_tickets")
  costApproved       := s.costApproved.retain (p "cost_approved")
  ticketSessions     := s.ticketSessions.retain (p "ticket_sessions")
}

-- The state without the entries that its audit names.
def withoutNamed (s : ProjectState) : ProjectState :=
  s.retainKeys fun map key => danglingFinding map key ∉ s.auditStructuralIntegrity

-- The key of the collection `map` names a ticket.
def live (s : ProjectState) (map key : String) : Bool :=
  keyTicket map key ∈ s.ticketIds

variable {s : ProjectState} {p q : String → String → Bool} {map key : String}

theorem retainKeys_congr (h : ∀ c ∈ s.audited, ∀ key ∈ c.2, p c.1 key = q c.1 key) :
    s.retainKeys p = s.retainKeys q := by
  simp only [audited, List.forall_mem_cons] at h
  simp only [retainKeys, ProjectState.mk.injEq, and_true, true_and]
  refine ⟨?_, ?_, ?_, ?_, ?_, ?_, ?_, ?_, ?_, ?_, ?_, ?_, ?_⟩ <;>
    apply BTreeMap.retain_congr <;> grind

theorem audited_retainKeys :
    (s.retainKeys p).audited = s.audited.map fun c => (c.1, c.2.filter (p c.1)) := by
  simp [audited, retainKeys]

@[simp]
theorem ticketIds_retainKeys : (s.retainKeys p).ticketIds = s.ticketIds :=
  rfl

theorem mem_auditTicketReferences {f : IntegrityFinding} :
    f ∈ s.auditTicketReferences ↔
      ∃ c ∈ s.audited, ∃ key ∈ c.2, s.live c.1 key = false ∧ danglingFinding c.1 key = f := by
  simp [auditTicketReferences, audited, live, keyTicket, flagDangling, and_assoc]

-- No rule other than the dangling one can be repaired.
def unrepairable (s : ProjectState) : List IntegrityFinding :=
  s.auditIdUniqueness ++ s.auditCounters ++ s.auditSpend

theorem ruleId_auditIdUniqueness :
    ∀ f ∈ s.auditIdUniqueness, f.ruleId ≠ Rule.danglingTicketReference := by
  simp only [auditIdUniqueness, List.forall_mem_append, List.forall_mem_map]
  simp [Rule.danglingTicketReference, Rule.duplicateTicketId, Rule.duplicateDocId,
    Rule.duplicateChannelId, Rule.duplicateCommentId, Rule.duplicateChatId,
    Rule.duplicatePlannedSprintId]

theorem ruleId_auditCounters :
    ∀ f ∈ s.auditCounters, f.ruleId ≠ Rule.danglingTicketReference := by
  unfold auditCounters
  split <;> try split
  all_goals simp [Rule.danglingTicketReference, Rule.deployIndexRegression]

theorem ruleId_auditSpend :
    ∀ f ∈ s.auditSpend, f.ruleId ≠ Rule.danglingTicketReference := by
  unfold auditSpend
  split <;> split
  all_goals simp [Rule.danglingTicketReference, Rule.negativeSpend]

theorem ruleId_of_mem_unrepairable {f : IntegrityFinding} (h : f ∈ s.unrepairable) :
    f.ruleId ≠ Rule.danglingTicketReference := by
  simp only [unrepairable, List.mem_append] at h
  cases h
  case inr h => exact ruleId_auditSpend f h
  case inl h =>
    cases h
    case inl h => exact ruleId_auditIdUniqueness f h
    case inr h => exact ruleId_auditCounters f h

theorem mem_audit {f : IntegrityFinding} :
    f ∈ s.auditStructuralIntegrity ↔ f ∈ s.unrepairable ∨ f ∈ s.auditTicketReferences := by
  simp only [auditStructuralIntegrity, unrepairable, List.mem_append]
  grind

theorem audit_eq_nil :
    s.auditStructuralIntegrity = [] ↔ s.unrepairable = [] ∧ s.auditTicketReferences = [] := by
  simp only [List.eq_nil_iff_forall_not_mem, mem_audit]
  grind

-- Only dangling references are reported iff nothing is beyond repair.
theorem all_dangling_iff :
    (∀ f ∈ s.auditStructuralIntegrity, f.ruleId = Rule.danglingTicketReference) ↔
      s.unrepairable = [] := by
  constructor
  case mp =>
    intro h
    apply List.eq_nil_iff_forall_not_mem.mpr
    intro f hf
    exact absurd (h f (mem_audit.mpr (.inl hf))) (ruleId_of_mem_unrepairable hf)
  case mpr =>
    intro h f hf
    cases mem_audit.mp hf
    case inl hf => simp [h] at hf
    case inr hf =>
      have ⟨_, _, _, _, _, he⟩ := mem_auditTicketReferences.mp hf
      exact he ▸ rfl

theorem auditTicketReferences_eq_nil :
    s.auditTicketReferences = [] ↔ ∀ c ∈ s.audited, ∀ key ∈ c.2, s.live c.1 key := by
  simp only [List.eq_nil_iff_forall_not_mem, mem_auditTicketReferences]
  constructor
  case mp =>
    intro h c hc key hk
    cases hl : s.live c.1 key
    case false => exact absurd ⟨c, hc, key, hk, hl, rfl⟩ (h _)
    case true  => rfl
  case mpr =>
    intro h f ⟨c, hc, key, hk, hl, _⟩
    simp [h c hc key hk] at hl

-- The audit names an entry iff the entry is there and names no ticket.
theorem named_iff {c : String × List String} (hc : c ∈ s.audited) (hk : key ∈ c.2) :
    danglingFinding c.1 key ∈ s.auditStructuralIntegrity ↔ s.live c.1 key = false := by
  constructor
  case mp =>
    intro h
    cases mem_audit.mp h
    case inl h => exact absurd rfl (ruleId_of_mem_unrepairable h)
    case inr h =>
      have ⟨_, _, _, _, hl, he⟩ := mem_auditTicketReferences.mp h
      have ⟨hm, hk⟩ := danglingFinding_inj he
      exact hm ▸ hk ▸ hl
  case mpr =>
    intro h
    exact mem_audit.mpr (.inr (mem_auditTicketReferences.mpr ⟨c, hc, key, hk, h, rfl⟩))

theorem withoutNamed_eq : s.withoutNamed = s.retainKeys s.live := by
  apply retainKeys_congr
  intro c hc key hk
  have := named_iff hc hk
  cases h : s.live c.1 key <;> simp_all

theorem audit_retainKeys_live (h : s.unrepairable = []) :
    (s.retainKeys s.live).auditStructuralIntegrity = [] := by
  refine audit_eq_nil.mpr ⟨h, auditTicketReferences_eq_nil.mpr ?_⟩
  intro c hc key hk
  rw [audited_retainKeys] at hc
  have ⟨c', _, he⟩ := List.mem_map.mp hc
  subst he
  exact (List.mem_filter.mp hk).right

theorem retainKeys_live_eq_self (h : s.auditTicketReferences = []) : s.retainKeys s.live = s := by
  have hl := auditTicketReferences_eq_nil.mp h
  calc
    s.retainKeys s.live = s.retainKeys (fun _ _ => true) := retainKeys_congr hl
    _ = s := by simp [retainKeys, BTreeMap.retain_eq_self]

-- Some key of a collection that the repair counts names no ticket.
def CountedDangling (s : ProjectState) : Prop :=
  ∃ c ∈ s.audited, c.1 ∈ counted ∧ ∃ key ∈ c.2, key ∉ s.ticketIds

instance : Decidable s.CountedDangling :=
  inferInstanceAs (Decidable (∃ c ∈ s.audited, c.1 ∈ counted ∧ ∃ key ∈ c.2, key ∉ s.ticketIds))

theorem countedDangling_iff : s.CountedDangling ↔
    ∃ keys ∈ [s.holdReasons.keys, s.ticketAttachments.keys, s.costHolds.keys, s.ticketEvidence.keys,
      s.ticketLastMerge.keys, s.ticketRedesigns.keys, s.ticketFailAttempts.keys,
      s.autoApprovedAt.keys, s.ticketJournal.keys, s.ticketFailures.keys],
      ∃ key ∈ keys, key ∉ s.ticketIds := by
  simp [CountedDangling, audited, counted]

theorem dropDangling_fst {ν : Type} {tickets : List String} {map : BTreeMap String ν} {healed : Nat} :
    (dropDangling tickets map healed).1 = map.retain (· ∈ tickets) :=
  rfl

theorem dropDangling_pos {ν : Type} {tickets : List String} {map : BTreeMap String ν} {healed : Nat} :
    (dropDangling tickets map healed).2 > 0 ↔ healed > 0 ∨ ∃ key ∈ map.keys, key ∉ tickets := by
  have hl : _ ↔ ∃ key ∈ map.keys, decide (key ∈ tickets) = false := BTreeMap.len_retain_lt_iff
  simp only [decide_eq_false_iff_not] at hl
  rw [← hl]
  simp only [dropDangling]
  omega

-- The repair, once it is attempted, always succeeds. It reports a positive number iff it removes
-- something from a counted collection.
theorem heal_spec (h : s.unrepairable = []) (hn : s.auditStructuralIntegrity ≠ []) :
    ∃ healed, s.healDanglingReferences = (.ok healed, s.retainKeys s.live) ∧
      (healed > 0 ↔ s.CountedDangling) := by
  have ha : s.auditStructuralIntegrity.any (·.ruleId ≠ Rule.danglingTicketReference) = false := by
    simpa using all_dangling_iff.mpr h
  have hp := audit_retainKeys_live h
  rw [healDanglingReferences, if_neg hn, ha]
  simp only [retainKeys, dropDangling_fst, ↓reduceIte, Bool.false_eq_true] at hp ⊢
  refine ⟨_, if_pos hp, ?_⟩
  simp only [dropDangling_pos, countedDangling_iff]
  simp [or_assoc]

end ProjectState
