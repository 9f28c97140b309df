import CoxAgent.Backlog.Dependencies
import CoxAgent.State.Theorems.Integrity
import Mathlib.Data.Prod.Lex

namespace ProjectState

open Relation

-- The ticket with the id `id` has to wait for the unfinished ticket `dep`.
def Waits (s : ProjectState) (id dep : TicketId) : Prop :=
  s.DependsOn id dep ∧ s.unfinished dep

-- A dependency that the gate of the developers accepts.
def Met (s : ProjectState) (dep : TicketId) : Prop :=
  ∃ d, s.ticket dep = some d ∧ satisfied d.status

variable {s : ProjectState} {t : Ticket} {id dep x : TicketId}

section Lookup

theorem resolved_eq (status : Status) : resolved status = satisfied status := by
  cases status <;> rfl

theorem unfinished_iff : s.unfinished id ↔ ∃ t, s.ticket id = some t ∧ ¬satisfied t.status := by
  unfold unfinished
  cases s.ticket id <;> simp [resolved_eq]

theorem mem_ids_of_ticket (h : s.ticket id = some t) : id ∈ s.tickets.map (·.id) := by
  exact List.mem_map.mpr ⟨t, ticket_mem h⟩

theorem mem_ids_of_unfinished (h : s.unfinished id) : id ∈ s.tickets.map (·.id) := by
  have ⟨_, ht, _⟩ := unfinished_iff.mp h
  exact mem_ids_of_ticket ht

theorem not_met_iff : ¬s.Met dep ↔ s.unfinished dep ∨ s.ticket dep = none := by
  rw [Met, unfinished_iff]
  cases s.ticket dep <;> simp

theorem depsSatisfied_iff : s.depsSatisfied t ↔ ∀ dep ∈ t.dependsOn, s.Met dep := by
  simp only [depsSatisfied, Met, List.all_eq_true, Option.any_eq_true]

theorem step_iff (hu : (s.tickets.map (·.id)).Nodup) :
    Reach.Step s.dependencies s.unfinished id dep ↔ s.Waits id dep :=
  and_congr_left' ⟨dependsOn_of_dep, dep_of_dependsOn hu⟩

theorem blockedBy_eq_nil (ht : s.ticket id = some t) :
    s.blockedBy id = [] ↔ ∀ dep ∈ t.dependsOn, ¬s.unfinished dep := by
  simp only [blockedBy, ht, List.filterMap_eq_nil_iff, Lists.mem_retainNew, List.mem_filter, Option.map_eq_none_iff,
    and_imp]
  refine forall₂_congr fun dep _ => ⟨fun h ho => ?_, fun h ho => absurd ho h⟩
  obtain ⟨d, hd, _⟩ := unfinished_iff.mp ho
  rw [h ho] at hd
  contradiction

end Lookup

section Leaving

-- A way from a ticket to another one leaves it.
theorem exists_waits (hp : TransGen s.Waits id x) (hx : x ≠ id) : ∃ dep, dep ≠ id ∧ s.Waits id dep := by
  have hleave {y : TicketId} (hp : TransGen s.Waits y x) : y = id → ∃ dep, dep ≠ id ∧ s.Waits id dep := by
    induction hp using TransGen.head_induction_on
    case single y hs       => exact fun he => ⟨x, hx, he ▸ hs⟩
    case head y z hs _ hi =>
      intro he
      by_cases hz : z = id
      case pos => exact hi hz
      case neg => exact ⟨z, hz, he ▸ hs⟩
  exact hleave hp rfl

end Leaving

section Blockers

variable (hu : (s.tickets.map (·.id)).Nodup)

theorem blockingChain_spec (id : TicketId) :
    (∀ x, x ∈ s.blockingChain id ↔ x ≠ id ∧ TransGen (Reach.Step s.dependencies s.unfinished) id x) ∧
    (s.blockingChain id).Nodup ∧
    ∀ pre x post, s.blockingChain id = pre ++ x :: post → ∃ y ∈ id :: pre, x ∈ s.dependencies y :=
  Reach.walk_spec (fun _ => mem_ids_of_unfinished) (by rw [List.length_map])

include hu

theorem mem_blockingChain : x ∈ s.blockingChain id ↔ x ≠ id ∧ TransGen s.Waits id x := by
  have hs : Reach.Step s.dependencies s.unfinished = s.Waits := by
    funext a b
    exact propext (step_iff hu)
  rw [(blockingChain_spec id).left, hs]

-- The dependencies on unknown tickets are those of the one ticket with the id.
theorem unknownDependencies_of (ht : t ∈ s.tickets) :
    (s.unknownDependencies.filter (·.1 = t.id)).map (·.2) =
      (Lists.retainNew t.dependsOn).filter fun dep => (s.ticket dep).isNone := by
  obtain ⟨l₁, l₂, he⟩ := List.append_of_mem ht
  have hother : ∀ t' ∈ l₁ ++ l₂, t'.id ≠ t.id := by
    intro t' ht' hid
    rw [he, List.map_append, List.map_cons] at hu
    have hn := (List.nodup_middle.mp hu).notMem
    rw [← List.map_append] at hn
    exact hn (List.mem_map.mpr ⟨t', ht', hid⟩)
  have hnil (l : List Ticket) (hl : ∀ t' ∈ l, t'.id ≠ t.id) :
      (l.flatMap fun t' => ((Lists.retainNew t'.dependsOn).filter fun dep => (s.ticket dep).isNone).map
        fun dep => (t'.id, dep)).filter (·.1 = t.id) = [] := by
    rw [List.filter_eq_nil_iff]
    intro p hp
    obtain ⟨t', ht', hp⟩ := List.mem_flatMap.mp hp
    obtain ⟨dep, _, rfl⟩ := List.mem_map.mp hp
    simpa using hl t' ht'
  rw [List.forall_mem_append] at hother
  rw [unknownDependencies, he, List.flatMap_append, List.flatMap_cons, List.filter_append, List.filter_append,
    hnil l₁ hother.left, hnil l₂ hother.right, List.nil_append, List.append_nil, List.filter_map, List.map_map]
  simp [Function.comp_def]

theorem mem_blockers (ht : t ∈ s.tickets) : x ∈ s.blockers t.id ↔
    (x ≠ t.id ∧ TransGen s.Waits t.id x) ∨ (x ∈ t.dependsOn ∧ s.ticket x = none) := by
  rw [blockers, List.mem_append, mem_blockingChain hu, unknownDependencies_of hu ht, List.mem_filter,
    Lists.mem_retainNew, Option.isNone_iff_eq_none]

theorem nodup_blockers (ht : t ∈ s.tickets) : (s.blockers t.id).Nodup := by
  rw [blockers, unknownDependencies_of hu ht]
  refine (blockingChain_spec t.id).right.left.append (Lists.nodup_retainNew.filter _) fun x hx hx' => ?_
  have hn := Option.isNone_iff_eq_none.mp (List.mem_filter.mp hx').right
  have ⟨_, hp⟩ := (mem_blockingChain hu).mp hx
  obtain ⟨_, _, hw⟩ := TransGen.tail'_iff.mp hp
  obtain ⟨_, ht', _⟩ := unfinished_iff.mp hw.right
  rw [hn] at ht'
  contradiction

-- Something blocks a ticket exactly if it has a dependency, other than itself, that is not met.
theorem blockers_ne_nil (ht : t ∈ s.tickets) :
    s.blockers t.id ≠ [] ↔ ∃ dep ∈ t.dependsOn, dep ≠ t.id ∧ ¬s.Met dep := by
  have hself : s.ticket t.id = some t := ticket_eq_of_nodup hu ht
  constructor
  case mp =>
    intro hne
    obtain ⟨x, hx⟩ := List.exists_mem_of_ne_nil _ hne
    cases (mem_blockers hu ht).mp hx
    case inl h =>
      obtain ⟨dep, hd, ⟨t', ht', hid, hm⟩, ho⟩ := exists_waits h.right h.left
      obtain rfl := List.inj_on_of_nodup_map hu ht' ht hid
      exact ⟨dep, hm, hd, not_met_iff.mpr (.inl ho)⟩
    case inr h =>
      refine ⟨x, h.left, fun he => ?_, not_met_iff.mpr (.inr h.right)⟩
      rw [he, hself] at h
      exact absurd h.right (by simp)
  case mpr =>
    intro ⟨dep, hm, hd, hn⟩
    refine List.ne_nil_of_mem ((mem_blockers hu ht).mpr ((not_met_iff.mp hn).imp (fun ho => ?_) fun hn => ⟨hm, hn⟩))
    exact ⟨hd, .single ⟨⟨t, ht, rfl, hm⟩, ho⟩⟩

end Blockers

section Radar

theorem mem_radar {b : BlockedSummary} : b ∈ s.radar.blocked ↔
    ∃ t ∈ s.tickets, t.status = .ready ∧ s.blockers t.id ≠ [] ∧ b = ⟨t.id, s.blockers t.id⟩ := by
  simp only [radar, List.mem_filterMap, List.mem_filter, decide_eq_true_eq, Option.ite_none_left_eq_some,
    Option.some.injEq, and_assoc]
  exact exists_congr fun t => and_congr_right fun _ => and_congr_right fun _ => and_congr_right fun _ => eq_comm

-- What the radar tells of a ready ticket.
structure Told (s : ProjectState) (t : Ticket) (blockers : List TicketId) : Prop where
  once    : blockers.Nodup
  exactly : ∀ x, x ∈ blockers ↔ (x ≠ t.id ∧ TransGen s.Waits t.id x) ∨ (x ∈ t.dependsOn ∧ s.ticket x = none)
  first   : ∀ pre x post, blockers = pre ++ x :: post → ∃ y ∈ t.id :: pre, s.DependsOn y x

-- The radar lists a ready ticket exactly if it has a dependency, other than itself, that is not met, and tells
-- with it all unfinished work that it waits for, directly or through other unfinished work, and the dependencies
-- that are unknown.
theorem radar_exact (hu : (s.tickets.map (·.id)).Nodup) (ht : t ∈ s.tickets) (hr : t.status = .ready) :
    ((∃ b ∈ s.radar.blocked, b.id = t.id) ↔ ∃ dep ∈ t.dependsOn, dep ≠ t.id ∧ ¬s.Met dep) ∧
    ∀ b ∈ s.radar.blocked, b.id = t.id → s.Told t b.blockers := by
  have hlisted (b : BlockedSummary) (hb : b ∈ s.radar.blocked) (hid : b.id = t.id) :
      s.blockers t.id ≠ [] ∧ b = ⟨t.id, s.blockers t.id⟩ := by
    obtain ⟨t', ht', -, hne, rfl⟩ := mem_radar.mp hb
    obtain rfl := List.inj_on_of_nodup_map hu ht' ht hid
    exact ⟨hne, rfl⟩
  refine ⟨?_, fun b hb hid => ?_⟩
  case refine_1 =>
    rw [← blockers_ne_nil hu ht]
    constructor
    case mp  => exact fun ⟨b, hb, hid⟩ => (hlisted b hb hid).left
    case mpr => exact fun hne => ⟨_, mem_radar.mpr ⟨t, ht, hr, hne, rfl⟩, rfl⟩
  case refine_2 =>
    rw [(hlisted b hb hid).right]
    constructor
    case once    => exact nodup_blockers hu ht
    case exactly => exact fun _ => mem_blockers hu ht
    case first   =>
      intro pre x post he
      dsimp only at he
      rw [blockers, unknownDependencies_of hu ht] at he
      rcases List.append_eq_append_iff.mp he with ⟨mid, -, hunknown⟩ | ⟨mid, hchain, htail⟩
      case inl =>
        have hx : x ∈ (Lists.retainNew t.dependsOn).filter fun dep => (s.ticket dep).isNone := by
          rw [hunknown]
          simp
        rw [List.mem_filter, Lists.mem_retainNew] at hx
        exact ⟨t.id, List.mem_cons_self, t, ht, rfl, hx.left⟩
      case inr =>
        cases mid
        case nil =>
          rw [List.nil_append] at htail
          have hx : x ∈ (Lists.retainNew t.dependsOn).filter fun dep => (s.ticket dep).isNone := by
            rw [← htail]
            exact List.mem_cons_self
          rw [List.mem_filter, Lists.mem_retainNew] at hx
          exact ⟨t.id, List.mem_cons_self, t, ht, rfl, hx.left⟩
        case cons y mid =>
          obtain ⟨rfl, -⟩ := List.cons.inj htail
          obtain ⟨y, hy, hxy⟩ := (blockingChain_spec t.id).right.right pre _ mid hchain
          exact ⟨y, hy, dependsOn_of_dep hxy⟩

-- A ticket that waits for one that waits for a third, and for a ticket that is not on the board.
theorem radar_exact_chain :
    let feat1 : TicketId := ⟨"FEAT-001"⟩
    let feat2 : TicketId := ⟨"FEAT-002"⟩
    let feat3 : TicketId := ⟨"FEAT-003"⟩
    let s : ProjectState := { tickets := [
      { id := feat1, kind := .feature, title := "login", status := .inProgress },
      { id := feat2, kind := .feature, title := "tokens", status := .ready, dependsOn := [feat1] },
      { id := feat3, kind := .feature, title := "logout", status := .ready, dependsOn := [feat2, ⟨"FEAT-009"⟩] }] }
    (∃ b ∈ s.radar.blocked, b.id = feat3) ∧
    ∀ b ∈ s.radar.blocked, b.id = feat3 → b.blockers.Nodup ∧ feat1 ∈ b.blockers ∧ ⟨"FEAT-009"⟩ ∈ b.blockers := by
  intro feat1 feat2 feat3 s
  have h := radar_exact (s := s) (t := s.tickets[2]) (by decide) (by decide) rfl
  refine ⟨h.left.mpr ⟨feat2, by decide, by decide, not_met_iff.mpr (.inl (by decide))⟩, fun b hb hid => ?_⟩
  have htold := h.right b hb hid
  have h32 : s.Waits feat3 feat2 := ⟨⟨s.tickets[2], by decide, rfl, by decide⟩, by decide⟩
  have h21 : s.Waits feat2 feat1 := ⟨⟨s.tickets[1], by decide, rfl, by decide⟩, by decide⟩
  refine ⟨htold.once, (htold.exactly feat1).mpr (.inl ⟨by decide, .tail (.single h32) h21⟩), ?_⟩
  exact (htold.exactly _).mpr (.inr ⟨by decide, by decide⟩)

-- On a board that passes validation the radar, the direct blockers and the gate of the developers are views of
-- one fact.
theorem radar_agrees (hv : s.validate = .ok ()) (ht : t ∈ s.tickets) (hr : readyFeature t) :
    ((∃ b ∈ s.radar.blocked, b.id = t.id) ↔ t.id ∉ s.readyFeatureCandidates) ∧
    (s.blockedBy t.id = [] ↔ t.id ∈ s.readyFeatureCandidates) := by
  have hvalid := validate_ok_iff.mp hv
  have hstatus : t.status = .ready := by
    simp only [readyFeature, decide_eq_true_eq] at hr
    exact hr.right
  have hself : t.id ∉ t.dependsOn := fun hm =>
    (valid_iff.mp hvalid).right.right t.id (.single ⟨t, ht, rfl, hm⟩)
  have hgate : t.id ∈ s.readyFeatureCandidates ↔ s.depsSatisfied t := by
    rw [readyFeatureCandidates, mem_candidates]
    constructor
    case mp =>
      intro ⟨t', ht', hid, hd⟩
      obtain rfl := List.inj_on_of_nodup_map hvalid.unique ht' ht hid
      exact (Bool.and_eq_true_iff.mp hd).right
    case mpr => exact fun hd => ⟨t, ht, rfl, Bool.and_eq_true_iff.mpr ⟨hr, hd⟩⟩
  rw [(radar_exact hvalid.unique ht hstatus).left, hgate, depsSatisfied_iff, blockedBy_eq_nil (hvalid.ticket_eq ht)]
  refine ⟨?_, forall₂_congr fun dep hm => ?_⟩
  case refine_1 =>
    push Not
    exact exists_congr fun dep => and_congr_right fun hm => and_iff_right fun he => hself (he ▸ hm)
  case refine_2 =>
    obtain ⟨d, hd, rfl⟩ := hvalid.known t ht dep hm
    rw [← not_iff_not, not_not, not_met_iff, hvalid.ticket_eq hd]
    simp

theorem radar_agrees_waiting :
    let feat1 : TicketId := ⟨"FEAT-001"⟩
    let feat2 : TicketId := ⟨"FEAT-002"⟩
    let s : ProjectState := { tickets := [
      { id := feat1, kind := .feature, title := "login", status := .inProgress },
      { id := feat2, kind := .feature, title := "tokens", status := .ready, dependsOn := [feat1] }] }
    (∃ b ∈ s.radar.blocked, b.id = feat2) ∧ feat2 ∉ s.readyFeatureCandidates := by
  intro feat1 feat2 s
  have h := radar_agrees (s := s) (t := s.tickets[1]) (by decide) (by decide) (by decide)
  have hlisted : ∃ b ∈ s.radar.blocked, b.id = feat2 := ⟨⟨feat2, [feat1]⟩, by decide, rfl⟩
  exact ⟨hlisted, h.left.mp hlisted⟩

end Radar

section Cycles

theorem onCycle_iff (hu : (s.tickets.map (·.id)).Nodup) (ht : t ∈ s.tickets) :
    s.onCycle t ↔ TransGen s.DependsOn t.id t.id := by
  have hopen : Reach.Open s.dependencies t.id [] t.dependsOn.reverse := ⟨by simp, by simp⟩
  have hrel : (fun a b => b ∈ s.dependencies a) = s.DependsOn := by
    funext a b
    exact propext ⟨dependsOn_of_dep, dep_of_dependsOn hu⟩
  rw [onCycle, Reach.finds_iff (fun _ => dependencies_absent) hopen (le_refl _), Reach.Leads, hrel,
    TransGen.head'_iff]
  constructor
  case mp  =>
    rintro ⟨x, hx, hp⟩
    exact ⟨x, ⟨t, ht, rfl, List.mem_reverse.mp hx⟩, hp⟩
  case mpr =>
    rintro ⟨x, ⟨t', ht', hid, hm⟩, hp⟩
    obtain rfl := List.inj_on_of_nodup_map hu ht' ht hid
    exact ⟨x, List.mem_reverse.mpr hm, hp⟩

theorem mem_cycleMembers (hu : (s.tickets.map (·.id)).Nodup) :
    id.asStr ∈ s.cycleMembers.keys ↔ TransGen s.DependsOn id id := by
  rw [cycleMembers, BTreeMap.mem_keys_foldl_insert, List.mem_map]
  simp only [List.mem_filter, BTreeMap.keys_empty, List.not_mem_nil, or_false]
  constructor
  case mp =>
    intro ⟨t, ⟨ht, hc⟩, he⟩
    obtain rfl := TicketId.ext he
    exact (onCycle_iff hu ht).mp hc
  case mpr =>
    intro hc
    obtain ⟨_, ⟨t, ht, rfl, _⟩, _⟩ := TransGen.head'_iff.mp hc
    exact ⟨t, ⟨ht, (onCycle_iff hu ht).mpr hc⟩, rfl⟩

-- The stack of the radar lists exactly the tickets that wait for themselves, and is at one with the search of
-- the validation on whether there are any.
theorem cycleMembers_exact (hu : (s.tickets.map (·.id)).Nodup) :
    (∀ id, id.asStr ∈ s.cycleMembers.keys ↔ TransGen s.DependsOn id id) ∧
    (s.cycleMembers.keys = [] ↔ s.firstDependencyCycle = none) := by
  refine ⟨fun _ => mem_cycleMembers hu, ?_⟩
  have hnone : s.firstDependencyCycle = none ↔ ∀ id, ¬TransGen s.DependsOn id id := by
    have hd : ∀ n, n ∉ s.tickets.map (·.id) → s.dependencies n = [] := fun _ => dependencies_absent
    rw [firstDependencyCycle, Dfs.firstCycle_none_iff hd, ← Dfs.acyclic_iff_wellFounded hd]
    exact forall_congr' fun id => not_congr ⟨onCycle_of_dep, dep_of_onCycle hu⟩
  rw [hnone, List.eq_nil_iff_forall_not_mem]
  constructor
  case mp  => exact fun h id hc => h id.asStr ((mem_cycleMembers hu).mpr hc)
  case mpr => exact fun h k hk => h ⟨k⟩ ((mem_cycleMembers hu).mp hk)

theorem cycleMembers_exact_mutual :
    let feat1 : TicketId := ⟨"FEAT-001"⟩
    let feat2 : TicketId := ⟨"FEAT-002"⟩
    let feat3 : TicketId := ⟨"FEAT-003"⟩
    let s : ProjectState := { tickets := [
      { id := feat1, kind := .feature, title := "login", status := .pending, dependsOn := [feat2] },
      { id := feat2, kind := .feature, title := "tokens", status := .pending, dependsOn := [feat1] },
      { id := feat3, kind := .feature, title := "logout", status := .pending, dependsOn := [feat1] }] }
    TransGen s.DependsOn feat1 feat1 ∧ ¬TransGen s.DependsOn feat3 feat3 ∧ s.firstDependencyCycle ≠ none := by
  intro feat1 feat2 feat3 s
  have h := cycleMembers_exact (s := s) (by decide)
  have hkeys : s.cycleMembers.keys = ["FEAT-001", "FEAT-002"] := by decide
  refine ⟨(h.left feat1).mp (by rw [hkeys]; decide), fun hc => ?_, fun hn => ?_⟩
  case refine_1 =>
    have := (h.left feat3).mpr hc
    rw [hkeys] at this
    exact absurd this (by decide)
  case refine_2 =>
    rw [h.right.mpr hn] at hkeys
    contradiction

end Cycles

section CriticalPath

-- Unfinished work of which each waits for the next.
def Chain (s : ProjectState) (chain : List TicketId) : Prop :=
  chain.IsChain s.Waits ∧ ∀ id ∈ chain, s.unfinished id

-- What the preference of the radar goes by, up to the ids.
def urgency (s : ProjectState) (chain : List TicketId) : Lex (Nat × Nat) :=
  toLex (chain.length, s.topPriority chain)

variable {chain chain' : List TicketId}

theorem urgency_le : s.urgency chain ≤ s.urgency chain' ↔
    chain.length < chain'.length ∨
      (chain.length = chain'.length ∧ s.topPriority chain ≤ s.topPriority chain') :=
  Prod.Lex.toLex_le_toLex

theorem topPriority_cons : s.topPriority (id :: chain) =
    max ((s.ticket id).elim 0 (priorityRank ·.priority)) (s.topPriority chain) := by
  have hmax (n : Nat) (l : List Nat) : (n :: l).max?.getD 0 = max n (l.max?.getD 0) := by
    rw [List.max?_cons]
    cases l.max? <;> simp
  unfold topPriority
  cases ht : s.ticket id
  case none   => simp [ht]
  case some t =>
    rw [List.filterMap_cons, ht, Option.map_some, Option.elim_some]
    exact hmax _ _

theorem preference : LongestPath.Preference s.betterChain s.urgency where
  le_of_better h := by
    rw [urgency_le]
    unfold betterChain at h
    split at h
    case isTrue hl  => exact .inl (decide_eq_true_eq.mp h)
    case isFalse hl =>
      refine .inr ⟨(not_not.mp hl).symm, ?_⟩
      split at h
      case isTrue hp  => exact (decide_eq_true_eq.mp h).le
      case isFalse hp => exact (not_not.mp hp).ge
  le_of_not_better h := by
    rw [urgency_le]
    unfold betterChain at h
    split at h
    case isTrue hl  =>
      rw [decide_eq_true_eq] at h
      exact .inl (lt_of_le_of_ne (not_lt.mp h) hl)
    case isFalse hl =>
      refine .inr ⟨not_not.mp hl, ?_⟩
      split at h
      case isTrue hp  =>
        rw [decide_eq_true_eq] at h
        exact not_lt.mp h
      case isFalse hp => exact (not_not.mp hp).le
  cons x h := by
    rw [urgency_le] at h ⊢
    rw [topPriority_cons, topPriority_cons, List.length_cons, List.length_cons]
    cases h
    case inl h => exact .inl (Nat.succ_lt_succ h)
    case inr h => exact .inr ⟨congrArg Nat.succ h.left, max_le_max_left _ h.right⟩

theorem next_eq (hu : (s.tickets.map (·.id)).Nodup) : LongestPath.Next s.dependsOn s.unfinished = s.Waits := by
  funext a b
  refine propext (and_congr_left' ?_)
  simp only [dependsOn, Option.map_eq_some_iff]
  constructor
  case mp =>
    intro ⟨ds, ⟨t, ht, he⟩, hm⟩
    obtain ⟨hmem, hid⟩ := ticket_mem ht
    exact ⟨t, hmem, hid, he ▸ hm⟩
  case mpr =>
    intro ⟨t, ht, hid, hm⟩
    exact ⟨t.dependsOn, ⟨t, hid ▸ ticket_eq_of_nodup hu ht, rfl⟩, hm⟩

theorem chain_iff (hid : s.unfinished id) :
    s.Chain (id :: chain) ↔ (id :: chain).IsChain s.Waits := by
  refine ⟨And.left, fun h => ⟨h, ?_⟩⟩
  induction chain generalizing id
  case nil             => exact List.forall_mem_singleton.mpr hid
  case cons x chain hi =>
    have ⟨hw, hc⟩ := List.isChain_cons_cons.mp h
    exact List.forall_mem_cons.mpr ⟨hid, hi hw.right hc⟩

theorem unfinished_of_mem (hv : s.Valid) (ht : t ∈ s.tickets) : s.unfinished t.id ↔ ¬resolved t.status := by
  rw [unfinished, hv.ticket_eq ht]
  simp

variable {memo : LongestPath.Memo TicketId} {done : List Ticket} {st : List TicketId × LongestPath.Memo TicketId}

theorem longestUnresolvedFrom_best (hv : s.Valid)
    (hs : LongestPath.Sound s.dependsOn s.unfinished s.urgency memo) :
    LongestPath.Best s.dependsOn s.unfinished s.urgency id (s.longestUnresolvedFrom [] id memo).1 ∧
      LongestPath.Sound s.dependsOn s.unfinished s.urgency (s.longestUnresolvedFrom [] id memo).2 := by
  have hcycle (x : TicketId) : ¬TransGen (LongestPath.Next s.dependsOn s.unfinished) x x := by
    rw [next_eq hv.unique]
    exact fun hc => (valid_iff.mp hv).right.right x (TransGen.mono (fun _ _ => And.left) _ _ hc)
  have hnodes (x : TicketId) (hx : (s.dependsOn x).isSome) : x ∈ s.tickets.map (·.id) := by
    rw [dependsOn, Option.isSome_map] at hx
    obtain ⟨t, ht⟩ := Option.isSome_iff_exists.mp hx
    exact mem_ids_of_ticket ht
  have hfuel : (s.tickets.map (·.id)).length ≤ s.tickets.length + ([] : List TicketId).length := by
    rw [List.length_map, List.length_nil, Nat.add_zero]
  exact LongestPath.longest_best preference hcycle hnodes (by simp) List.nodup_nil (List.nil_subset _) hfuel hs

-- What is known of the critical path after the tickets `done`.
structure Surveyed (s : ProjectState) (done : List Ticket) (st : List TicketId × LongestPath.Memo TicketId) :
    Prop where
  chain : st.1 = [] ∨ (2 ≤ st.1.length ∧ s.Chain st.1)
  sound : LongestPath.Sound s.dependsOn s.unfinished s.urgency st.2
  tops  : ∀ t ∈ done, ∀ rest, s.Chain (t.id :: rest) → rest ≠ [] → s.urgency (t.id :: rest) ≤ s.urgency st.1

theorem Surveyed.step (hv : s.Valid) (ht : t ∈ s.tickets) (h : s.Surveyed done st) :
    s.Surveyed (done ++ [t])
      (if resolved t.status then st
        else
          (if 2 ≤ (t.id :: (s.longestUnresolvedFrom [] t.id st.2).1).length &&
              s.betterChain (t.id :: (s.longestUnresolvedFrom [] t.id st.2).1) st.1 then
            t.id :: (s.longestUnresolvedFrom [] t.id st.2).1 else st.1,
            (s.longestUnresolvedFrom [] t.id st.2).2)) := by
  have hopen : s.unfinished t.id ↔ ¬resolved t.status := unfinished_of_mem hv ht
  by_cases hr : resolved t.status
  case pos =>
    rw [if_pos hr]
    refine { h with tops := List.forall_mem_append.mpr ⟨h.tops, List.forall_mem_singleton.mpr ?_⟩ }
    exact fun rest hc => absurd hr (hopen.mp (hc.right t.id List.mem_cons_self))
  case neg =>
    rw [if_neg hr]
    obtain ⟨⟨hpath, hbest⟩, hsound⟩ := @longestUnresolvedFrom_best s t.id st.2 hv h.sound
    set path := (s.longestUnresolvedFrom [] t.id st.2).1
    rw [LongestPath.Path, next_eq hv.unique] at hpath
    -- A chain from the ticket is no better than the one that was found.
    have hle (rest : List TicketId) (hc : s.Chain (t.id :: rest)) :
        s.urgency (t.id :: rest) ≤ s.urgency (t.id :: path) := by
      refine preference.cons t.id (hbest rest ?_)
      rw [LongestPath.Path, next_eq hv.unique]
      exact hc.left
    have hkeep : s.urgency st.1 ≤ s.urgency
        (if 2 ≤ (t.id :: path).length && s.betterChain (t.id :: path) st.1 then t.id :: path else st.1) := by
      split
      case isTrue hc  => exact preference.le_of_better (Bool.and_eq_true_iff.mp hc).right
      case isFalse hc => exact le_refl _
    constructor
    case chain =>
      dsimp only
      split
      case isTrue hc =>
        have hl := decide_eq_true_eq.mp (Bool.and_eq_true_iff.mp hc).left
        exact .inr ⟨hl, (chain_iff (hopen.mpr hr)).mpr hpath⟩
      case isFalse   => exact h.chain
    case sound => exact hsound
    case tops  =>
      refine List.forall_mem_append.mpr ⟨fun t' ht' rest hc hne => (h.tops t' ht' rest hc hne).trans hkeep, ?_⟩
      refine List.forall_mem_singleton.mpr fun rest hc hne => (hle rest hc).trans ?_
      split
      case isTrue     => exact le_refl _
      case isFalse hb =>
        have hlen : 2 ≤ (t.id :: path).length := by
          have hr := urgency_le.mp (hle rest hc)
          have := List.length_pos_of_ne_nil hne
          simp only [List.length_cons] at hr ⊢
          omega
        rw [Bool.and_eq_true_iff, decide_eq_true_eq, not_and] at hb
        exact preference.le_of_not_better (hb hlen)

theorem Surveyed.run {l : List Ticket} (hv : s.Valid) (hl : l ⊆ s.tickets) (h : s.Surveyed done st) :
    s.Surveyed (done ++ l) (l.foldl (fun (best, memo) t =>
      if resolved t.status then
        (best, memo)
      else
        let (path, memo) := s.longestUnresolvedFrom [] t.id memo
        let candidate := t.id :: path
        (if 2 ≤ candidate.length && s.betterChain candidate best then candidate else best, memo)) st) := by
  induction l generalizing done st
  case nil         => rwa [List.append_nil]
  case cons t l hi =>
    obtain ⟨ht, hl⟩ := List.cons_subset.mp hl
    have hcons := hi hl (h.step hv ht)
    rwa [List.append_assoc, List.singleton_append] at hcons

-- On a board that passes validation, the critical path is a chain of unfinished work than which none is longer,
-- and among those of its length none has a higher top priority. It is empty exactly if no unfinished work waits
-- for other unfinished work.
theorem criticalPath_best (hv : s.validate = .ok ()) :
    (s.criticalPath = [] ∨ (2 ≤ s.criticalPath.length ∧ s.Chain s.criticalPath)) ∧
    ∀ chain, s.Chain chain → 2 ≤ chain.length →
      chain.length < s.criticalPath.length ∨
        (chain.length = s.criticalPath.length ∧ s.topPriority chain ≤ s.topPriority s.criticalPath) := by
  have hempty : s.Surveyed [] ([], fun _ => none) := ⟨.inl rfl, fun _ _ h => by contradiction, by simp⟩
  have h := hempty.run (validate_ok_iff.mp hv) (List.Subset.refl _)
  refine ⟨h.chain, fun chain hc hlen => ?_⟩
  cases chain
  case nil          => simp at hlen
  case cons id rest =>
    obtain ⟨t, ht, rfl⟩ := List.mem_map.mp (mem_ids_of_unfinished (hc.right id List.mem_cons_self))
    have hne : rest ≠ [] := by
      rintro rfl
      simp at hlen
    exact urgency_le.mp (h.tops t ht rest hc hne)

-- The longer one of two chains, though the other one is more urgent.
theorem criticalPath_best_longer :
    let feat1 : TicketId := ⟨"FEAT-001"⟩
    let feat2 : TicketId := ⟨"FEAT-002"⟩
    let feat3 : TicketId := ⟨"FEAT-003"⟩
    let feat4 : TicketId := ⟨"FEAT-004"⟩
    let s : ProjectState := { tickets := [
      { id := feat1, kind := .feature, title := "login", status := .inProgress },
      { id := feat2, kind := .feature, title := "tokens", status := .ready, dependsOn := [feat1] },
      { id := feat3, kind := .feature, title := "logout", status := .ready, dependsOn := [feat2] },
      { id := feat4, kind := .feature, title := "keys", status := .ready, priority := .high, dependsOn := [feat1] }] }
    s.criticalPath = [feat3, feat2, feat1] ∧ ∀ chain, s.Chain chain → 2 ≤ chain.length → chain.length ≤ 3 := by
  intro feat1 feat2 feat3 feat4 s
  have hpath : s.criticalPath = [feat3, feat2, feat1] := by decide
  refine ⟨hpath, fun chain hc hlen => ?_⟩
  have h := (criticalPath_best (s := s) (by decide)).right chain hc hlen
  rw [hpath] at h
  exact h.elim Nat.le_of_lt (·.left.le)

end CriticalPath

end ProjectState
