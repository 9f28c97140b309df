import CoxAgent.Sprint.Theorems.Scope
import Mathlib.Logic.Function.Iterate

namespace ProjectState

variable {s : ProjectState} {id : TicketId} {t : Ticket} {f : List TicketId → List TicketId}

-- One call, for its effect.
def refilled (s : ProjectState) : ProjectState :=
  s.refillEmptyScope.2

-- After three calls the scope does not change any more, and it feeds the developers if anything can.
def Fed (s : ProjectState) : Prop :=
  (refilled^[3] s).refilled = refilled^[3] s ∧
  (s.workable ≠ [] → (refilled^[3] s).committedCanProgress)

-- Nothing is committed, the backlog has nothing to commit to, and what could be worked on are bugs with
-- a design or bugs that were split off.
structure Stranded (s : ProjectState) : Prop where
  uncommitted : s.committed = []
  features    : ∀ t ∈ s.tickets, t.isFeature → t.status ∈ [.done, .documented, .rejected]
  bugs        : ∀ t ∈ s.tickets, t.kind = .bug → t.status = .open →
                  belowBugBurnFloor s.activeBugBurnFloor t.priority
  waiting     : ∃ t ∈ s.tickets, t.kind = .bug ∧ t.status ∈ [.ready, .pending] ∧
                  ¬belowBugBurnFloor s.activeBugBurnFloor t.priority

section Workable

def Takes (s : ProjectState) (t : Ticket) : Prop :=
  readyFeature t ∧ s.depsSatisfied t ∨ openBug s.activeBugBurnFloor t

theorem mem_workable : id ∈ s.workable ↔ ∃ t ∈ s.tickets, t.id = id ∧ s.Takes t := by
  simp only [workable, List.mem_append, readyFeatureCandidates, openBugCandidates, mem_candidates,
    Takes, Bool.and_eq_true]
  constructor
  case mp =>
    intro h
    cases h
    case inl h =>
      obtain ⟨t, ht, he, hp⟩ := h
      exact ⟨t, ht, he, .inl hp⟩
    case inr h =>
      obtain ⟨t, ht, he, hp⟩ := h
      exact ⟨t, ht, he, .inr hp⟩
  case mpr =>
    rintro ⟨t, ht, he, hp⟩
    cases hp
    case inl hp => exact .inl ⟨t, ht, he, hp⟩
    case inr hp => exact .inr ⟨t, ht, he, hp⟩

-- What can be taken up does not depend on what is committed.
@[simp]
theorem takes_modifyCommitted : (s.modifyCommitted f).Takes t ↔ s.Takes t := by
  simp only [Takes, depsSatisfied, ticket_modifyCommitted, activeBugBurnFloor_modifyCommitted]

theorem mem_workable_modifyCommitted : id ∈ (s.modifyCommitted f).workable ↔ id ∈ s.workable := by
  simp only [mem_workable, tickets_modifyCommitted, takes_modifyCommitted]

theorem workable_eq_nil_modifyCommitted : (s.modifyCommitted f).workable = [] ↔ s.workable = [] := by
  simp only [List.eq_nil_iff_forall_not_mem, mem_workable_modifyCommitted]

end Workable

section Progress

theorem committedCanProgress_iff : s.committedCanProgress ↔ ∃ id ∈ s.committed,
    id ∈ s.workable ∨ (s.ticket id).any (·.status = .inProgress) := by
  simp [committedCanProgress]

-- More committed tickets do not stop the progress.
theorem committedCanProgress_append {ids : List TicketId} (hs : s.sprint.isSome)
    (h : s.committedCanProgress) : (s.modifyCommitted (· ++ ids)).committedCanProgress := by
  rw [committedCanProgress_iff] at h ⊢
  have ⟨id, hm, hp⟩ := h
  refine ⟨id, ?_, ?_⟩
  · rw [committed_modifyCommitted hs]
    exact List.mem_append_left _ hm
  · rw [mem_workable_modifyCommitted, ticket_modifyCommitted]
    exact hp

theorem committedCanProgress_of_workable (hs : s.sprint.isSome) (h : id ∈ s.workable) :
    (s.modifyCommitted (· ++ [id])).committedCanProgress := by
  rw [committedCanProgress_iff]
  refine ⟨id, ?_, .inl (mem_workable_modifyCommitted.mpr h)⟩
  rw [committed_modifyCommitted hs]
  simp

theorem hasFeature_of_unscopedReady (hu : (s.tickets.map (·.id)).Nodup) (hs : s.sprint.isSome)
    (h : s.unscopedReady = some id) : (s.modifyCommitted (· ++ [id])).hasFeature := by
  have ⟨t, hf, he⟩ := Option.map_eq_some_iff.mp h
  have hp := List.find?_some hf
  simp only [decide_eq_true_eq] at hp
  have ht : s.ticket id = some t := he ▸ ticket_eq_of_nodup hu (List.mem_of_find?_eq_some hf)
  have hk : t.isFeature := by
    have := hp.1
    simp only [readyFeature, decide_eq_true_eq] at this
    simpa [Ticket.isFeature] using this.1
  simp only [hasFeature, List.any_eq_true, ticket_modifyCommitted]
  refine ⟨id, ?_, by simp [ht, hk]⟩
  rw [committed_modifyCommitted hs]
  simp

end Progress

-- Something is committed, and it can progress if anything can.
structure Moving (s : ProjectState) : Prop where
  isOpen    : s.sprint.isSome
  committed : s.committed ≠ []
  progress  : s.workable ≠ [] → s.committedCanProgress

-- Moreover a ready feature is in the scope if there is one.
structure Settled (s : ProjectState) : Prop extends s.Moving where
  feature : s.hasFeature ∨ s.unscopedReady = none

section Calls

variable (ho : s.sprint.isSome)
include ho

theorem notEmpty_iff : s.sprint.any (·.committed = []) ↔ s.committed = [] := by
  unfold committed
  cases hs : s.sprint
  case none => simp [hs] at ho
  case some => simp

theorem refilled_empty (h : s.committed = []) :
    s.refilled = s.modifyCommitted fun _ => s.openBacklog s.activeBugBurnFloor := by
  simp only [refilled, refillEmptyScope, (notEmpty_iff ho).mpr h, if_true]

omit ho in
theorem find?_workable (hp : ¬s.committedCanProgress) (hw : s.workable ≠ []) :
    ∃ id ∈ s.workable, s.workable.find? (· ∉ s.committed) = some id := by
  rw [committedCanProgress_iff] at hp
  have ⟨id, hm⟩ := List.exists_mem_of_ne_nil _ hw
  have hf : (s.workable.find? (· ∉ s.committed)).isSome := by
    rw [List.find?_isSome]
    exact ⟨id, hm, by
      rw [decide_eq_true_eq]
      exact fun hc => hp ⟨id, hc, .inl hm⟩⟩
  have ⟨id, he⟩ := Option.isSome_iff_exists.mp hf
  exact ⟨id, List.mem_of_find?_eq_some he, he⟩

theorem refilled_stuck (hc : s.committed ≠ []) (hp : ¬s.committedCanProgress) (hw : s.workable ≠ []) :
    ∃ id ∈ s.workable, s.refilled = s.modifyCommitted (· ++ [id]) := by
  have ⟨id, hm, hf⟩ := find?_workable hp hw
  have ⟨sprint, hs⟩ := Option.isSome_iff_exists.mp ho
  refine ⟨id, hm, ?_⟩
  have he : s.sprint.any (·.committed = []) = false :=
    Bool.eq_false_iff.mpr fun h => hc ((notEmpty_iff ho).mp h)
  simp only [refilled, refillEmptyScope, he, hp, hf]
  rw [hs]
  rfl

theorem pull_eq {pick : Option TicketId} :
    (s.pull pick).2 = pick.elim s fun id => s.modifyCommitted (· ++ [id]) := by
  have ⟨sprint, hs⟩ := Option.isSome_iff_exists.mp ho
  cases pick <;> simp [pull, hs]

omit ho in
theorem refilled_moving (hm : s.Moving) : s.refilled = s.reserveFeature.2 := by
  have he : s.sprint.any (·.committed = []) = false :=
    Bool.eq_false_iff.mpr fun h => hm.committed ((notEmpty_iff hm.isOpen).mp h)
  by_cases hp : s.committedCanProgress
  case pos => simp only [refilled, refillEmptyScope, he, hp]; rfl
  case neg =>
    have hw : s.workable = [] := not_not.mp fun h => hp (hm.progress h)
    simp only [refilled, refillEmptyScope, he, hp, hw]
    rfl

end Calls

theorem Moving.append {ids : List TicketId} (h : s.Moving) : (s.modifyCommitted (· ++ ids)).Moving where
  isOpen      := by simpa using h.isOpen
  committed   := by
    rw [committed_modifyCommitted h.isOpen]
    simp [h.committed]
  progress hw := committedCanProgress_append h.isOpen <|
    h.progress fun he => hw (workable_eq_nil_modifyCommitted.mpr he)

-- The second notion of starvation is healed by one call.
theorem Moving.refilled (hu : (s.tickets.map (·.id)).Nodup) (h : s.Moving) : s.refilled.Settled := by
  rw [refilled_moving h, reserveFeature]
  split
  case isTrue hf => exact ⟨h, .inl hf⟩
  case isFalse =>
    rw [pull_eq h.isOpen]
    cases hr : s.unscopedReady
    case none    => exact ⟨h, .inr hr⟩
    case some id => exact ⟨h.append, .inl (hasFeature_of_unscopedReady hu h.isOpen hr)⟩

theorem Settled.refilled (h : s.Settled) : s.refilled = s := by
  rw [refilled_moving h.toMoving, reserveFeature]
  split
  case isTrue => rfl
  case isFalse hf =>
    rw [pull_eq h.isOpen, h.feature.resolve_left hf]
    rfl

-- A scope that cannot progress gets something that can be taken up.
theorem refilled_committed (ho : s.sprint.isSome) (hc : s.committed ≠ []) :
    s.Moving ∨ s.refilled.Moving := by
  by_cases hp : s.workable ≠ [] → s.committedCanProgress
  case pos => exact .inl ⟨ho, hc, hp⟩
  case neg =>
    push Not at hp
    have ⟨id, hm, he⟩ := refilled_stuck ho hc (by simp [hp.2]) hp.1
    refine .inr (he ▸ ⟨by simpa using ho, ?_, fun _ => committedCanProgress_of_workable ho hm⟩)
    rw [committed_modifyCommitted ho]
    simp

-- A call only rewrites the scope.
theorem refilled_eq (ho : s.sprint.isSome) : ∃ f, s.refilled = s.modifyCommitted f := by
  by_cases hc : s.committed = []
  case pos => exact ⟨_, refilled_empty ho hc⟩
  case neg =>
    by_cases hp : s.workable ≠ [] → s.committedCanProgress
    case neg =>
      push Not at hp
      have ⟨_, _, he⟩ := refilled_stuck ho hc (by simp [hp.2]) hp.1
      exact ⟨_, he⟩
    case pos =>
      rw [refilled_moving ⟨ho, hc, hp⟩, reserveFeature]
      split
      case isTrue => exact ⟨id, (modifyCommitted_eq_self rfl).symm⟩
      case isFalse =>
        rw [pull_eq ho]
        cases s.unscopedReady
        case none    => exact ⟨id, (modifyCommitted_eq_self rfl).symm⟩
        case some id => exact ⟨(· ++ [id]), rfl⟩

structure SameBoard (s s' : ProjectState) : Prop where
  isOpen   : s'.sprint.isSome
  tickets  : s'.tickets = s.tickets
  workable : s'.workable = [] ↔ s.workable = []

theorem sameBoard_refilled (ho : s.sprint.isSome) : s.SameBoard s.refilled := by
  have ⟨f, he⟩ := refilled_eq ho
  rw [he]
  exact ⟨by simpa using ho, rfl, workable_eq_nil_modifyCommitted⟩

theorem SameBoard.trans {s' s'' : ProjectState} (h : s.SameBoard s') (h' : s'.SameBoard s'') :
    s.SameBoard s'' where
  isOpen   := h'.isOpen
  tickets  := h'.tickets.trans h.tickets
  workable := h'.workable.trans h.workable

theorem sameBoard_three (ho : s.sprint.isSome) : s.SameBoard (refilled^[3] s) := by
  have h₁ := sameBoard_refilled ho
  have h₂ := sameBoard_refilled h₁.isOpen
  exact (h₁.trans h₂).trans (sameBoard_refilled h₂.isOpen)

theorem fed_of_settled (ho : s.sprint.isSome) (h : (refilled^[3] s).Settled) : s.Fed :=
  ⟨h.refilled, fun hw => h.progress fun he => hw ((sameBoard_three ho).workable.mp he)⟩

-- Two calls settle a scope that is not empty.
theorem settled_two (hu : (s.tickets.map (·.id)).Nodup) (ho : s.sprint.isSome)
    (hc : s.committed ≠ []) : s.refilled.refilled.Settled := by
  cases refilled_committed ho hc
  case inl hm =>
    have hs := hm.refilled hu
    rw [hs.refilled]
    exact hs
  case inr hm =>
    have hu' : (s.refilled.tickets.map (·.id)).Nodup := (sameBoard_refilled ho).tickets ▸ hu
    exact hm.refilled hu'

theorem settled_three (hu : (s.tickets.map (·.id)).Nodup) (ho : s.sprint.isSome)
    (hc : s.committed ≠ [] ∨ s.openBacklog s.activeBugBurnFloor ≠ []) :
    (refilled^[3] s).Settled := by
  by_cases he : s.committed = []
  case neg =>
    have hs := settled_two hu ho he
    change s.refilled.refilled.refilled.Settled
    rw [hs.refilled]
    exact hs
  case pos =>
    have hb := hc.resolve_left (not_not.mpr he)
    have h₁ := sameBoard_refilled ho
    apply settled_two (h₁.tickets ▸ hu) h₁.isOpen
    rw [refilled_empty ho he, committed_modifyCommitted ho]
    exact hb

-- An empty scope that the backlog cannot fill stays as it is.
theorem fed_of_empty (ho : s.sprint.isSome) (hc : s.committed = [])
    (hb : s.openBacklog s.activeBugBurnFloor = []) : s.Fed ↔ s.workable = [] := by
  have hr : s.refilled = s := by
    rw [refilled_empty ho hc, hb]
    exact modifyCommitted_eq_self hc.symm
  have hp : ¬s.committedCanProgress := by
    rw [committedCanProgress_iff, hc]
    simp
  have hi : refilled^[3] s = s := Function.iterate_fixed hr 3
  simp [Fed, hi, hr, hp]

-- Among such boards those starve that have a bug with a design or one that was split off.
theorem stranded_iff (hc : s.committed = []) (hb : s.openBacklog s.activeBugBurnFloor = []) :
    s.Stranded ↔ s.workable ≠ [] := by
  obtain ⟨hf, hn⟩ := openBacklog_eq_nil.mp hb
  have bugs (t) (ht : t ∈ s.tickets) (hk : t.kind = .bug) (hs : t.status = .open) :
      belowBugBurnFloor s.activeBugBurnFloor t.priority :=
    not_not.mp fun h => hn t ht ⟨hk, hs, h⟩
  constructor
  case mp =>
    intro h
    obtain ⟨t, ht, hk, hs, hp⟩ := h.waiting
    refine List.ne_nil_of_mem (mem_workable.mpr ⟨t, ht, rfl, .inr ?_⟩)
    rw [openBug, decide_eq_true_eq]
    exact ⟨hk, by cases hst : t.status <;> simp_all, hp⟩
  case mpr =>
    intro hw
    obtain ⟨id, hm⟩ := List.exists_mem_of_ne_nil _ hw
    obtain ⟨t, ht, _, hp⟩ := mem_workable.mp hm
    refine ⟨hc, hf, bugs, t, ht, ?_⟩
    cases hp
    case inl hp =>
      have hr : (t.kind = .feature ∨ t.kind = .chore) ∧ t.status = .ready := by
        simpa [readyFeature] using hp.1
      have := hf t ht (by simpa [Ticket.isFeature] using hr.1)
      simp [hr.2] at this
    case inr hp =>
      rw [openBug, decide_eq_true_eq] at hp
      refine ⟨hp.1, ?_, hp.2.2⟩
      have hs : t.status ≠ .open := fun hs => hn t ht ⟨hp.1, hs, hp.2.2⟩
      cases hst : t.status <;> simp_all

-- A running sprint feeds the developers unless it is stranded.
theorem fed_iff (hu : (s.tickets.map (·.id)).Nodup) (ho : s.sprint.isSome) :
    s.Fed ↔ ¬s.Stranded := by
  by_cases hc : s.committed ≠ [] ∨ s.openBacklog s.activeBugBurnFloor ≠ []
  case pos =>
    refine iff_of_true (fed_of_settled ho (settled_three hu ho hc)) fun h => ?_
    have hb : s.openBacklog s.activeBugBurnFloor = [] :=
      openBacklog_eq_nil.mpr ⟨h.features, fun t ht hb => hb.2.2 (h.bugs t ht hb.1 hb.2.1)⟩
    cases hc
    case inl hc  => exact hc h.uncommitted
    case inr hb' => exact hb' hb
  case neg =>
    push Not at hc
    rw [fed_of_empty ho hc.1 hc.2, stranded_iff hc.1 hc.2, not_not]

-- A sprint opened on an empty board, on which a designed bug and one that was split off wait now.
def designedBugs : ProjectState where
  tickets := [
    { id := ⟨"B1"⟩, kind := .bug, title := "b", status := .ready },
    { id := ⟨"B2"⟩, kind := .bug, title := "c", status := .pending }
  ]
  sprint  := some { number := 1, goal := "", startedCycle := 0, lengthCycles := 10, committed := [] }

theorem not_fed_designedBugs :
    (designedBugs.tickets.map (·.id)).Nodup ∧ designedBugs.sprint.isSome ∧
    designedBugs.openBugCandidates = [⟨"B1"⟩, ⟨"B2"⟩] ∧
    designedBugs.refillEmptyScope = (0, designedBugs) ∧
    ¬designedBugs.Fed := by
  have hn : designedBugs.committed = [] := rfl
  have hb : designedBugs.openBacklog designedBugs.activeBugBurnFloor = [] := by decide +kernel
  have hr : designedBugs.refillEmptyScope = (0, designedBugs) := by
    have he : designedBugs.modifyCommitted (fun _ => []) = designedBugs := modifyCommitted_eq_self hn.symm
    simp only [refillEmptyScope, (notEmpty_iff rfl).mpr hn, if_true, hb, he]
    rfl
  refine ⟨by decide, rfl, by decide +kernel, hr, ?_⟩
  rw [fed_of_empty rfl hn hb]
  decide +kernel

-- The same sprint with a ready feature and a blocked one.
def readyAndBlocked : ProjectState where
  tickets := [
    { id := ⟨"F1"⟩, kind := .feature, title := "f", status := .ready, dependsOn := [⟨"F9"⟩] },
    { id := ⟨"F2"⟩, kind := .feature, title := "g", status := .ready }
  ]
  sprint  := some {
    number := 1, goal := "", startedCycle := 0, lengthCycles := 10, committed := [⟨"F1"⟩] }

theorem fed_iff_readyAndBlocked : readyAndBlocked.Fed :=
  (fed_iff (by decide) rfl).mpr fun h => by
    have := h.uncommitted
    revert this
    decide

end ProjectState
