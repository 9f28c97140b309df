import CoxAgent.Sprint.Lifecycle
import CoxAgent.Sprint.Theorems.Scope

namespace ProjectState

variable {s : ProjectState} {now : String} {cycle length : Nat} {floor : Option Priority}
  {planned : Option PlannedSprint} {id : TicketId} {sprint : Sprint}

-- The state in which the next sprint is put together.
def betweenSprints (s : ProjectState) (now : String) : ProjectState :=
  { s.archiveSprint now with sprintQueue := s.sprintQueue.tail }

theorem rollOver_committed : (s.rollOver now cycle length floor).2.committed =
    (s.betweenSprints now).nextCommitted floor s.sprintQueue.head? :=
  rfl

@[simp]
theorem tickets_betweenSprints : (s.betweenSprints now).tickets = s.tickets := by
  unfold betweenSprints archiveSprint
  cases s.sprint <;> rfl

@[simp]
theorem ticket_betweenSprints : (s.betweenSprints now).ticket id = s.ticket id := by
  unfold ticket
  rw [tickets_betweenSprints]

theorem burnDownScope_betweenSprints : (s.betweenSprints now).burnDownScope = s.burnDownScope := by
  unfold betweenSprints archiveSprint
  cases s.sprint <;> rfl

-- The plan gives the scope when something of it is left, and else the backlog does.
theorem nextCommitted_cases : s.nextCommitted floor planned = s.openBacklog floor ∨
    ∃ p, planned = some p ∧ s.nextCommitted floor planned = p.tickets.filter s.stillPlanned := by
  unfold nextCommitted
  cases planned
  case none => simp
  case some p =>
    dsimp only
    split
    case isTrue  => exact .inl rfl
    case isFalse => exact .inr ⟨p, rfl, rfl⟩

theorem nodup_nextCommitted (hu : (s.tickets.map (·.id)).Nodup)
    (hp : ∀ p ∈ planned, p.tickets.Nodup) : (s.nextCommitted floor planned).Nodup := by
  obtain he | ⟨p, hm, he⟩ := @nextCommitted_cases s floor planned
  case inl => exact he ▸ nodup_openBacklog hu
  case inr => exact he ▸ (hp p hm).filter _

-- What may become of a ticket that the next sprint commits to: it is planned and still to be worked on,
-- or the backlog commits to it.
inductive Commits (s : ProjectState) (floor : Option Priority) (t : Ticket) : Prop
  | planned (p : PlannedSprint) : s.sprintQueue.head? = some p → t.id ∈ p.tickets →
      t.status ∉ [.documented, .verified, .rejected, .onHold] → Commits s floor t
  | backlog : t.status ∉ [.done, .documented, .rejected] →
      (t.kind = .bug → t.status = .open ∧
        (belowBugBurnFloor floor t.priority → t.id ∈ s.burnDownScope)) → Commits s floor t

theorem commits_of_fromBacklog {t : Ticket} (h : FromBacklog (s.betweenSprints now) floor t) :
    Commits s floor t := by
  cases h
  case reserved hr =>
    have hr : (t.kind = .feature ∨ t.kind = .chore) ∧ t.status = .ready := by
      simpa [readyFeature] using hr
    refine .backlog (by simp [hr.2]) fun hk => ?_
    simp [hk] at hr
  case burnDown hk hs hm =>
    exact .backlog (by simp [hs]) fun _ => ⟨hs, fun _ => burnDownScope_betweenSprints ▸ hm⟩
  case seated hb => exact .backlog (by simp [hb.2.1]) fun _ => ⟨hb.2.1, fun h => absurd h hb.2.2⟩
  case filled hf hs =>
    refine .backlog hs fun hk => ?_
    simp [Ticket.isFeature, hk] at hf

-- A sprint commits to tickets on the board, each once, that are neither rejected nor documented. A
-- ticket that is on hold or verified does not come from the plan, a done one not from the backlog, and a
-- bug below the floor is in the plan or in the way of the next feature work.
theorem rollOver_commits (hu : (s.tickets.map (·.id)).Nodup) :
    ((∀ p ∈ s.sprintQueue.head?, p.tickets.Nodup) →
      (s.rollOver now cycle length floor).2.committed.Nodup) ∧
    ∀ id ∈ (s.rollOver now cycle length floor).2.committed,
      ∃ t ∈ s.tickets, t.id = id ∧ t.status ≠ .rejected ∧ t.status ≠ .documented ∧
        Commits s floor t := by
  have hu' : ((s.betweenSprints now).tickets.map (·.id)).Nodup := by
    rw [tickets_betweenSprints]
    exact hu
  rw [rollOver_committed]
  refine ⟨fun hp => nodup_nextCommitted hu' hp, fun id hid => ?_⟩
  obtain he | ⟨p, hp, he⟩ := @nextCommitted_cases (s.betweenSprints now) floor s.sprintQueue.head?
  case inl =>
    have ⟨t, ht, hid, hf⟩ := mem_openBacklog (he ▸ hid)
    have hc := commits_of_fromBacklog hf
    refine ⟨t, tickets_betweenSprints ▸ ht, hid, ?_, ?_, hc⟩ <;> intro hs <;> cases hc <;> simp_all
  case inr =>
    have ⟨hm, hl⟩ := List.mem_filter.mp (he ▸ hid)
    simp only [stillPlanned, ticket_betweenSprints, Option.any_eq_true, decide_eq_true_eq] at hl
    have ⟨t, ht, hs⟩ := hl
    have ⟨ht, hid⟩ := (ticket_eq_some_iff hu).mp ht
    refine ⟨t, ht, hid, ?_, ?_, .planned p hp (hid ▸ hm) hs⟩ <;> intro h <;> simp [h] at hs

-- A burn at the high floor, with a plan that names a low bug.
def plannedLow : ProjectState where
  tickets     := [{ id := ⟨"B1"⟩, kind := .bug, title := "b", status := .open, priority := .low }]
  sprintQueue := [{ id := 1, goal := "polish", tickets := [⟨"B1"⟩] }]

theorem below_floor_plannedLow :
    (plannedLow.tickets.map (·.id)).Nodup ∧
    (plannedLow.rollOver "" 1 10 (some .high)).2.committed = [⟨"B1"⟩] ∧
    ∃ t, plannedLow.ticket ⟨"B1"⟩ = some t ∧ t.kind = .bug ∧
      belowBugBurnFloor (some .high) t.priority := by
  refine ⟨by decide, by decide +kernel, _, rfl, by decide, by decide⟩

theorem rollOver_commits_plannedLow :
    ((plannedLow.rollOver "" 1 10 (some .high)).2.committed.Nodup) ∧
    ∃ t ∈ plannedLow.tickets, t.id = ⟨"B1"⟩ ∧ t.status ≠ .rejected ∧ t.status ≠ .documented ∧
      Commits plannedLow (some .high) t := by
  have hu : (plannedLow.tickets.map (·.id)).Nodup := by decide
  have h := @rollOver_commits plannedLow "" 1 10 (some .high) hu
  exact ⟨h.1 (by decide), h.2 ⟨"B1"⟩ (by decide +kernel)⟩

end ProjectState

namespace ProjectState

variable {s : ProjectState} {sprint : Sprint} {c : SprintClock} {cycle : Nat} {policy : SprintPolicy}

-- What the history says about the sprint.
def sprintRecord (s : ProjectState) (sprint : Sprint) (now : String) : SprintRecord where
  number    := sprint.number
  goal      := sprint.goal
  committed := sprint.committed.length
  done      := s.doneCount
  at'       := now

theorem rollOver_sprints {now : String} {length : Nat} {floor : Option Priority}
    (h : s.sprint = some sprint) :
    (s.rollOver now cycle length floor).2.sprints = s.sprints ++ [s.sprintRecord sprint now] := by
  simp only [rollOver, archiveSprint, h, sprintRecord]

theorem advance_done (h : s.sprint = some sprint) (ha : s.allCommittedDone sprint) :
    s.advance c cycle policy =
      (some (s.rollOver c.now cycle (policy.window.length s.sprint) policy.bugBurnFloor).1,
        (s.rollOver c.now cycle (policy.window.length s.sprint) policy.bugBurnFloor).2) := by
  have hd : s.sprint.any s.allCommittedDone = true := by simpa [h] using ha
  simp only [advance, hd, Bool.true_or, if_true]

theorem allCommittedDone_iff : s.allCommittedDone sprint ↔ sprint.committed ≠ [] ∧
    ∀ id ∈ sprint.committed,
      (s.ticket id).all fun t => t.status ∈ [.documented, .verified, .rejected] := by
  simp only [allCommittedDone, decide_eq_true_eq, List.all_eq_true]

theorem doneCount_eq (h : s.sprint = some sprint) : s.doneCount = sprint.committed.countP fun id =>
    (s.ticket id).any fun t => t.status ∈ [.done, .documented] := by
  simp only [doneCount, h]

-- The advance archives the sprint with everything it committed as done, so that the next sprint is
-- sized by it.
structure Honest (s s' : ProjectState) (sprint : Sprint) (now : String) : Prop where
  archived : s'.sprints = s.sprints ++ [s.sprintRecord sprint now]
  done     : (s.sprintRecord sprint now).done = (s.sprintRecord sprint now).committed
  capacity : s'.sprintCapacity = { s' with
    sprints := s.sprints ++ [{ s.sprintRecord sprint now with done := sprint.committed.length }]
  }.sprintCapacity

-- A finished ticket that is still on the board is counted unless it is verified.
theorem counted_iff {id : TicketId}
    (hd : (s.ticket id).all fun t => t.status ∈ [.documented, .verified, .rejected])
    (hb : ∃ t, s.ticket id = some t ∧ t.status ≠ .rejected) :
    ((s.ticket id).any fun t => t.status ∈ [.done, .documented]) ↔
      ¬(s.ticket id).any (·.status = .verified) := by
  have ⟨t, ht, hr⟩ := hb
  rw [ht] at hd ⊢
  cases hs : t.status <;> simp_all

-- Velocity is honest exactly when no finished ticket is a verified bug.
theorem honest_iff (h : s.sprint = some sprint) (ha : s.allCommittedDone sprint)
    (hb : ∀ id ∈ sprint.committed, ∃ t, s.ticket id = some t ∧ t.status ≠ .rejected) :
    Honest s (s.advance c cycle policy).2 sprint c.now ↔
      ∀ id ∈ sprint.committed, ¬(s.ticket id).any (·.status = .verified) := by
  have hr : (s.advance c cycle policy).2.sprints = s.sprints ++ [s.sprintRecord sprint c.now] := by
    rw [advance_done h ha]
    exact rollOver_sprints h
  have hd : (s.sprintRecord sprint c.now).done = sprint.committed.length ↔
      ∀ id ∈ sprint.committed, ¬(s.ticket id).any (·.status = .verified) := by
    change s.doneCount = _ ↔ _
    rw [doneCount_eq h, List.countP_eq_length]
    exact forall₂_congr fun id hm => counted_iff ((allCommittedDone_iff.mp ha).2 id hm) (hb id hm)
  rw [← hd]
  constructor
  case mp => exact fun hh => hh.done
  case mpr =>
    intro hn
    refine ⟨hr, hn, ?_⟩
    have he : { s.sprintRecord sprint c.now with done := sprint.committed.length } =
        s.sprintRecord sprint c.now := by rw [← hn]
    rw [he, ← hr]

-- A sprint over one bug, which ends in the last status of a bug, and one over a shipped feature.
def burnedDown : ProjectState where
  tickets := [{ id := ⟨"B1"⟩, kind := .bug, title := "b", status := .verified }]
  sprint  := some {
    number := 1, goal := "burn", startedCycle := 0, lengthCycles := 10, committed := [⟨"B1"⟩] }

def shippedFeature : ProjectState where
  tickets := [{ id := ⟨"F1"⟩, kind := .feature, title := "f", status := .documented }]
  sprint  := some {
    number := 1, goal := "ship", startedCycle := 0, lengthCycles := 10, committed := [⟨"F1"⟩] }

def noon : SprintClock where
  now            := "2026-01-01T12:00:00Z"
  secondsSince _ := none

theorem not_honest_burnedDown :
    burnedDown.sprint.any burnedDown.allCommittedDone ∧
    (∀ id ∈ burnedDown.committed, ∃ t, burnedDown.ticket id = some t ∧ t.status ≠ .rejected) ∧
    (burnedDown.advance noon 1 ⟨.cycles 10, none⟩).1 = some 2 ∧
    (burnedDown.advance noon 1 ⟨.cycles 10, none⟩).2.sprints =
      [⟨1, "burn", 1, 0, "2026-01-01T12:00:00Z"⟩] := by
  refine ⟨by decide +kernel, ?_, by decide +kernel, by decide +kernel⟩
  intro id hid
  have hid : id = ⟨"B1"⟩ := by simpa [burnedDown, committed] using hid
  exact ⟨{ id := ⟨"B1"⟩, kind := .bug, title := "b", status := .verified }, by
    rw [hid]
    decide +kernel, by decide⟩

theorem honest_iff_shippedFeature : ∃ sprint, shippedFeature.sprint = some sprint ∧
    Honest shippedFeature (shippedFeature.advance noon 1 ⟨.cycles 10, none⟩).2 sprint noon.now := by
  refine ⟨_, rfl, (honest_iff rfl (by decide +kernel) ?_).mpr ?_⟩
  all_goals
    intro id hid
    rw [List.mem_singleton] at hid
    subst hid
  · exact ⟨{ id := ⟨"F1"⟩, kind := .feature, title := "f", status := .documented }, by decide +kernel,
      by decide⟩
  · decide +kernel

end ProjectState
