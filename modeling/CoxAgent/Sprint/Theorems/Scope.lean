import CoxAgent.Sprint.Lifecycle
import CoxAgent.Sprint.Theorems.Candidates

namespace ProjectState

variable {s : ProjectState} {floor : Option Priority} {t : Ticket} {ts : List Ticket} {id : TicketId}

section Backlog

variable {budget : Nat} {picked : List TicketId}

-- An open bug that the floor does not park.
def Burning (floor : Option Priority) (t : Ticket) : Prop :=
  t.kind = .bug ∧ t.status = .open ∧ ¬belowBugBurnFloor floor t.priority

theorem mem_seatBugs (h : id ∈ seatBugs floor budget picked ts) :
    id ∈ picked ∨ ∃ t ∈ ts, t.id = id ∧ Burning floor t := by
  induction ts generalizing budget picked
  case nil => cases budget <;> exact .inl (by simpa [seatBugs] using h)
  case cons t ts hi =>
    cases budget
    case zero => exact .inl (by simpa [seatBugs] using h)
    case succ budget =>
      simp only [seatBugs] at h
      split at h
      case isTrue hb =>
        obtain hm | ⟨u, hu, he, hp⟩ := hi h
        case inl =>
          obtain hm | hm := List.mem_append.mp hm
          case inl => exact .inl hm
          case inr =>
            exact .inr ⟨t, by simp, (List.mem_singleton.mp hm).symm, hb.1, hb.2.1, hb.2.2.1⟩
        case inr => exact .inr ⟨u, by simp [hu], he, hp⟩
      case isFalse =>
        obtain hm | ⟨u, hu, he, hp⟩ := hi h
        case inl => exact .inl hm
        case inr => exact .inr ⟨u, by simp [hu], he, hp⟩

theorem nodup_seatBugs (h : picked.Nodup) : (seatBugs floor budget picked ts).Nodup := by
  induction ts generalizing budget picked
  case nil => cases budget <;> simpa [seatBugs] using h
  case cons t ts hi =>
    cases budget
    case zero => simpa [seatBugs] using h
    case succ budget =>
      simp only [seatBugs]
      split
      case isTrue hb  => exact hi (h.append (by simp) (by simpa using hb.2.2.2))
      case isFalse    => exact hi h

theorem prefix_seatBugs : picked <+: seatBugs floor budget picked ts := by
  induction ts generalizing budget picked
  case nil => cases budget <;> simp [seatBugs]
  case cons t ts hi =>
    cases budget
    case zero => simp [seatBugs]
    case succ budget =>
      simp only [seatBugs]
      split
      case isTrue  => exact (List.prefix_append _ _).trans hi
      case isFalse => exact hi

-- While there are seats a bug is passed over only for its id.
theorem seatBugs_eq_nil (hn : budget ≠ 0) :
    seatBugs floor budget [] ts = [] ↔ ∀ t ∈ ts, ¬Burning floor t := by
  induction ts
  case nil => cases budget <;> simp [seatBugs]
  case cons t ts hi =>
    have ⟨budget, he⟩ := Nat.exists_eq_succ_of_ne_zero hn
    subst he
    simp only [seatBugs, List.forall_mem_cons]
    split
    case isFalse hb =>
      have hn : ¬Burning floor t := fun h => hb ⟨h.1, h.2.1, h.2.2, by simp⟩
      rw [hi]
      exact ⟨fun h => ⟨hn, h⟩, fun h => h.2⟩
    case isTrue hb =>
      have hne : seatBugs floor budget ([] ++ [t.id]) ts ≠ [] := fun he => by
        have hp := @prefix_seatBugs floor ts budget ([] ++ [t.id])
        rw [he] at hp
        simp at hp
      simp only [hne, false_iff, not_and_or, not_not]
      exact .inl ⟨hb.1, hb.2.1, hb.2.2.1⟩

theorem mem_burnDownScope (h : id ∈ s.burnDownScope) :
    ∃ t ∈ s.tickets, t.id = id ∧ t.kind = .bug ∧ t.status = .open := by
  unfold burnDownScope at h
  split at h
  case h_1 => contradiction
  case h_2 =>
    have ⟨⟨t, i⟩, hm, he⟩ := List.mem_map.mp h
    have ⟨hm, hp⟩ := List.mem_filter.mp hm
    rw [decide_eq_true_eq] at hp
    exact ⟨t, List.fst_mem_of_mem_zipIdx hm, he, hp.1, hp.2.1⟩

theorem burnDownScope_sublist : s.burnDownScope.Sublist (s.tickets.map (·.id)) := by
  unfold burnDownScope
  split
  case h_1 => simp
  case h_2 =>
    have hz : s.tickets.zipIdx.map (·.1.id) = s.tickets.map (·.id) := by
      have h := congrArg (List.map Ticket.id) (List.zipIdx_map_fst 0 s.tickets)
      rwa [List.map_map] at h
    rw [← hz]
    exact List.filter_sublist.map _

theorem burnDownScope_eq_nil (h : ∀ t ∈ s.tickets, t.isFeature → t.status ∉ [.pending, .ready]) :
    s.burnDownScope = [] := by
  have hn : s.nextFeatureWork = none := by
    simpa [nextFeatureWork, List.find?_eq_none] using h
  simp only [burnDownScope, hn]

theorem capacity_ne_zero : s.sprintCapacity ≠ 0 := by
  unfold sprintCapacity capacityFloor
  dsimp only
  split <;> omega

-- What the bugs are seated after.
def reservedScope (s : ProjectState) : List TicketId :=
  (s.tickets.find? readyFeature).toList.map (·.id) ++ s.burnDownScope

def seated (s : ProjectState) (floor : Option Priority) : List TicketId :=
  seatBugs floor (s.sprintCapacity - s.reservedScope.length) s.reservedScope s.tickets

theorem openBacklog_eq : s.openBacklog floor = s.seated floor ++
    ((s.tickets.filter (fillsSeat (s.seated floor))).take
      (s.sprintCapacity - (s.seated floor).length)).map (·.id) :=
  rfl

-- Which of the four sources a ticket of the backlog comes from.
inductive FromBacklog (s : ProjectState) (floor : Option Priority) (t : Ticket) : Prop
  | reserved (ready : readyFeature t)
  | burnDown (bug : t.kind = .bug) (isOpen : t.status = .open) (mem : t.id ∈ s.burnDownScope)
  | seated (burning : Burning floor t)
  | filled (feature : t.isFeature) (unshipped : t.status ∉ [.done, .documented, .rejected])

theorem mem_openBacklog (h : id ∈ s.openBacklog floor) :
    ∃ t ∈ s.tickets, t.id = id ∧ FromBacklog s floor t := by
  rw [openBacklog_eq, List.mem_append] at h
  cases h
  case inr h =>
    have ⟨t, hm, he⟩ := List.mem_map.mp h
    have ⟨ht, hp⟩ := List.mem_filter.mp (List.mem_of_mem_take hm)
    rw [fillsSeat, decide_eq_true_eq] at hp
    exact ⟨t, ht, he, .filled hp.1 hp.2.1⟩
  case inl h =>
    cases mem_seatBugs h
    case inr h =>
      have ⟨t, ht, he, hb⟩ := h
      exact ⟨t, ht, he, .seated hb⟩
    case inl h =>
      cases List.mem_append.mp h
      case inl h =>
        have ⟨t, hm, he⟩ := List.mem_map.mp h
        have hf := Option.mem_toList.mp hm
        exact ⟨t, List.mem_of_find?_eq_some hf, he, .reserved (List.find?_some hf)⟩
      case inr h =>
        have ⟨t, ht, he, hk, hs⟩ := mem_burnDownScope h
        exact ⟨t, ht, he, .burnDown hk hs (he ▸ h)⟩

theorem nodup_openBacklog (hu : (s.tickets.map (·.id)).Nodup) : (s.openBacklog floor).Nodup := by
  have hr : s.reservedScope.Nodup := by
    refine List.Nodup.append ?_ (hu.sublist burnDownScope_sublist) ?_
    · cases s.tickets.find? readyFeature <;> simp
    · -- The reserved seat is a feature's and the scope is of bugs.
      intro id hf hb
      obtain ⟨t, hm, he⟩ := List.mem_map.mp hf
      have hf := Option.mem_toList.mp hm
      obtain ⟨u, hu', he', hk, _⟩ := mem_burnDownScope hb
      have htu : t = u := eq_of_id hu (List.mem_of_find?_eq_some hf) hu' (he.trans he'.symm)
      have hp := List.find?_some hf
      simp [readyFeature, htu, hk] at hp
  rw [openBacklog_eq]
  refine List.Nodup.append (nodup_seatBugs hr) ?_ ?_
  · exact hu.sublist ((List.take_sublist _ _).trans List.filter_sublist |>.map _)
  · intro id hs hm
    obtain ⟨t, ht, he⟩ := List.mem_map.mp hm
    obtain ⟨_, hp⟩ := List.mem_filter.mp (List.mem_of_mem_take ht)
    rw [fillsSeat, decide_eq_true_eq] at hp
    exact hp.2.2 (he ▸ hs)

-- The backlog commits to nothing only when every feature has shipped or is rejected and no open bug
-- burns.
theorem openBacklog_eq_nil : s.openBacklog floor = [] ↔
    (∀ t ∈ s.tickets, t.isFeature → t.status ∈ [.done, .documented, .rejected]) ∧
    ∀ t ∈ s.tickets, ¬Burning floor t := by
  constructor
  case mp =>
    intro h
    rw [openBacklog_eq, List.append_eq_nil_iff] at h
    have ⟨hs, hf⟩ := h
    have hr : s.reservedScope = [] := List.prefix_nil.mp (hs ▸ prefix_seatBugs)
    rw [hs, List.map_eq_nil_iff, List.take_eq_nil_iff, List.filter_eq_nil_iff] at hf
    refine ⟨fun t ht hk => ?_, ?_⟩
    · have := hf.resolve_left capacity_ne_zero t ht
      by_contra hn
      exact this (by simp [fillsSeat, hk, hn])
    · rw [seated, hr] at hs
      exact (seatBugs_eq_nil capacity_ne_zero).mp hs
  case mpr =>
    intro ⟨hf, hb⟩
    have hr : s.reservedScope = [] := by
      refine List.append_eq_nil_iff.mpr ⟨?_, burnDownScope_eq_nil fun t ht hk hs => ?_⟩
      · have hn : s.tickets.find? readyFeature = none := by
          rw [List.find?_eq_none]
          intro t ht hp
          have hp : (t.kind = .feature ∨ t.kind = .chore) ∧ t.status = .ready := by
            simpa [readyFeature] using hp
          have := hf t ht (by simpa [Ticket.isFeature] using hp.1)
          simp [hp.2] at this
        rw [hn]
        rfl
      · have := hf t ht hk
        cases hst : t.status <;> simp_all
    have hs : s.seated floor = [] := by
      rw [seated, hr]
      exact (seatBugs_eq_nil capacity_ne_zero).mpr hb
    rw [openBacklog_eq, hs, List.nil_append, List.map_eq_nil_iff, List.take_eq_nil_iff,
      List.filter_eq_nil_iff]
    refine .inr fun t ht hp => ?_
    rw [fillsSeat, decide_eq_true_eq] at hp
    exact hp.2.1 (hf t ht hp.1)

end Backlog

section Modify

variable {f : List TicketId → List TicketId}

@[simp]
theorem tickets_modifyCommitted : (s.modifyCommitted f).tickets = s.tickets :=
  rfl

@[simp]
theorem ticket_modifyCommitted : (s.modifyCommitted f).ticket id = s.ticket id :=
  rfl

@[simp]
theorem activeBugBurnFloor_modifyCommitted :
    (s.modifyCommitted f).activeBugBurnFloor = s.activeBugBurnFloor := by
  unfold activeBugBurnFloor modifyCommitted
  cases s.sprint <;> rfl

theorem committed_modifyCommitted (h : s.sprint.isSome) :
    (s.modifyCommitted f).committed = f s.committed := by
  unfold committed modifyCommitted
  cases hs : s.sprint
  case none => simp [hs] at h
  case some => rfl

@[simp]
theorem sprint_modifyCommitted : (s.modifyCommitted f).sprint.isSome = s.sprint.isSome := by
  simp [modifyCommitted]

theorem modifyCommitted_eq_self (h : f s.committed = s.committed) : s.modifyCommitted f = s := by
  cases hs : s.sprint
  case none =>
    have : s.sprint.map (fun sprint : Sprint => { sprint with committed := f sprint.committed }) = s.sprint := by
      rw [hs]
      rfl
    rw [modifyCommitted, this]
  case some sprint =>
    have hc : f sprint.committed = sprint.committed := by simpa [committed, hs] using h
    have : s.sprint.map (fun sprint : Sprint => { sprint with committed := f sprint.committed }) = s.sprint := by
      rw [hs, Option.map_some, hc]
    rw [modifyCommitted, this]

end Modify

section TopUp

variable {l : Letters} {sprint : Sprint}

theorem ranked_perm :
    (s.ranked l sprint).Perm ((s.tickets.filter sprint.eligible).map (·.id)) := by
  have h := (List.perm_insertionSort (rankedBefore · ·)
    ((s.tickets.filter sprint.eligible).map (s.rank l))).map (·.2.2)
  rw [List.map_map] at h
  exact h

end TopUp

end ProjectState
