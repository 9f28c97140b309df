import CoxAgent.Sprint.Theorems.Refill
import Mathlib.Data.String.Basic

namespace ProjectState

variable {s : ProjectState} {sprint : Sprint} {l : Letters} {floor : Nat} {t u : Ticket}

-- The tickets on the board that the scheduler would hand out.
def handedOut (s : ProjectState) : List Ticket :=
  s.tickets.filter (·.id ∈ s.workable)

-- A bug that the burn leaves for later.
def belowFloor (s : ProjectState) (t : Ticket) : Bool :=
  t.kind = .bug ∧ belowBugBurnFloor s.activeBugBurnFloor t.priority

-- What the top-up is for: as much work in the scope as is asked for, or all there is, and no bug that
-- the burn leaves for later.
structure ToppedUp (s s' : ProjectState) (floor : Nat) : Prop where
  fed    : min floor s'.handedOut.length ≤ s'.handedOut.countP (·.id ∈ s'.committed)
  severe : ∀ t ∈ s.tickets, s.belowFloor t → t.id ∈ s'.committed → t.id ∈ s.committed

-- The work that comes before a ticket.
def ahead (s : ProjectState) (l : Letters) (sprint : Sprint) (t : Ticket) : Nat :=
  s.tickets.countP fun u => sprint.eligible u ∧ rankedBefore (s.rank l u) (s.rank l t) ∧ u.id ≠ t.id

-- Uncommitted work takes a seat as long as one is free.
def takesSeat (s : ProjectState) (l : Letters) (sprint : Sprint) (floor : Nat) (t : Ticket) : Bool :=
  sprint.eligible t ∧ s.actionable sprint.committed + s.ahead l sprint t < floor

def holdsSeat (s : ProjectState) (l : Letters) (sprint : Sprint) (floor : Nat) (t : Ticket) : Bool :=
  t.id ∈ sprint.committed ∧ t.status ∈ [.ready, .open] ∨ s.takesSeat l sprint floor t

-- On its seat it waits for other tickets, it is left for later, or it is in no queue.
def waits (s : ProjectState) (t : Ticket) : Bool :=
  s.belowFloor t ∨ t.kind ≠ .bug ∧ (t.status = .open ∨ ¬s.depsSatisfied t)

-- A bug that was split off is handed out without a seat.
def splitOff (s : ProjectState) (t : Ticket) : Bool :=
  t.kind = .bug ∧ t.status = .pending ∧ ¬s.belowFloor t

-- Nothing that could be handed out is left outside, or the seats are enough even though some only
-- wait, and nobody on a new seat is left for later.
structure Supplied (s : ProjectState) (l : Letters) (sprint : Sprint) (floor : Nat) : Prop where
  seats  : (∀ t ∈ s.tickets, t.id ∉ sprint.committed →
        ¬s.splitOff t ∧ (sprint.eligible t → ¬s.waits t → s.takesSeat l sprint floor t)) ∨
      floor + s.tickets.countP (fun t => s.holdsSeat l sprint floor t ∧ s.waits t) ≤
        s.tickets.countP (s.holdsSeat l sprint floor) +
        s.tickets.countP (fun t => t.id ∈ sprint.committed ∧ s.splitOff t)
  severe : ∀ t ∈ s.tickets, s.takesSeat l sprint floor t → ¬s.belowFloor t

section Rank

variable {a b c : Nat × Nat × TicketId}

theorem rankedBefore_iff : rankedBefore a b ↔ a.1 < b.1 ∨
    a.1 = b.1 ∧ (a.2.1 < b.2.1 ∨ a.2.1 = b.2.1 ∧ a.2.2.asStr ≤ b.2.2.asStr) := by
  simp [rankedBefore]

theorem rankedBefore_total (a b) : rankedBefore a b ∨ rankedBefore b a := by
  have := le_total a.2.2.asStr b.2.2.asStr
  simp only [rankedBefore_iff]
  grind

theorem rankedBefore_trans (hab : rankedBefore a b) (hbc : rankedBefore b c) : rankedBefore a c := by
  rw [rankedBefore_iff] at *
  have ht := @le_trans _ _ a.2.2.asStr b.2.2.asStr c.2.2.asStr
  grind

theorem rankedBefore_antisymm (hab : rankedBefore a b) (hba : rankedBefore b a) : a = b := by
  rw [rankedBefore_iff] at *
  have ht := @le_antisymm _ _ a.2.2.asStr b.2.2.asStr
  have ⟨a₁, a₂, ⟨a₃⟩⟩ := a
  have ⟨b₁, b₂, ⟨b₃⟩⟩ := b
  grind

instance : @Std.Total (Nat × Nat × TicketId) (rankedBefore · ·) := ⟨rankedBefore_total⟩

instance : IsTrans (Nat × Nat × TicketId) (rankedBefore · ·) := ⟨fun _ _ _ => rankedBefore_trans⟩

end Rank

section Picks

variable (hu : (s.tickets.map (·.id)).Nodup)

-- The eligible work in its order, with what it is ordered by.
def keys (s : ProjectState) (l : Letters) (sprint : Sprint) : List (Nat × Nat × TicketId) :=
  (s.tickets.filter sprint.eligible).map (s.rank l) |>.insertionSort (rankedBefore · ·)

theorem keys_perm : (s.keys l sprint).Perm ((s.tickets.filter sprint.eligible).map (s.rank l)) :=
  List.perm_insertionSort _ _

theorem pairwise_keys : (s.keys l sprint).Pairwise (rankedBefore · ·) :=
  List.pairwise_insertionSort _ _

include hu

theorem eq_of_rank (ht : t ∈ s.tickets) (hm : u ∈ s.tickets) (h : s.rank l t = s.rank l u) : t = u :=
  List.inj_on_of_nodup_map hu ht hm (congrArg (fun k : Nat × Nat × TicketId => k.2.2) h)

theorem mem_keys (ht : t ∈ s.tickets) : s.rank l t ∈ s.keys l sprint ↔ sprint.eligible t := by
  rw [keys_perm.mem_iff, List.mem_map]
  constructor
  case mp =>
    intro ⟨u, hm, he⟩
    have ⟨hm, hp⟩ := List.mem_filter.mp hm
    exact eq_of_rank hu hm ht he ▸ hp
  case mpr => exact fun hp => ⟨t, List.mem_filter.mpr ⟨ht, hp⟩, rfl⟩

theorem nodup_keys : (s.keys l sprint).Nodup := by
  rw [keys_perm.nodup_iff]
  apply List.Nodup.of_map (·.2.2)
  rw [List.map_map]
  exact hu.sublist (List.filter_sublist.map _)

theorem ahead_eq (ht : t ∈ s.tickets) : s.ahead l sprint t =
    (s.keys l sprint).countP fun k => rankedBefore k (s.rank l t) ∧ k ≠ s.rank l t := by
  rw [keys_perm.countP_eq, List.countP_map, List.countP_filter, ahead]
  refine List.countP_congr fun u hm => ?_
  have he : s.rank l u = s.rank l t ↔ u.id = t.id :=
    ⟨congrArg (fun k : Nat × Nat × TicketId => k.2.2), fun h => by
      rw [List.inj_on_of_nodup_map hu hm ht h]⟩
  simp only [decide_eq_true_eq, Function.comp_apply, Bool.and_eq_true, ne_eq, he]
  tauto

-- A ticket is picked if there are still picks left when its turn comes.
theorem mem_take_ranked {n : Nat} (ht : t ∈ s.tickets) :
    t.id ∈ (s.ranked l sprint).take n ↔ sprint.eligible t ∧ s.ahead l sprint t < n := by
  have hm : t.id ∈ (s.ranked l sprint).take n ↔ s.rank l t ∈ (s.keys l sprint).take n := by
    change _ ∈ ((s.keys l sprint).map (·.2.2)).take n ↔ _
    rw [← List.map_take, List.mem_map]
    constructor
    case mpr => exact fun h => ⟨_, h, rfl⟩
    case mp =>
      intro ⟨k, hk, he⟩
      have ⟨u, hm, hr⟩ := List.mem_map.mp (keys_perm.mem_iff.mp (List.mem_of_mem_take hk))
      subst hr
      exact List.inj_on_of_nodup_map hu (List.mem_of_mem_filter hm) ht he ▸ hk
  rw [hm]
  by_cases hp : s.rank l t ∈ s.keys l sprint
  case neg =>
    exact iff_of_false (fun h => hp (List.mem_of_mem_take h)) fun h => hp ((mem_keys hu ht).mpr h.1)
  case pos =>
    rw [Lists.mem_take_iff pairwise_keys (nodup_keys hu) (fun _ => rankedBefore_antisymm) hp, ahead_eq hu ht, and_iff_right ((mem_keys hu ht).mp hp)]

end Picks

section Seats

variable (hs : s.sprint = some sprint)
include hs

theorem belowFloor_eq : s.belowFloor t =
    decide (t.kind = .bug ∧ belowBugBurnFloor sprint.bugBurnFloor t.priority) := by
  simp [belowFloor, activeBugBurnFloor, hs]

theorem committed_eq : s.committed = sprint.committed := by
  rw [committed, hs]
  rfl

-- The scope after the top-up: it is what was in it, and who takes a seat.
theorem mem_committed_topUpScope (hu : (s.tickets.map (·.id)).Nodup) (ht : t ∈ s.tickets) :
    t.id ∈ (s.topUpScope l floor).2.committed ↔
      t.id ∈ sprint.committed ∨ s.takesSeat l sprint floor t := by
  let scope := { sprint with committed := Lists.retainNew sprint.committed }
  have hr : (s.modifyCommitted Lists.retainNew).sprint = some scope := by
    rw [modifyCommitted, hs]
    rfl
  have ha : (s.modifyCommitted Lists.retainNew).actionable scope.committed =
      s.actionable sprint.committed := by
    simp [actionable, scope]
  have he : scope.eligible = sprint.eligible := by
    funext u
    simp [Sprint.eligible, scope]
  have hk : (s.modifyCommitted Lists.retainNew).ranked l scope = s.ranked l sprint := by
    rw [ranked, ranked, he]
    rfl
  simp only [topUpScope, hr, ha, hk]
  split
  case isTrue hf =>
    rw [committed_eq hr, Lists.mem_retainNew]
    refine ⟨.inl, fun h => h.elim id fun h => ?_⟩
    simp only [takesSeat, decide_eq_true_eq] at h
    omega
  case isFalse hf =>
    rw [committed_modifyCommitted (by simp [hr]), committed_eq hr, List.mem_append, Lists.mem_retainNew,
      mem_take_ranked hu ht]
    simp only [takesSeat, decide_eq_true_eq, Nat.lt_sub_iff_add_lt']

end Seats

section Work

theorem takes_iff_not_waits (h : t.status ∈ [.ready, .open]) : s.Takes t ↔ ¬s.waits t := by
  simp only [List.mem_cons, List.not_mem_nil, or_false] at h
  simp only [Takes, waits, belowFloor, readyFeature, openBug, List.mem_cons, List.not_mem_nil,
    decide_eq_true_eq, or_false]
  cases hk : t.kind <;> cases h <;> simp [*]

theorem takes_iff_splitOff (h : t.status ∉ [.ready, .open]) : s.Takes t ↔ s.splitOff t := by
  simp only [List.mem_cons, List.not_mem_nil, or_false, not_or] at h
  simp only [Takes, splitOff, belowFloor, readyFeature, openBug, List.mem_cons, List.not_mem_nil,
    decide_eq_true_eq, or_false, h]
  simp only [and_false, false_and, false_or]
  tauto

theorem status_of_eligible (h : sprint.eligible t) :
    t.id ∉ sprint.committed ∧ t.status ∈ [.ready, .open] := by
  simp only [Sprint.eligible, decide_eq_true_eq] at h
  exact ⟨h.1, by simp; tauto⟩

theorem eligible_of_takesSeat (h : s.takesSeat l sprint floor t) : sprint.eligible t := by
  rw [takesSeat, decide_eq_true_eq] at h
  exact h.1

theorem not_splitOff (h : t.status ∈ [.ready, .open]) : ¬s.splitOff t := by
  rw [splitOff, decide_eq_true_eq]
  intro hp
  simp [hp.2.1] at h

theorem mem_workable_iff (hu : (s.tickets.map (·.id)).Nodup) (ht : t ∈ s.tickets) :
    t.id ∈ s.workable ↔ s.Takes t := by
  rw [mem_workable]
  constructor
  case mp =>
    intro ⟨u, hm, he, hp⟩
    exact List.inj_on_of_nodup_map hu hm ht he ▸ hp
  case mpr => exact fun hp => ⟨t, ht, rfl, hp⟩

-- What is handed out and not committed has either no seat to take or is left without one.
theorem eligible_of_takes (hs : s.sprint = some sprint) (hc : t.id ∉ sprint.committed) (h : s.Takes t)
    (hst : t.status ∈ [.ready, .open]) : sprint.eligible t := by
  have hw := (takes_iff_not_waits hst).mp h
  simp only [List.mem_cons, List.not_mem_nil, or_false] at hst
  simp only [waits, belowFloor_eq hs, decide_eq_true_eq] at hw
  simp only [Sprint.eligible, decide_eq_true_eq]
  refine ⟨hc, hst.imp_right fun ho => ⟨ho, fun hb => hw ?_⟩⟩
  by_cases hk : t.kind = .bug
  case pos => exact .inl ⟨hk, hb⟩
  case neg => exact .inr ⟨hk, .inl ho⟩

theorem handedOut_topUpScope : (s.topUpScope l floor).2.handedOut = s.handedOut := by
  unfold topUpScope
  dsimp only
  split
  case h_1 => simp [handedOut, mem_workable_modifyCommitted]
  case h_2 => split <;> simp [handedOut, mem_workable_modifyCommitted]

variable (hu : (s.tickets.map (·.id)).Nodup) (hs : s.sprint = some sprint)
include hu hs

theorem count_handedOut :
    s.handedOut.countP (·.id ∈ (s.topUpScope l floor).2.committed) +
      s.tickets.countP (fun t => s.holdsSeat l sprint floor t ∧ s.waits t) =
    s.tickets.countP (s.holdsSeat l sprint floor) +
      s.tickets.countP (fun t => t.id ∈ sprint.committed ∧ s.splitOff t) := by
  rw [handedOut, List.countP_filter]
  refine Lists.countP_add_countP fun t ht => ?_
  have hm := @mem_committed_topUpScope s sprint l floor t hs hu ht
  have hw := mem_workable_iff hu ht
  by_cases hst : t.status ∈ [.ready, .open]
  case pos =>
    have hn : ¬s.splitOff t := not_splitOff hst
    rw [takes_iff_not_waits hst] at hw
    simp only [holdsSeat, hst, hm, hw]
    by_cases hc : t.id ∈ sprint.committed ∨ s.takesSeat l sprint floor t <;> by_cases hp : s.waits t <;>
      simp [*]
  case neg =>
    have hn : ¬s.takesSeat l sprint floor t := fun h => hst (status_of_eligible (eligible_of_takesSeat h)).2
    rw [takes_iff_splitOff hst] at hw
    simp only [holdsSeat, hst, hm, hw, hn]
    by_cases hc : t.id ∈ sprint.committed <;> by_cases hp : s.splitOff t <;> simp [*]

theorem handedOut_subset_iff : (∀ t ∈ s.handedOut, t.id ∈ (s.topUpScope l floor).2.committed) ↔
    ∀ t ∈ s.tickets, t.id ∉ sprint.committed →
      ¬s.splitOff t ∧ (sprint.eligible t → ¬s.waits t → s.takesSeat l sprint floor t) := by
  simp only [handedOut, List.mem_filter, decide_eq_true_eq, and_imp]
  refine forall₂_congr fun t ht => ?_
  rw [mem_workable_iff hu ht, mem_committed_topUpScope hs hu ht, or_iff_not_imp_left]
  by_cases hst : t.status ∈ [.ready, .open]
  case pos =>
    have hn : ¬s.splitOff t := not_splitOff hst
    constructor
    case mp => exact fun h hc => ⟨hn, fun _ hw => h ((takes_iff_not_waits hst).mpr hw) hc⟩
    case mpr =>
      intro h hp hc
      exact (h hc).2 (eligible_of_takes hs hc hp hst) ((takes_iff_not_waits hst).mp hp)
  case neg =>
    have hn : ¬sprint.eligible t := fun h => hst (status_of_eligible h).2
    have hk : ¬s.takesSeat l sprint floor t := fun h => hn (eligible_of_takesSeat h)
    rw [takes_iff_splitOff hst]
    simp only [hn, hk]
    tauto

-- The top-up does what it is for if and only if the seats it counts can be worked on.
theorem toppedUp_iff : s.ToppedUp (s.topUpScope l floor).2 floor ↔ s.Supplied l sprint floor := by
  have hc := @count_handedOut s sprint l floor hu hs
  have hf : min floor s.handedOut.length ≤
        s.handedOut.countP (·.id ∈ (s.topUpScope l floor).2.committed) ↔
      (∀ t ∈ s.handedOut, t.id ∈ (s.topUpScope l floor).2.committed) ∨
      floor + s.tickets.countP (fun t => s.holdsSeat l sprint floor t ∧ s.waits t) ≤
        s.tickets.countP (s.holdsSeat l sprint floor) +
        s.tickets.countP (fun t => t.id ∈ sprint.committed ∧ s.splitOff t) := by
    have ha : (∀ t ∈ s.handedOut, t.id ∈ (s.topUpScope l floor).2.committed) ↔
        s.handedOut.countP (·.id ∈ (s.topUpScope l floor).2.committed) = s.handedOut.length := by
      simp [List.countP_eq_length]
    have hl : s.handedOut.countP (·.id ∈ (s.topUpScope l floor).2.committed) ≤ s.handedOut.length :=
      List.countP_le_length
    rw [ha]
    omega
  have hb : (∀ t ∈ s.tickets,
        s.belowFloor t → t.id ∈ (s.topUpScope l floor).2.committed → t.id ∈ s.committed) ↔
      ∀ t ∈ s.tickets, s.takesSeat l sprint floor t → ¬s.belowFloor t := by
    refine forall₂_congr fun t ht => ?_
    rw [mem_committed_topUpScope hs hu ht, committed_eq hs]
    have hn : s.takesSeat l sprint floor t → t.id ∉ sprint.committed :=
      fun h => (status_of_eligible (eligible_of_takesSeat h)).1
    tauto
  rw [handedOut_subset_iff hu hs] at hf
  rw [← handedOut_topUpScope] at hf
  exact ⟨fun h => ⟨hf.mp h.fed, hb.mp h.severe⟩, fun h => ⟨hf.mpr h.seats, hb.mpr h.severe⟩⟩

end Work

-- Two boards on which one ticket is asked for. The better one waits for another, or is a minor bug
-- that has been designed.
def latin : Letters :=
  ⟨.ascii, Char.isAlphanum⟩

def emptySprint (bugBurnFloor : Option Priority) : Sprint :=
  { number := 1, goal := "g", startedCycle := 0, lengthCycles := 10, committed := [], bugBurnFloor }

def blockedFirst : ProjectState where
  tickets := [
    { id := ⟨"F1"⟩, kind := .feature, title := "a", status := .ready, priority := .high,
      dependsOn := [⟨"F2"⟩] },
    { id := ⟨"F2"⟩, kind := .feature, title := "b", status := .pending },
    { id := ⟨"F3"⟩, kind := .feature, title := "c", status := .ready, priority := .low } ]
  sprint  := some (emptySprint none)

def designedBug : ProjectState where
  tickets := [
    { id := ⟨"B1"⟩, kind := .bug, title := "a", status := .ready, priority := .low } ]
  sprint  := some (emptySprint (some .high))

theorem not_toppedUp_blockedFirst :
    ¬blockedFirst.ToppedUp (blockedFirst.topUpScope latin 1).2 1 ∧
    ¬designedBug.ToppedUp (designedBug.topUpScope latin 1).2 1 := by
  constructor
  · exact fun h => absurd h.fed (by decide +kernel)
  · exact fun h => absurd (h.severe _ List.mem_cons_self (by decide +kernel)) (by decide +kernel)

def unblocked : ProjectState :=
  { blockedFirst with tickets := blockedFirst.tickets.drop 1 }

theorem toppedUp_iff_unblocked : unblocked.ToppedUp (unblocked.topUpScope latin 1).2 1 := by
  refine (toppedUp_iff (by decide +kernel) rfl).mpr ⟨.inr (by decide +kernel), ?_⟩
  decide +kernel

end ProjectState
