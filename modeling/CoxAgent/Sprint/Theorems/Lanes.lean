import CoxAgent.Lib.Lists
import CoxAgent.Sprint.Rescue
import CoxAgent.Sprint.Theorems.Resume

namespace ProjectState

variable {s : ProjectState} {id : TicketId} {now at' : String} {t : Ticket}

section Parked

variable {p : ProjectState × List TicketId} {id' : TicketId}

-- A ticket that the sweep has parked is on hold, for the sweep's own reason.
def Parked (s : ProjectState) (id : TicketId) : Prop :=
  s.OnHold id ∧ s.holdReasons.get? id.asStr = some autoHoldReason

theorem onHold_tryMove (h : (s.ticket id).any fun t => (t.transitionTo .system .onHold).toOption.isSome) :
    (s.tryMove id .system .onHold).OnHold id := by
  cases ht : s.ticket id
  case none   => simp [ht] at h
  case some t =>
    cases hm : t.transitionTo .system .onHold
    case error => simp [ht, hm, Except.toOption] at h
    case ok t' =>
      refine ⟨t', by rw [ticket_tryMove, if_pos rfl, ht, Option.map_some, Ticket.tryTo_of_ok hm], ?_⟩
      rw [(Ticket.transitionTo_ok hm).right, Ticket.enter_status]

theorem parked_autoHold (hp : ∀ held ∈ p.2, p.1.Parked held) :
    ∀ held ∈ (autoHold now p id').2, (autoHold now p id').1.Parked held := by
  have hpark := (@parking_autoHold now p id').left
  unfold autoHold at hpark ⊢
  dsimp only at hpark ⊢
  split
  case isFalse   => exact hp
  case isTrue ho =>
    rw [if_pos ho] at hpark
    intro held hh
    cases List.mem_append.mp hh
    case inl hh =>
      refine ⟨hpark.onHold held (hp held hh).left, ?_⟩
      change (p.1.holdReasons.insert id'.asStr autoHoldReason).get? held.asStr = _
      rw [BTreeMap.get?_insert, (hp held hh).right, ite_self]
    case inr hh =>
      cases List.mem_singleton.mp hh
      refine ⟨onHold_tryMove ho, ?_⟩
      change (p.1.holdReasons.insert id'.asStr autoHoldReason).get? id'.asStr = _
      rw [BTreeMap.get?_insert, if_pos rfl]

theorem parked_of_held (h : id ∈ (s.autoHoldExhausted now).2) : (s.autoHoldExhausted now).1.Parked id := by
  have hfold {ids : List TicketId} {p : ProjectState × List TicketId} (hp : ∀ held ∈ p.2, p.1.Parked held) :
      ∀ held ∈ (ids.foldl (autoHold now) p).2, (ids.foldl (autoHold now) p).1.Parked held := by
    induction ids generalizing p
    case nil            => exact hp
    case cons id ids hi => exact hi (parked_autoHold hp)
  exact hfold (p := (s, [])) (by simp) id h

end Parked

section Functions

theorem mem_keys_of_unparks (h : s.unparks id) : id.asStr ∈ s.ticketFailAttempts.keys := by
  simp only [unparks, decide_eq_true_eq] at h
  cases hn : s.ticketFailAttempts.get? id.asStr
  case none   => simp [hn] at h
  case some n => exact List.mem_map_of_mem (BTreeMap.get?_eq_some.mp hn)

-- The ladder takes the first ticket on the board, in the order of the ids, that passes its filter.
theorem smUnparkTickets_eq_some {title : String} : s.smUnparkTickets = some (id, title) ↔
    (∃ t, s.ticket id = some t ∧ t.title = title) ∧ s.unparks id ∧
      ∀ id' : TicketId, id'.asStr < id.asStr → (s.ticket id').isSome → ¬s.unparks id' := by
  have hs : (s.ticketFailAttempts.keys.filter (s.unparks ⟨·⟩)).Pairwise (· < ·) :=
    (List.pairwise_map.mpr s.ticketFailAttempts.sorted).filter _
  rw [smUnparkTickets, Lists.head?_filterMap hs]
  simp only [List.mem_filter, Option.map_eq_some_iff, Option.map_eq_none_iff, Prod.mk.injEq]
  constructor
  case mp =>
    rintro ⟨a, ⟨-, hu⟩, ⟨t, ht, rfl, rfl⟩, hn⟩
    rw [(ticket_mem ht).right]
    refine ⟨⟨t, ht, rfl⟩, hu, fun id' hlt hi hu' => ?_⟩
    have := hn id'.asStr ⟨mem_keys_of_unparks hu', hu'⟩ hlt
    simp [this] at hi
  case mpr =>
    rintro ⟨⟨t, ht, rfl⟩, hu, hn⟩
    refine ⟨id.asStr, ⟨mem_keys_of_unparks hu, hu⟩, ⟨t, ht, (ticket_mem ht).right, rfl⟩, fun a' ha' hlt => ?_⟩
    by_contra hc
    exact hn ⟨a'⟩ hlt (Option.isSome_iff_ne_none.mpr hc) ha'.right

-- The daily recovery resumes the tickets whose snapshots are eligible.
theorem take_dailyRecoveryPlan (candidates : List RecoverySnapshot) :
    (dailyRecoveryPlan candidates at').verdicts.take (dailyRecoveryPlan candidates at').eligible =
      (candidates.map (·.recoveryEligibility at')).filter (·.eligible) := by
  rw [dailyRecoveryPlan, List.partition_eq_filter_filter]
  exact List.take_left'  rfl

end Functions

-- The ladder takes the ticket, or the daily recovery resumes it, and not both.
def InOneLane (s : ProjectState) (at' : String) (t : Ticket) : Prop :=
  Xor (s.unparks t.id) ((s.snapshot false t).recoveryEligibility at').eligible

-- A bug that the sweep has parked, with a failure that counts.
structure ParkedBug (s : ProjectState) (t : Ticket) : Prop where
  found   : s.ticket t.id = some t
  bug     : t.kind = .bug
  parked  : s.Parked t.id
  counted : 0 < (s.snapshot false t).countedFailures

-- The sweep's own reason counts as that of a person, so the daily recovery never resumes what is parked.
theorem not_eligible_of_parked (h : s.Parked t.id) :
    ((s.snapshot false t).recoveryEligibility at').eligible = false := by
  have hr : (s.snapshot false t).holdReason = some autoHoldReason := h.right
  unfold RecoverySnapshot.recoveryEligibility RecoverySnapshot.block
  rw [hr]
  split <;> rfl

theorem inOneLane_iff (h : s.ParkedBug t) :
    s.InOneLane at' t ↔ 3 ≤ s.failAttempts t.id ∧
      (s.redesigns t.id < 2 ∨
        (2 ≤ (s.attemptFailures t.id).countP (Text.contains ·.detail capDetail) ∧ s.redesigns t.id < 7)) := by
  have ha : (s.ticketFailAttempts.get? t.id.asStr).any (3 ≤ ·) ↔ 3 ≤ s.failAttempts t.id := by
    unfold failAttempts
    cases s.ticketFailAttempts.get? t.id.asStr <;> simp
  unfold InOneLane
  rw [not_eligible_of_parked h.parked, xor_def]
  simp [unparks, ha, maxTicketRescues]

-- A bug that has failed three times after all its rescues.
def spentBug : ProjectState where
  tickets            := [{ id := ⟨"CX-B001"⟩, kind := .bug, title := "crash", status := .open }]
  ticketFailAttempts := .single "CX-B001" 3
  ticketRedesigns    := .single "CX-B001" 7
  ticketFailures     := .single "CX-B001" [{ attempt := 1, layer := .gate, gate := "clippy", detail := "lint" }]

theorem inOneLane_iff_spentBug :
    let s := (spentBug.autoHoldExhausted "09:00").1
    let t : Ticket := { id := ⟨"CX-B001"⟩, kind := .bug, title := "crash", status := .onHold }
    s.InOneLane "10:00" t ↔ 3 ≤ s.failAttempts t.id ∧
      (s.redesigns t.id < 2 ∨
        (2 ≤ (s.attemptFailures t.id).countP (Text.contains ·.detail capDetail) ∧ s.redesigns t.id < 7)) :=
  inOneLane_iff ⟨by decide, rfl, parked_of_held (by decide), by decide⟩

theorem not_inOneLane :
    let s := (spentBug.autoHoldExhausted "09:00").1
    let t : Ticket := { id := ⟨"CX-B001"⟩, kind := .bug, title := "crash", status := .onHold }
    s.ParkedBug t ∧ ¬s.InOneLane "10:00" t := by
  intro s t
  have hp : s.ParkedBug t := ⟨by decide, rfl, parked_of_held (by decide), by decide⟩
  refine ⟨hp, ?_⟩
  unfold InOneLane
  rw [not_eligible_of_parked hp.parked, xor_def]
  decide

end ProjectState
