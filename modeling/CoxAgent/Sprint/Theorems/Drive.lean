import CoxAgent.Sprint.Drive

namespace Ticket

variable {t : Ticket} {actor : Role} {dst : Status}

theorem tryTo_of_ok {t' : Ticket} (h : t.transitionTo actor dst = .ok t') : t.tryTo actor dst = t' := by
  rw [tryTo, h]
  rfl

theorem tryTo_of_error {e : DomainError} (h : t.transitionTo actor dst = .error e) :
    t.tryTo actor dst = t := by
  rw [tryTo, h]
  rfl

-- A transition enters its status or nothing happens.
theorem tryTo_cases : t.tryTo actor dst = t ∨ t.tryTo actor dst = t.enter dst := by
  unfold tryTo transitionTo
  cases t.checkTransition actor dst
  case error => exact .inl rfl
  case ok    => exact .inr rfl

@[simp]
theorem tryTo_id : (t.tryTo actor dst).id = t.id := by
  cases t.tryTo_cases
  case inl h => rw [h]
  case inr h => rw [h, (t.enter_preserves dst).left]

@[simp]
theorem enter_status : (t.enter dst).status = dst := by
  unfold enter
  split <;> rfl

@[simp]
theorem enter_kind : (t.enter dst).kind = t.kind := by
  unfold enter
  split <;> rfl

end Ticket

namespace ProjectState

variable {s : ProjectState} {id : TicketId} {actor : Role} {dst : Status}

theorem ticket_tryMove {id' : TicketId} :
    (s.tryMove id actor dst).ticket id' =
      if id' = id then (s.ticket id').map (·.tryTo actor dst) else s.ticket id' :=
  ticket_modifyTicket fun _ => Ticket.tryTo_id

theorem ids_tryMove : (s.tryMove id actor dst).tickets.map (·.id) = s.tickets.map (·.id) :=
  modifyTicket_ids fun _ => Ticket.tryTo_id

theorem ids_foldl_tryMove {ids : List TicketId} :
    (ids.foldl (·.tryMove · actor dst) s).tickets.map (·.id) = s.tickets.map (·.id) := by
  induction ids generalizing s
  case nil           => rfl
  case cons id ids hi => rw [List.foldl_cons, hi, ids_tryMove]

-- A loop of moves moves the tickets that it names.
theorem ticket_foldl_tryMove {ids : List TicketId} (hn : ids.Nodup) :
    (ids.foldl (·.tryMove · actor dst) s).ticket id =
      if id ∈ ids then (s.ticket id).map (·.tryTo actor dst) else s.ticket id := by
  induction ids generalizing s
  case nil => simp
  case cons id' ids hi =>
    obtain ⟨hni, hn⟩ := List.nodup_cons.mp hn
    rw [List.foldl_cons, hi hn, ticket_tryMove]
    by_cases h : id = id'
    case pos => simp [h, hni]
    case neg => simp [h]

section Unique

variable {t : Ticket} {p : Ticket → Bool} (hn : (s.tickets.map (·.id)).Nodup)

include hn

theorem nodup_filter_ids : ((s.tickets.filter p).map (·.id)).Nodup :=
  hn.sublist (List.filter_sublist.map _)

-- Where an id names one ticket the lists of ids say which tickets are meant.
theorem mem_filter_ids (ht : s.ticket id = some t) : id ∈ (s.tickets.filter p).map (·.id) ↔ p t := by
  obtain ⟨hm, rfl⟩ := ticket_mem ht
  rw [List.mem_map]
  constructor
  case mp  =>
    rintro ⟨t', ht', he⟩
    have h : t' = t := List.inj_on_of_nodup_map hn (List.mem_filter.mp ht').left hm he
    exact h ▸ (List.mem_filter.mp ht').right
  case mpr =>
    intro hp
    exact ⟨t, List.mem_filter.mpr ⟨hm, hp⟩, rfl⟩

end Unique

theorem tickets_noticeArrested {e : EditIo} : (s.noticeArrested e).tickets = s.tickets := by
  unfold noticeArrested
  dsimp only
  split
  case isTrue  => exact postChatIn_tickets ..
  case isFalse => rfl

theorem failAttempts_foldl_tryMove {ids : List TicketId} {id' : TicketId} :
    (ids.foldl (·.tryMove · actor dst) s).failAttempts id' = s.failAttempts id' ∧
      (ids.foldl (·.tryMove · actor dst) s).redesigns id' = s.redesigns id' := by
  induction ids generalizing s
  case nil           => exact ⟨rfl, rfl⟩
  case cons id ids hi => exact hi

end ProjectState

namespace Ticket

variable {t : Ticket} {live : List TicketId}

theorem setPriority_high : (t.setPriority .po .high).toOption.getD t = { t with priority := .high } :=
  rfl

theorem resume_bug (hk : t.kind = .bug) (hs : t.status = .onHold) : t.tryTo .sm .pending = t := by
  simp [tryTo, transitionTo, checkTransition, transitionAllowed, hk, hs, Except.toOption]

theorem resume_native (hk : t.kind ≠ .bug) (hs : t.status = .onHold) :
    t.tryTo .sm .pending = t.enter .pending := by
  cases hk' : t.kind <;>
    simp_all [tryTo, transitionTo, checkTransition, transitionAllowed, canTransition, Except.toOption]

theorem driven_spec :
    (t.driven live).id = t.id ∧ (t.driven live).kind = t.kind ∧
      ((t.driven live).status = .onHold ↔ t.status = .onHold ∧ (t.id ∈ live ∨ t.kind = .bug)) := by
  unfold driven
  by_cases hs : t.status = .onHold
  case neg =>
    simp only [hs, false_and, if_false]
    split
    case isTrue  => simp [setPriority_high, hs]
    case isFalse => simp [hs]
  case pos =>
    by_cases hl : t.id ∈ live
    case pos => simp [hs, hl]
    case neg =>
      by_cases hk : t.kind = .bug
      case pos => simp [hs, hl, hk, resume_bug]
      case neg => simp [hs, hl, hk, resume_native, (t.enter_preserves .pending).left]

end Ticket

namespace ProjectState

variable {s : ProjectState} {id : TicketId} {live : List TicketId} {t : Ticket}

-- Of the committed tickets on hold those without a child in work are resumed, if they are no bugs.
theorem ticket_foldl_driveCommitted {ids : List TicketId} (ht : s.ticket id = some t) :
    ∃ t', (ids.foldl (fun s id => s.modifyTicket id (·.driven live)) s).ticket id = some t' ∧ t'.kind = t.kind ∧
      (t'.status = .onHold ↔ t.status = .onHold ∧ (id ∉ ids ∨ id ∈ live ∨ t.kind = .bug)) := by
  induction ids generalizing s t
  case nil => exact ⟨t, ht, rfl, by simp⟩
  case cons id' ids hi =>
    have hm : (s.modifyTicket id' (·.driven live)).ticket id = if id = id' then _ else _ :=
      ticket_modifyTicket fun t => t.driven_spec.left
    rw [List.foldl_cons]
    by_cases h : id = id'
    case neg =>
      have ht' : (s.modifyTicket id' (·.driven live)).ticket id = some t := by rw [hm, if_neg h, ht]
      obtain ⟨t', ht', hk, hs⟩ := hi ht'
      exact ⟨t', ht', hk, by simp [hs, h]⟩
    case pos =>
      have ht' : (s.modifyTicket id' (·.driven live)).ticket id = some (t.driven live) := by
        rw [hm, if_pos h, ht]
        rfl
      obtain ⟨-, hk₁, hs₁⟩ := t.driven_spec
      obtain ⟨t', ht', hk, hs⟩ := hi ht'
      refine ⟨t', ht', hk.trans hk₁, ?_⟩
      rw [hs, hs₁, hk₁, (ticket_mem ht).right]
      simp only [h, List.mem_cons_self, not_true_eq_false, false_or, and_assoc]
      exact and_congr_right fun _ => and_iff_left_of_imp fun hb => .inr hb

-- The tickets that the sweep takes off their hold.
def takesUp (s : ProjectState) (t : Ticket) : Prop :=
  s.committed ≠ [] ∧
    (s.deadChild t ∨ s.heldBug s.liveParents t ∨
      (t.kind ≠ .bug ∧ t.id ∈ s.committed ∧ t.id ∉ s.liveParents))

instance : Decidable (s.takesUp t) := by
  unfold takesUp
  infer_instance

section Sweep

variable {e : EditIo} (hn : (s.tickets.map (·.id)).Nodup) (ht : s.ticket id = some t)
  (hs : t.status = .onHold)

include hn ht hs

-- The children of rejected parents are rejected first.
theorem ticket_deadChildren :
    (s.deadChildren.foldl (·.tryMove · .system .rejected) s).ticket id =
      some (if s.deadChild t then t.enter .rejected else t) := by
  unfold deadChildren
  rw [ticket_foldl_tryMove (nodup_filter_ids hn), ht]
  simp only [mem_filter_ids hn ht, Option.map_some]
  split
  case isFalse => rfl
  case isTrue  =>
    have hr : t.tryTo .system .rejected = t.enter .rejected := by
      cases hk : t.kind <;>
        simp [Ticket.tryTo, Ticket.transitionTo, Ticket.checkTransition, transitionAllowed, canTransition,
          hk, hs, Except.toOption]
    rw [hr]

-- Then the held bugs that have rescues left are opened.
theorem ticket_heldBugs {live : List TicketId} :
    let s₁ := s.deadChildren.foldl (·.tryMove · .system .rejected) s
    ((s₁.heldBugs live).foldl (·.tryMove · .sm .open) (s₁.noticeArrested e)).ticket id =
      some (if s.deadChild t then t.enter .rejected else if s.heldBug live t then t.enter .open else t) := by
  intro s₁
  have ht₁ := ticket_deadChildren hn ht hs
  have hn₁ : (s₁.tickets.map (·.id)).Nodup := by
    rw [ids_foldl_tryMove]
    exact hn
  have hnotice : (s₁.noticeArrested e).ticket id = s₁.ticket id := by
    rw [ProjectState.ticket, tickets_noticeArrested, ProjectState.ticket]
  have hheld : s₁.heldBug live t = s.heldBug live t := by
    simp only [heldBug, s₁, failAttempts_foldl_tryMove]
  unfold heldBugs
  rw [ticket_foldl_tryMove (nodup_filter_ids hn₁), hnotice, ht₁]
  simp only [mem_filter_ids hn₁ ht₁, Option.map_some]
  by_cases hd : s.deadChild t
  case pos => simp [hd, heldBug]
  case neg =>
    by_cases hh : s.heldBug live t
    case neg => simp [hd, hheld, hh]
    case pos =>
      have hk : t.kind = .bug := by
        simp only [heldBug, decide_eq_true_eq] at hh
        exact hh.left
      have ho : t.tryTo .sm .open = t.enter .open := by
        simp [Ticket.tryTo, Ticket.transitionTo, Ticket.checkTransition, transitionAllowed, canTransition,
          hk, hs, Except.toOption]
      simp [hd, hheld, hh, ho]

-- The sweep takes up a ticket on hold by what is said here, and by nothing else.
theorem smDriveSprintFlow_ticket :
    ∃ t', (s.smDriveSprintFlow e).ticket id = some t' ∧ (t'.status = .onHold ↔ ¬s.takesUp t) := by
  unfold smDriveSprintFlow takesUp
  split
  case isTrue hc  => exact ⟨t, ht, by simp [hc, hs]⟩
  case isFalse hc =>
    obtain ⟨t', ht', -, hs'⟩ := ticket_foldl_driveCommitted
      (ticket_heldBugs (e := e) hn ht hs)
    refine ⟨t', ht', ?_⟩
    rw [hs', (ticket_mem ht).right]
    by_cases hd : s.deadChild t
    case pos => simp [hd, hc]
    case neg =>
      by_cases hh : s.heldBug s.liveParents t
      case pos => simp [hd, hh, hc]
      case neg =>
        have hk (C L B : Prop) : ¬C ∨ L ∨ B ↔ ¬(¬B ∧ C ∧ ¬L) := by grind
        simpa [hd, hh, hs, hc] using hk (id ∈ s.committed) (id ∈ s.liveParents) (t.kind = .bug)

end Sweep

-- The parked tickets stay on hold.
def LeavesParked (parked : TicketId → Prop) (s s' : ProjectState) : Prop :=
  ∀ id t, s.ticket id = some t → t.status = .onHold → parked id →
    ∃ t', s'.ticket id = some t' ∧ t'.status = .onHold

-- Whoever parked the tickets, the sweep leaves them on hold if it takes none of them up by its own rules,
-- which do not ask for the reason of a hold.
theorem smDriveSprintFlow_leaves_iff {e : EditIo} {parked : TicketId → Prop}
    (hn : (s.tickets.map (·.id)).Nodup) :
    LeavesParked parked s (s.smDriveSprintFlow e) ↔
      ∀ id t, s.ticket id = some t → t.status = .onHold → parked id → ¬s.takesUp t := by
  refine forall₂_congr fun id t => forall_congr' fun ht => forall_congr' fun hs => imp_congr_right fun _ => ?_
  obtain ⟨t', ht', hs'⟩ := smDriveSprintFlow_ticket (e := e) hn ht hs
  rw [← hs', ht']
  constructor
  case mp  =>
    rintro ⟨_, he, h⟩
    cases he
    exact h
  case mpr =>
    intro h
    exact ⟨t', rfl, h⟩

-- A feature that the running sprint commits to, and that a person parks.
def parkedFeature : ProjectState :=
  let s : ProjectState := {
    tickets := [{ id := ⟨"CX-F001"⟩, kind := .feature, title := "export", status := .ready }]
    sprint  := some { number := 1, goal := "", startedCycle := 0, lengthCycles := 5, committed := [⟨"CX-F001"⟩] }
  }
  (s.holdTicket true (some "waiting for the vendor") "anna" "09:00" ⟨"CX-F001"⟩).1

theorem smDriveSprintFlow_leaves_iff_parkedFeature :
    LeavesParked (·.asStr ∈ parkedFeature.holdReasons.keys) parkedFeature
        (parkedFeature.smDriveSprintFlow {}) ↔
      ∀ id t, parkedFeature.ticket id = some t → t.status = .onHold →
        id.asStr ∈ parkedFeature.holdReasons.keys → ¬parkedFeature.takesUp t :=
  smDriveSprintFlow_leaves_iff (by decide)

theorem smDriveSprintFlow_resumes :
    ¬LeavesParked (·.asStr ∈ parkedFeature.holdReasons.keys) parkedFeature
      (parkedFeature.smDriveSprintFlow {}) := by
  intro h
  obtain ⟨t, ht, hs⟩ := h ⟨"CX-F001"⟩ _ rfl (by decide) (by decide)
  cases ht
  revert hs
  decide

end ProjectState
