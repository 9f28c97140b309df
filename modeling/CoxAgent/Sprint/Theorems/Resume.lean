import CoxAgent.Domain.Theorems.Lifecycle
import CoxAgent.Lib.Run
import CoxAgent.Sprint.Drive
import CoxAgent.Sprint.Theorems.Drive
import CoxAgent.State.Integrity

namespace Ticket

variable {t : Ticket} {actor : Role} {dst : Status}

-- No transition leads out of a rejection.
theorem tryTo_rejected (h : t.status = .rejected) : (t.tryTo actor dst).status = .rejected := by
  cases hc : t.transitionTo actor dst
  case error e => rw [tryTo_of_error hc, h]
  case ok t'   =>
    obtain ⟨hm, he⟩ := transitionTo_ok hc
    have hd : transitionAllowed t.kind .rejected dst := h ▸ hm.edge
    rw [tryTo_of_ok hc, he, enter_status]
    revert hd
    cases t.kind <;> cases dst <;> decide

theorem driven_rejected {live : List TicketId} (h : t.status = .rejected) : t.driven live = t := by
  simp [driven, h]

-- A ticket on hold stays so when it is parked once more.
theorem tryTo_onHold (h : t.status = .onHold) : (t.tryTo .system .onHold).status = .onHold := by
  cases tryTo_cases (t := t)
  case inl he => rw [he, h]
  case inr he => rw [he, enter_status]

end Ticket

namespace ProjectState

variable {s : ProjectState} {id : TicketId} {now : String}

section Rejected

theorem Rejected.congr {s' : ProjectState} (h : s.Rejected id) (ht : s'.ticket id = s.ticket id) :
    s'.Rejected id := by
  unfold Rejected
  rw [ht]
  exact h

theorem Rejected.modify {f : Ticket → Ticket} {id' : TicketId} (hf : ∀ t, (f t).id = t.id)
    (hr : ∀ t, t.status = .rejected → (f t).status = .rejected) (h : s.Rejected id) :
    (s.modifyTicket id' f).Rejected id := by
  intro t ht
  rw [ticket_modifyTicket hf] at ht
  split at ht
  case isFalse => exact h t ht
  case isTrue  =>
    obtain ⟨t₀, h₀, rfl⟩ := Option.map_eq_some_iff.mp ht
    exact hr t₀ (h t₀ h₀)

theorem Rejected.foldl_modify {f : Ticket → Ticket} {ids : List TicketId} (hf : ∀ t, (f t).id = t.id)
    (hr : ∀ t, t.status = .rejected → (f t).status = .rejected) (h : s.Rejected id) :
    (ids.foldl (fun s id' => s.modifyTicket id' f) s).Rejected id := by
  induction ids generalizing s
  case nil            => exact h
  case cons id' ids hi => exact hi (h.modify hf hr)

theorem Rejected.smDrive {e : EditIo} (h : s.Rejected id) : (s.smDriveSprintFlow e).Rejected id := by
  unfold smDriveSprintFlow
  split
  case isTrue  => exact h
  case isFalse =>
    dsimp only
    refine Rejected.foldl_modify (fun _ => Ticket.driven_spec.left)
      (fun t ht => by rw [Ticket.driven_rejected ht, ht]) ?_
    refine Rejected.foldl_modify (fun _ => Ticket.tryTo_id) (fun _ => Ticket.tryTo_rejected) ?_
    refine Rejected.congr (s := s.deadChildren.foldl (·.tryMove · .system .rejected) s) ?_ ?_
    · exact Rejected.foldl_modify (fun _ => Ticket.tryTo_id) (fun _ => Ticket.tryTo_rejected) h
    · rw [ProjectState.ticket, tickets_noticeArrested, ProjectState.ticket]

end Rejected

section AutoHold

def OnHold (s : ProjectState) (id : TicketId) : Prop :=
  ∃ t, s.ticket id = some t ∧ t.status = .onHold

-- What parking leaves alone: the ids and the failures, what is rejected and what is on hold already.
structure Parking (s s' : ProjectState) : Prop where
  ids      : s'.tickets.map (·.id) = s.tickets.map (·.id)
  attempts : s'.ticketFailAttempts = s.ticketFailAttempts
  rejected : ∀ id, s.Rejected id → s'.Rejected id
  onHold   : ∀ id, s.OnHold id → s'.OnHold id

theorem Parking.trans {s' s'' : ProjectState} (h : s.Parking s') (h' : s'.Parking s'') : s.Parking s'' where
  ids         := h'.ids.trans h.ids
  attempts    := h'.attempts.trans h.attempts
  rejected id := h'.rejected id ∘ h.rejected id
  onHold id   := h'.onHold id ∘ h.onHold id

theorem Parking.refl : s.Parking s :=
  ⟨rfl, rfl, fun _ => id, fun _ => id⟩

theorem parking_tryMove : s.Parking (s.tryMove id .system .onHold) where
  ids          := ids_tryMove
  attempts     := rfl
  rejected id' := Rejected.modify (fun _ => Ticket.tryTo_id) (fun _ => Ticket.tryTo_rejected)
  onHold id'   := by
    rintro ⟨t, ht, hs⟩
    by_cases h : id' = id
    case neg => exact ⟨t, by rw [ticket_tryMove, if_neg h, ht], hs⟩
    case pos =>
      refine ⟨t.tryTo .system .onHold, ?_, Ticket.tryTo_onHold hs⟩
      rw [ticket_tryMove, if_pos h, ht]
      rfl

theorem parking_of_tickets {s' : ProjectState} (ht : s'.tickets = s.tickets)
    (ha : s'.ticketFailAttempts = s.ticketFailAttempts) : s.Parking s' := by
  refine ⟨by rw [ht], ha, fun id h => h.congr ?_, fun id h => ?_⟩
  · rw [ProjectState.ticket, ht, ProjectState.ticket]
  · rw [OnHold, ProjectState.ticket, ht]
    exact h

variable {p : ProjectState × List TicketId} {id' : TicketId}

theorem parking_autoHold :
    p.1.Parking (autoHold now p id').1 ∧ ∀ held ∈ (autoHold now p id').2, held ∈ p.2 ∨ held = id' := by
  unfold autoHold
  dsimp only
  split
  case isFalse => exact ⟨.refl, fun _ => .inl⟩
  case isTrue  => exact ⟨parking_tryMove.trans (parking_of_tickets rfl rfl), by simp⟩

theorem parking_foldl_autoHold {ids : List TicketId} :
    p.1.Parking (ids.foldl (autoHold now) p).1 ∧
      ∀ held ∈ (ids.foldl (autoHold now) p).2, held ∈ p.2 ∨ held ∈ ids := by
  induction ids generalizing p
  case nil            => exact ⟨.refl, fun _ => .inl⟩
  case cons id ids hi =>
    obtain ⟨h, hm⟩ := hi (p := autoHold now p id)
    refine ⟨parking_autoHold.left.trans h, fun held hh => ?_⟩
    rw [List.mem_cons, ← or_assoc]
    exact (hm held hh).imp_left (parking_autoHold.right held)

theorem parking_autoHoldExhausted : s.Parking (s.autoHoldExhausted now).1 :=
  (parking_foldl_autoHold (p := (s, []))).left

-- What is parked is in play, and has failed too often.
theorem exhausted_of_held (h : id ∈ (s.autoHoldExhausted now).2) :
    ∃ t ∈ s.tickets, t.id = id ∧ t.status ≠ .rejected ∧ holdAfterAttempts ≤ s.failAttempts id := by
  have hm : id ∈ s.exhausted := ((parking_foldl_autoHold (p := (s, []))).right id h).resolve_left List.not_mem_nil
  obtain ⟨t, ht, rfl⟩ := List.mem_map.mp hm
  obtain ⟨ht, hp⟩ := List.mem_filter.mp ht
  rw [decide_eq_true_eq] at hp
  exact ⟨t, ht, rfl, fun hr => by simp [hr] at hp, hp.right⟩

end AutoHold

section Drive

variable {e : EditIo} {f : Ticket → Ticket} {ids : List TicketId}

theorem frame_foldl_modify (hf : ∀ t, (f t).id = t.id) :
    (ids.foldl (fun s id => s.modifyTicket id f) s).tickets.map (·.id) = s.tickets.map (·.id) ∧
      (ids.foldl (fun s id => s.modifyTicket id f) s).ticketFailAttempts = s.ticketFailAttempts := by
  induction ids generalizing s
  case nil            => exact ⟨rfl, rfl⟩
  case cons id ids hi =>
    obtain ⟨h, ha⟩ := hi (s := s.modifyTicket id f)
    exact ⟨h.trans (modifyTicket_ids hf), ha⟩

theorem attempts_noticeArrested : (s.noticeArrested e).ticketFailAttempts = s.ticketFailAttempts := by
  unfold noticeArrested
  dsimp only
  split
  case isTrue  => simp only [postChatIn]
  case isFalse => rfl

-- The driver moves tickets. It counts nothing, and forgives nothing.
theorem frame_smDriveSprintFlow :
    (s.smDriveSprintFlow e).tickets.map (·.id) = s.tickets.map (·.id) ∧
      (s.smDriveSprintFlow e).ticketFailAttempts = s.ticketFailAttempts := by
  unfold smDriveSprintFlow
  split
  case isTrue  => exact ⟨rfl, rfl⟩
  case isFalse =>
    have hmove {actor dst} (t : Ticket) : (t.tryTo actor dst).id = t.id := Ticket.tryTo_id
    have hdriven {live} (t : Ticket) : (t.driven live).id = t.id := t.driven_spec.left
    dsimp only
    obtain ⟨h₁, ha₁⟩ := frame_foldl_modify (s := s) hmove
    constructor
    · rw [(frame_foldl_modify hdriven).left]
      apply (frame_foldl_modify hmove).left.trans
      rw [tickets_noticeArrested]
      exact h₁
    · rw [(frame_foldl_modify hdriven).right]
      apply (frame_foldl_modify hmove).right.trans
      rw [attempts_noticeArrested]
      exact ha₁

theorem rejected_of_deadChild {t : Ticket} (hn : (s.tickets.map (·.id)).Nodup) (ht : s.ticket id = some t)
    (hs : t.status = .onHold) (hc : s.committed ≠ []) (hd : s.deadChild t) :
    (s.smDriveSprintFlow e).Rejected id := by
  rw [smDriveSprintFlow, if_neg hc]
  refine Rejected.foldl_modify (fun _ => Ticket.driven_spec.left)
    (fun t ht => by rw [Ticket.driven_rejected ht, ht]) fun t' ht' => ?_
  rw [ticket_heldBugs hn ht hs, if_pos hd] at ht'
  cases ht'
  exact Ticket.enter_status

end Drive

section Resume

variable {me : String} {id' : TicketId}

theorem failAttempts_clearFailAttempts :
    (s.clearFailAttempts id).failAttempts id' = if id' = id then 0 else s.failAttempts id' := by
  unfold clearFailAttempts failAttempts
  rw [BTreeMap.get?_remove]
  by_cases h : id' = id
  case pos => simp [h]
  case neg => simp [h, TicketId.ext_iff.not.mp h]

-- A refused resume changes nothing. Else the ticket is moved and its failures are forgiven.
theorem holdTicket_resume_cases :
    (s.holdTicket false none me now id).1 = s ∨
      ∃ dst, (s.holdTicket false none me now id).1.tickets = (s.tryMove id .user dst).tickets ∧
        (s.holdTicket false none me now id).1.ticketFailAttempts =
          (s.clearFailAttempts id).ticketFailAttempts := by
  unfold holdTicket
  cases s.ticket id
  case none   => exact .inl rfl
  case some t =>
    dsimp only
    cases t.transitionTo .user (if false then .onHold else t.kind.resumed)
    case error => exact .inl rfl
    case ok    => exact .inr ⟨_, rfl, rfl⟩

end Resume

end ProjectState

namespace SweepEvent

variable {s : ProjectState} {id : TicketId} {e : SweepEvent} {es : List SweepEvent}

-- What an event keeps for a ticket unless it records a failure of it.
structure Steady (id : TicketId) (s s' : ProjectState) : Prop where
  unique   : (s.tickets.map (·.id)).Nodup → (s'.tickets.map (·.id)).Nodup
  attempts : s'.failAttempts id ≤ s.failAttempts id
  rejected : s.Rejected id → s'.Rejected id

theorem Steady.refl : Steady id s s :=
  ⟨fun h => h, le_refl _, fun h => h⟩

theorem steady_resume {id' : TicketId} {me now : String} :
    Steady id s (s.holdTicket false none me now id').1 := by
  obtain h | ⟨dst, ht, ha⟩ := s.holdTicket_resume_cases
  case inl =>
    rw [h]
    exact .refl
  case inr =>
    refine ⟨?_, ?_, ?_⟩
    · rw [ht, ProjectState.ids_tryMove]
      exact fun h => h
    · have hc := @ProjectState.failAttempts_clearFailAttempts s id' id
      rw [ProjectState.failAttempts, ha]
      rw [ProjectState.failAttempts] at hc
      rw [hc]
      split <;> omega
    · intro h
      refine ProjectState.Rejected.congr (s := s.tryMove id' .user dst) ?_ ?_
      · exact h.modify (fun _ => Ticket.tryTo_id) (fun _ => Ticket.tryTo_rejected)
      · rw [ProjectState.ticket, ht, ProjectState.ticket]

theorem steady_step (hr : ¬e.Records id) : Steady id s (step s e) := by
  cases e
  case autoHold e =>
    rw [step]
    split
    case isTrue  => exact .refl
    case isFalse =>
      have h := @ProjectState.parking_autoHoldExhausted s e.now
      exact ⟨h.ids ▸ fun h => h, by simp [ProjectState.failAttempts, h.attempts], h.rejected id⟩
  case smDrive e =>
    rw [step]
    split
    case isTrue  => exact .refl
    case isFalse =>
      obtain ⟨h, ha⟩ := s.frame_smDriveSprintFlow (e := e)
      exact ⟨h ▸ fun h => h, by simp [ProjectState.failAttempts, ha], .smDrive⟩
  case resume id' me e =>
    rw [step]
    split
    case isTrue  => exact .refl
    case isFalse => exact steady_resume
  case failure id' f calm =>
    exact ⟨calm.unique s, calm.attempts s id (fun h => hr h.symm), calm.rejected s id⟩
  case other f calm =>
    exact ⟨calm.unique s, calm.attempts s id not_false, calm.rejected s id⟩

-- The ticket will not be parked for its failures: it has too few of them, or it is out of play.
def Forgiven (s : ProjectState) (id : TicketId) : Prop :=
  s.failAttempts id < holdAfterAttempts ∨ s.Rejected id

-- A resume that does not forgive takes up tickets with few failures only.
def Clear (s : ProjectState) : SweepEvent → Prop
  | autoHold _                => True
  | smDrive e                 => e.fails ∨ ∀ id t, s.ticket id = some t → t.status = .onHold →
    s.takesUp t → s.deadChild t ∨ s.failAttempts id < holdAfterAttempts
  | resume _ _ _              => True
  | failure _ f _ | other f _ => ∀ id, s.OnHold id →
    (∃ t, (f s).ticket id = some t ∧ t.status ≠ .onHold) → Forgiven (f s) id

theorem forgiven_of_resumes (hn : (s.tickets.map (·.id)).Nodup) (hc : e.Clear s) (hr : e.Resumes id s) :
    Forgiven (step s e) id := by
  obtain ⟨⟨t, ht, hs⟩, t', ht', hs'⟩ := hr
  cases e
  case other f calm        => exact hc id ⟨t, ht, hs⟩ ⟨t', ht', hs'⟩
  case failure id' f calm  => exact hc id ⟨t, ht, hs⟩ ⟨t', ht', hs'⟩
  case autoHold e          =>
    rw [step] at ht'
    split at ht'
    case isTrue  =>
      cases ht.symm.trans ht'
      exact absurd hs hs'
    case isFalse =>
      obtain ⟨t'', ht'', hs''⟩ := s.parking_autoHoldExhausted.onHold id ⟨t, ht, hs⟩
      cases ht''.symm.trans ht'
      exact absurd hs'' hs'
  case smDrive e           =>
    rw [step] at ht' ⊢
    split at ht'
    case isTrue  =>
      cases ht.symm.trans ht'
      exact absurd hs hs'
    case isFalse hf =>
      obtain ⟨t'', ht'', hs''⟩ := ProjectState.smDriveSprintFlow_ticket (e := e) hn ht hs
      cases ht''.symm.trans ht'
      have hu : s.takesUp t := not_not.mp (mt hs''.mpr hs')
      rw [if_neg hf]
      cases hc.resolve_left hf id t ht hs hu
      case inl hd => exact .inr (ProjectState.rejected_of_deadChild hn ht hs hu.left hd)
      case inr ha =>
        refine .inl ?_
        rw [ProjectState.failAttempts, s.frame_smDriveSprintFlow.right]
        exact ha
  case resume id' me e     =>
    rw [step] at ht' ⊢
    split at ht'
    case isTrue  =>
      cases ht.symm.trans ht'
      exact absurd hs hs'
    case isFalse hf =>
      rw [if_neg hf]
      obtain h | ⟨dst, hts, ha⟩ := s.holdTicket_resume_cases
      case inl =>
        rw [h, ht] at ht'
        cases ht'
        exact absurd hs hs'
      case inr =>
        rw [ProjectState.ticket, hts] at ht'
        change (s.tryMove id' .user dst).ticket id = _ at ht'
        rw [ProjectState.ticket_tryMove] at ht'
        split at ht'
        case isFalse =>
          cases ht.symm.trans ht'
          exact absurd hs hs'
        case isTrue h =>
          have hz := @ProjectState.failAttempts_clearFailAttempts s id' id
          rw [if_pos h] at hz
          refine .inl ?_
          rw [ProjectState.failAttempts, ha]
          rw [ProjectState.failAttempts] at hz
          rw [hz]
          decide

theorem steady_foldl (hr : ∀ e ∈ es, ¬e.Records id) : Steady id s (es.foldl step s) := by
  induction es generalizing s
  case nil          => exact .refl
  case cons e es hi =>
    rw [List.forall_mem_cons] at hr
    have h := steady_step (s := s) hr.left
    have h' := hi (s := step s e) hr.right
    exact ⟨h'.unique ∘ h.unique, h'.attempts.trans h.attempts, h'.rejected ∘ h.rejected⟩

theorem not_parks_of_forgiven (hn : (s.tickets.map (·.id)).Nodup) (h : Forgiven s id) : ¬e.Parks id s := by
  cases e
  case autoHold e =>
    rintro ⟨-, hh⟩
    obtain ⟨t, ht, rfl, hs, ha⟩ := ProjectState.exhausted_of_held hh
    cases h
    case inl h => omega
    case inr h => exact hs (h t (ProjectState.ticket_eq_of_nodup hn ht))
  all_goals exact not_false

theorem unique_step (hn : (s.tickets.map (·.id)).Nodup) : ((step s e).tickets.map (·.id)).Nodup := by
  cases e
  case failure _ f calm => exact calm.unique s hn
  case autoHold e       => exact (@steady_step s ⟨""⟩ (autoHold e) not_false).unique hn
  case smDrive e        => exact (@steady_step s ⟨""⟩ (smDrive e) not_false).unique hn
  case resume id me e   => exact (@steady_step s ⟨""⟩ (resume id me e) not_false).unique hn
  case other f calm     => exact calm.unique s hn

-- A ticket that is taken off its hold is parked for its failures only after one more is recorded.
def Sticks (s : ProjectState) (es : List SweepEvent) : Prop :=
  ∀ pre e mid e' post id, es = pre ++ e :: (mid ++ e' :: post) → e.Resumes id (pre.foldl step s) →
    e'.Parks id ((pre ++ e :: mid).foldl step s) → ∃ e'' ∈ mid, e''.Records id

-- Resumes stick where the driver takes up no ticket that has failed too often.
theorem sticks_of_clear (hn : (s.tickets.map (·.id)).Nodup)
    (h : Run.Meets step (fun s e => e.Clear s) s es) : Sticks s es := by
  rintro pre e mid e' post id rfl hr hp
  by_contra hno
  have hn₀ : ((pre.foldl step s).tickets.map (·.id)).Nodup :=
    Run.inv_all (J := fun s : ProjectState => (s.tickets.map (·.id)).Nodup) (fun _ _ => unique_step) hn
  have hf : Forgiven (step (pre.foldl step s) e) id := forgiven_of_resumes hn₀ h.of_append hr
  have hs : Steady id (step (pre.foldl step s) e) (mid.foldl step (step (pre.foldl step s) e)) :=
    steady_foldl fun e'' he hrec => hno ⟨e'', he, hrec⟩
  rw [List.foldl_append, List.foldl_cons] at hp
  refine not_parks_of_forgiven (hs.unique (unique_step hn₀)) ?_ hp
  exact hf.imp (hs.attempts.trans_lt ·) hs.rejected

-- A bug that has failed three times, beside the feature that the sprint commits to.
def failedBug : ProjectState where
  tickets            := [
    { id := ⟨"CX-B001"⟩, kind := .bug, title := "crash", status := .open },
    { id := ⟨"CX-F001"⟩, kind := .feature, title := "export", status := .ready }
  ]
  sprint             := some {
    number := 1, goal := "", startedCycle := 0, lengthCycles := 5, committed := [⟨"CX-F001"⟩] }
  ticketFailAttempts := .single "CX-B001" 3

theorem sticks_of_clear_byPerson :
    Sticks failedBug [autoHold {}, resume ⟨"CX-B001"⟩ "anna" {}, autoHold {}] :=
  sticks_of_clear (by decide) ⟨trivial, trivial, trivial, trivial⟩

-- The driver resumes the bug without forgiving it, and it is parked again.
theorem not_sticks : ¬Sticks failedBug [autoHold {}, smDrive {}, autoHold {}] := by
  intro h
  have hr : (smDrive {}).Resumes ⟨"CX-B001"⟩ (step failedBug (autoHold {})) := by
    refine ⟨⟨_, rfl, ?_⟩, _, rfl, ?_⟩ <;> decide
  have hp : (autoHold {}).Parks ⟨"CX-B001"⟩ (step (step failedBug (autoHold {})) (smDrive {})) :=
    ⟨rfl, by decide⟩
  obtain ⟨_, he, _⟩ := h [autoHold {}] _ [] _ [] _ rfl hr hp
  exact List.not_mem_nil he

end SweepEvent
