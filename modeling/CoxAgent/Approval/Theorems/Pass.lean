import CoxAgent.Approval.Policy

namespace Ticket

-- The way into `ready` depends on the edge and the design alone.
theorem transitionTo_ready {t : Ticket} :
    t.transitionTo .system .ready =
      if transitionAllowed t.kind t.status .ready then
        t.checkReady.map fun _ => t.enter .ready
      else
        .error (.invalidTransition t.kind t.status .ready) := by
  simp only [transitionTo, checkTransition, canTransition, beq_self_eq_true, Bool.or_true,
    Bool.true_or, Bool.not_true, Bool.false_eq_true, ↓reduceIte]
  by_cases h : transitionAllowed t.kind t.status .ready
  case pos => cases t.checkReady <;> simp [h, Except.map]
  case neg => simp [h]

theorem enter_ready (t : Ticket) :
    t.enter .ready = { t with status := .ready, claimedBy := none, claimedAt := none } :=
  rfl

theorem transitionTo_ready_ok {t t' : Ticket} (h : t.transitionTo .system .ready = .ok t') :
    t' = t.enter .ready := by
  rw [transitionTo_ready] at h
  split at h <;> try contradiction
  cases hr : t.checkReady <;> simp [hr, Except.map] at h
  exact h.symm

-- A second promotion changes nothing.
theorem transitionTo_ready_again {t t' : Ticket} (h : t.transitionTo .system .ready = .ok t') :
    (t.enter .ready).transitionTo .system .ready = .ok (t.enter .ready) := by
  rw [transitionTo_ready] at h ⊢
  split at h <;> try contradiction
  have hr : (t.enter .ready).checkReady = t.checkReady := rfl
  have hs : (t.enter .ready).status = .ready := rfl
  cases hc : t.checkReady <;> simp only [hc, Except.map, reduceCtorEq] at h
  rw [hr, hc, hs]
  simp only [transitionAllowed, beq_self_eq_true, Bool.true_or, ↓reduceIte, Except.map]
  rfl

-- What a pending ticket needs.
theorem transitionTo_ready_isOk {t : Ticket} (hp : t.status = .pending)
    (hd : t.design.technical.isSome) :
    (t.transitionTo .system .ready).isOk ↔
      t.kind ≠ .bug ∧ (t.hasUi → t.design.ux.isSome) := by
  rw [transitionTo_ready, hp, checkReady]
  have ht : t.design.technical.isNone = false := by simpa using hd
  cases hk : t.kind <;> cases hu : t.hasUi <;> cases hx : t.design.ux <;>
    simp [transitionAllowed, ht, Except.map, Except.isOk, Except.toBool]

end Ticket

namespace Approval

variable {u : Text.Unicode} {now mint : Nat → String} {s₀ : ProjectState} {learnAfter cap : Nat}

-- The first ticket with the id passes the gate and may become ready.
def approvable (u : Text.Unicode) (s : ProjectState) (learnAfter : Nat) (id : TicketId) : Bool :=
  (s.ticket id).any fun t => willAuto u s learnAfter t && (t.transitionTo .system .ready).isOk

-- The gate does not look at what a promotion changes.
theorem willAuto_enter (t : Ticket) :
    willAuto u s₀ learnAfter (t.enter .ready) = willAuto u s₀ learnAfter t :=
  rfl

section Mark

-- A ticket after the promotion of the given ids. It reaches the first ticket with an id.
def promote (done seen : List TicketId) (t : Ticket) : Ticket :=
  if t.id ∈ done ∧ t.id ∉ seen then t.enter .ready else t

def promoteAll (done seen : List TicketId) : List Ticket → List Ticket
  | []      => []
  | t :: ts => promote done seen t :: promoteAll done (t.id :: seen) ts

variable {done seen : List TicketId} {t t' : Ticket} {ts : List Ticket} {id : TicketId}

@[simp]
theorem promote_id : (promote done seen t).id = t.id := by
  unfold promote
  split <;> rfl

theorem promoteAll_nil : promoteAll [] seen ts = ts := by
  induction ts generalizing seen
  case nil          => rfl
  case cons t ts hi => simp [promoteAll, promote, hi]

theorem find?_promoteAll (hs : id ∉ seen) :
    (promoteAll done seen ts).find? (·.id = id) =
      (ts.find? (·.id = id)).map fun t => if id ∈ done then t.enter .ready else t := by
  induction ts generalizing seen
  case nil => rfl
  case cons t ts hi =>
    by_cases ht : t.id = id
    case pos =>
      rw [promoteAll, List.find?_cons_of_pos (by simpa using ht),
        List.find?_cons_of_pos (by simpa using ht)]
      simp [promote, ht, hs]
    case neg =>
      have hs' : id ∉ t.id :: seen := by simp [hs, Ne.symm ht]
      simp [promoteAll, ht, hi hs']

-- Behind the first ticket with an id its promotion changes nothing.
theorem promoteAll_cons_of_mem (hs : id ∈ seen) :
    promoteAll (id :: done) seen ts = promoteAll done seen ts := by
  induction ts generalizing seen
  case nil => rfl
  case cons t ts hi =>
    have hp : promote (id :: done) seen t = promote done seen t := by
      by_cases ht : t.id = id <;> simp [promote, ht, hs]
    rw [promoteAll, promoteAll, hp, hi (List.mem_cons_of_mem _ hs)]

-- The promotion of a ticket, which may have been promoted before.
theorem ticketMut_promoteAll (hs : id ∉ seen) (hf : ts.find? (·.id = id) = some t)
    (ht : t.transitionTo .system .ready = .ok t') :
    ProjectState.ticketMut.go id (·.transitionTo .system .ready) (promoteAll done seen ts) =
      some (.ok (promoteAll (id :: done) seen ts)) := by
  induction ts generalizing seen
  case nil => simp at hf
  case cons x ts hi =>
    rw [promoteAll, promoteAll, ProjectState.ticketMut.go, promote_id]
    by_cases hx : x.id = id
    case pos =>
      have hxt : x = t := by simpa [hx] using hf
      have hr : (promote done seen x).transitionTo .system .ready = .ok (x.enter .ready) := by
        rw [← hxt] at ht
        unfold promote
        split
        · exact Ticket.transitionTo_ready_again ht
        · rw [ht, Ticket.transitionTo_ready_ok ht]
      have hp : promote (id :: done) seen x = x.enter .ready := by simp [promote, hx, hs]
      rw [if_pos hx, hr, hp, promoteAll_cons_of_mem (by simp [hx])]
      rfl
    case neg =>
      have hf' : ts.find? (·.id = id) = some t := by simpa [hx] using hf
      have hp : promote (id :: done) seen x = promote done seen x := by simp [promote, hx]
      rw [if_neg hx, hi (by simp [hs, Ne.symm hx]) hf', hp]
      rfl

-- A ticket that may not become ready was not promoted before.
theorem ticketMut_promoteAll_error {e : DomainError} (hs : id ∉ seen) (hd : id ∉ done)
    (hf : ts.find? (·.id = id) = some t) (ht : t.transitionTo .system .ready = .error e) :
    ProjectState.ticketMut.go id (·.transitionTo .system .ready) (promoteAll done seen ts) =
      some (.error e) := by
  induction ts generalizing seen
  case nil => simp at hf
  case cons x ts hi =>
    rw [promoteAll, ProjectState.ticketMut.go, promote_id]
    by_cases hx : x.id = id
    case pos =>
      have hxt : x = t := by simpa [hx] using hf
      have hp : promote done seen x = x := by simp [promote, hx, hd]
      rw [if_pos hx, hp, hxt, ht]
      rfl
    case neg =>
      have hf' : ts.find? (·.id = id) = some t := by simpa [hx] using hf
      rw [if_neg hx, hi (by simp [hs, Ne.symm hx]) hf']
      rfl

-- The first ticket with an id that was promoted has moved, unless it was ready before.
theorem mem_moved :
    t ∈ (ts.zip (promoteAll done seen ts) |>.filter
        (fun (t, t') => t.status ≠ .ready ∧ t'.status = .ready) |>.map (·.1)) ↔
      t.id ∉ seen ∧ ts.find? (·.id = t.id) = some t ∧ t.id ∈ done ∧ t.status ≠ .ready := by
  induction ts generalizing seen
  case nil => simp [promoteAll]
  case cons x ts hi =>
    have hx : (x.status ≠ .ready ∧ (promote done seen x).status = .ready) ↔
        x.id ∈ done ∧ x.id ∉ seen ∧ x.status ≠ .ready := by
      unfold promote
      split
      case isTrue h  => simp [h, Ticket.enter_ready]
      case isFalse h => tauto
    simp only [promoteAll, List.zip_cons_cons, List.filter_cons, hx, decide_eq_true_eq]
    by_cases ht : x.id = t.id
    case pos =>
      -- Of the tickets with this id only `x` counts.
      rw [List.find?_cons_of_pos (by simpa using ht)]
      split
      case isTrue h =>
        rw [List.map_cons, List.mem_cons, hi]
        simp only [ht, List.mem_cons, true_or, not_true_eq_false, false_and, or_false,
          Option.some.injEq]
        constructor
        · rintro rfl
          exact ⟨h.right.left, rfl, h.left, h.right.right⟩
        · intro h
          exact h.right.left.symm
      case isFalse h =>
        rw [hi]
        simp only [ht, List.mem_cons, true_or, not_true_eq_false, false_and, Option.some.injEq,
          false_iff]
        rintro ⟨hs, rfl, hd, hn⟩
        exact h ⟨hd, hs, hn⟩
    case neg =>
      have hne : t ≠ x := fun he => ht (he ▸ rfl)
      have hseen : t.id ∉ x.id :: seen ↔ t.id ∉ seen := by simp [Ne.symm ht]
      rw [List.find?_cons_of_neg (by simpa using ht)]
      split
      case isTrue  => rw [List.map_cons, List.mem_cons, or_iff_right hne, hi, hseen]
      case isFalse => rw [hi, hseen]

end Mark

section Loop

variable {done : List TicketId} {p : Pass} {id : TicketId} {t : Ticket}

theorem announceRule_keeps (rule : Rule) (p : Pass) :
    (announceRule u t rule p).state.tickets = p.state.tickets ∧
    (announceRule u t rule p).promoted = p.promoted := by
  unfold announceRule
  split
  case h_1 => exact ⟨rfl, rfl⟩
  case h_2 => split <;> exact ⟨rfl, rfl⟩

theorem record_keeps (u : Text.Unicode) (now : Nat → String) (s₀ : ProjectState) (learnAfter : Nat)
    (t : Ticket) (p : Pass) :
    (record u now s₀ learnAfter t p).state.tickets = p.state.tickets ∧
    (record u now s₀ learnAfter t p).promoted = p.promoted + 1 :=
  announceRule_keeps _ _

-- After the promotion of `done`, the last one first.
structure Promoted (u : Text.Unicode) (s₀ : ProjectState) (learnAfter : Nat) (done : List TicketId)
    (p : Pass) : Prop where
  tickets  : p.state.tickets = promoteAll done [] s₀.tickets
  promoted : p.promoted = done.length
  passed   : ∀ id ∈ done, approvable u s₀ learnAfter id

theorem Promoted.ticket (h : Promoted u s₀ learnAfter done p) :
    p.state.ticket id = (s₀.ticket id).map fun t => if id ∈ done then t.enter .ready else t := by
  rw [ProjectState.ticket, h.tickets, find?_promoteAll (by simp)]
  rfl

theorem consider_of_not_willAuto {t : Ticket} (now : Nat → String) (ht : p.state.ticket id = some t)
    (hw : willAuto u s₀ learnAfter t = false) : consider u now s₀ learnAfter p id = p := by
  simp only [willAuto, Bool.and_eq_false_iff, Bool.not_eq_false'] at hw
  simp only [consider, ht]
  rcases hw with ho | hn
  · simp [ho]
  · simp [hn]

theorem Promoted.considered (h : Promoted u s₀ learnAfter done p) (now : Nat → String)
    (id : TicketId) :
    Promoted u s₀ learnAfter (if approvable u s₀ learnAfter id then id :: done else done)
      (consider u now s₀ learnAfter p id) := by
  cases ht : s₀.ticket id
  case none =>
    have ha : approvable u s₀ learnAfter id = false := by simp [approvable, ht]
    have hp : p.state.ticket id = none := by simp [h.ticket, ht]
    simpa [consider, ha, hp] using h
  case some t =>
    -- The gate sees the ticket as it was, promoted or not.
    obtain ⟨t₁, hp, hw⟩ : ∃ t₁, p.state.ticket id = some t₁ ∧
        willAuto u s₀ learnAfter t₁ = willAuto u s₀ learnAfter t := by
      refine ⟨if id ∈ done then t.enter .ready else t, by rw [h.ticket, ht]; rfl, ?_⟩
      split
      · exact willAuto_enter t
      · rfl
    have ha : approvable u s₀ learnAfter id =
        (willAuto u s₀ learnAfter t && (t.transitionTo .system .ready).isOk) := by
      simp [approvable, ht]
    by_cases hwt : willAuto u s₀ learnAfter t
    case neg =>
      have hwt₁ : willAuto u s₀ learnAfter t₁ = false := by simpa [hw] using hwt
      simpa [consider_of_not_willAuto now hp hwt₁, ha, hwt] using h
    case pos =>
      have ⟨ho, hal⟩ : overridden u s₀ t₁ = false ∧ allow u s₀ learnAfter t₁ = true := by
        simpa [willAuto] using hw.trans hwt
      cases htr : t.transitionTo .system .ready
      case error e =>
        have hna : approvable u s₀ learnAfter id = false := by simp [ha, htr, Except.isOk, Except.toBool]
        have hd : id ∉ done := fun hd => by simpa [hna] using h.passed id hd
        have hm : p.state.ticketMut id (·.transitionTo .system .ready) = some (.error e) := by
          rw [ProjectState.ticketMut, h.tickets, ticketMut_promoteAll_error (by simp) hd ht htr]
          rfl
        have hc : consider u now s₀ learnAfter p id = p := by
          simp only [consider, hp, ho, hal, hm, Bool.false_eq_true, ↓reduceIte, Bool.not_true]
        simpa [hc, hna] using h
      case ok t' =>
        have hya : approvable u s₀ learnAfter id = true := by
          simp [ha, hwt, htr, Except.isOk, Except.toBool]
        have hm : p.state.ticketMut id (·.transitionTo .system .ready) =
            some (.ok { p.state with tickets := promoteAll (id :: done) [] s₀.tickets }) := by
          rw [ProjectState.ticketMut, h.tickets, ticketMut_promoteAll (by simp) ht htr]
          rfl
        simp only [consider, hp, ho, hal, hm, hya, Bool.false_eq_true, ↓reduceIte, Bool.not_true]
        have ⟨hk, hn⟩ := record_keeps u now s₀ learnAfter t₁
          { p with state := { p.state with tickets := promoteAll (id :: done) [] s₀.tickets } }
        refine ⟨hk, hn.trans (congrArg (· + 1) h.promoted), ?_⟩
        rw [List.forall_mem_cons]
        exact ⟨hya, h.passed⟩

theorem Promoted.consideredAll (h : Promoted u s₀ learnAfter done p) (now : Nat → String) (cap : Nat)
    (ids : List TicketId) :
    Promoted u s₀ learnAfter
      (((ids.filter (approvable u s₀ learnAfter)).take (cap - done.length)).reverse ++ done)
      (considerAll u now s₀ learnAfter cap ids p) := by
  induction ids generalizing p done
  case nil => simpa [considerAll] using h
  case cons id ids hi =>
    unfold considerAll
    split
    case isTrue hcap =>
      have h0 : cap - done.length = 0 := by
        rw [h.promoted] at hcap
        omega
      simpa [h0] using h
    case isFalse hcap =>
      have hstep := hi (h.considered now id)
      rw [h.promoted] at hcap
      cases ha : approvable u s₀ learnAfter id
      case false => simpa [ha] using hstep
      case true =>
        have hlen : cap - done.length = cap - (done.length + 1) + 1 := by omega
        simpa [ha, hlen] using hstep

end Loop

theorem postAll_tickets (n : Nat) (s : ProjectState) (msgs : List String) :
    (postAll now mint n s msgs).tickets = s.tickets := by
  have go (l : List (String × Nat)) (s : ProjectState) :
      (l.foldl (fun s msg => s.postChatIn (mint msg.2) (now (n + msg.2)) "SYSTEM" msg.1
        ProjectState.approvalsChannel []) s).tickets = s.tickets := by
    induction l generalizing s
    case nil => rfl
    case cons e l hi =>
      rw [List.foldl_cons, hi, ProjectState.postChatIn_tickets]
  exact go _ s

variable {cfg : HumanConfig} {s : ProjectState} {t : Ticket}

theorem movedToReady_self : movedToReady s s = [] := by
  have go (ts : List Ticket) :
      (ts.zip ts).filter (fun (t, t') => t.status ≠ .ready ∧ t'.status = .ready) = [] := by
    induction ts
    case nil          => rfl
    case cons t ts hi => simpa using hi
  rw [movedToReady, go]
  rfl

-- The pass moves the first tickets that are approvable, up to its cap.
theorem mem_movedToReady (hr : cfg.gateReady) (he : cfg.adaptive.enabled) :
    t ∈ movedToReady s (adaptiveApprovalPass u now mint cfg s) ↔
      s.ticket t.id = some t ∧ t.status ≠ .ready ∧
      t.id ∈ ((candidates s).filter (approvable u s cfg.adaptive.learnAfter)).take cfg.adaptive.cap := by
  have hinit : Promoted u s cfg.adaptive.learnAfter [] { state := s } :=
    ⟨promoteAll_nil.symm, rfl, by simp⟩
  have h := hinit.consideredAll now cfg.adaptive.cap (candidates s)
  have hp : (adaptiveApprovalPass u now mint cfg s).tickets = promoteAll
      (((candidates s).filter (approvable u s cfg.adaptive.learnAfter)).take cfg.adaptive.cap).reverse
      [] s.tickets := by
    simp only [adaptiveApprovalPass, hr, he, Bool.not_true, Bool.or_self, Bool.false_eq_true, ↓reduceIte,
      postAll_tickets]
    simpa using h.tickets
  rw [movedToReady, hp, mem_moved]
  simp only [List.not_mem_nil, not_false_eq_true, true_and, List.mem_reverse]
  exact and_congr_right fun _ => and_comm

end Approval
