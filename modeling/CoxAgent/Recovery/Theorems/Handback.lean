import CoxAgent.Domain.Theorems.Repeat
import CoxAgent.Recovery.Claims

namespace ProjectState

variable {s : ProjectState} {id : TicketId} {t : Ticket} {f : Ticket → Ticket}

-- The ticket with the id stands after tickets with other ids.
theorem modifyTicket_split (h : s.ticket id = some t) : ∃ l₁ l₂, s.tickets = l₁ ++ t :: l₂ ∧ t.id = id ∧
    (∀ t₁ ∈ l₁, t₁.id ≠ id) ∧ (s.modifyTicket id f).tickets = l₁ ++ f t :: l₂ := by
  have hgo (ts : List Ticket) (hf : ts.find? (·.id = id) = some t) : ∃ l₁ l₂, ts = l₁ ++ t :: l₂ ∧ t.id = id ∧
      (∀ t₁ ∈ l₁, t₁.id ≠ id) ∧ modifyTicket.go id f ts = l₁ ++ f t :: l₂ := by
    induction ts
    case nil => contradiction
    case cons t₁ ts hi =>
      by_cases he : t₁.id = id
      case pos =>
        have ht : t₁ = t := by simpa [he] using hf
        subst ht
        exact ⟨[], ts, rfl, he, by simp, by simp [modifyTicket.go, he]⟩
      case neg =>
        obtain ⟨l₁, l₂, hs, hid, hn, hg⟩ := hi (by simpa [he] using hf)
        refine ⟨t₁ :: l₁, l₂, by simp [hs], hid, ?_, by simp [modifyTicket.go, he, hg]⟩
        exact List.forall_mem_cons.mpr ⟨he, hn⟩
  exact hgo s.tickets h

theorem modifyTicket_self (h : s.ticket id = some t) : s.modifyTicket id (fun _ => t) = s := by
  obtain ⟨l₁, l₂, hs, _, _, hm⟩ := @modifyTicket_split s id t (fun _ => t) h
  have he : (s.modifyTicket id fun _ => t).tickets = s.tickets := by rw [hm, hs]
  have hw : s.modifyTicket id (fun _ => t) =
    { s with tickets := (s.modifyTicket id fun _ => t).tickets } := rfl
  rw [hw, he]

theorem ticketMut_eq {ε : Type} {f : Ticket → Except ε Ticket} (h : s.ticket id = some t) :
    s.ticketMut id f = some ((f t).map fun t' => s.modifyTicket id fun _ => t') := by
  have hgo (ts : List Ticket) (hf : ts.find? (·.id = id) = some t) : ticketMut.go id f ts =
      some ((f t).map fun t' => modifyTicket.go id (fun _ => t') ts) := by
    induction ts
    case nil => contradiction
    case cons t₁ ts hi =>
      by_cases he : t₁.id = id
      case pos =>
        have ht : t₁ = t := by simpa [he] using hf
        subst ht
        simp [ticketMut.go, modifyTicket.go, he]
      case neg =>
        rw [ticketMut.go, if_neg he, hi (by simpa [he] using hf)]
        cases f t <;> simp [modifyTicket.go, he, Except.map]
  rw [ticketMut, hgo s.tickets h]
  cases f t <;> rfl

end ProjectState

namespace ClaimRun

open ClaimsUseCase

variable {s s' : ProjectState} {id : TicketId} {t : Ticket} {req : Takeover} {back : Handback}
variable {canManage : Bool} {caller : String} {holder activeRunner : Option String}

-- Who may act on a claim: a manager or the account that holds it, while no runner is at work on it.
structure Entitled (canManage : Bool) (caller : String) (holder activeRunner : Option String) : Prop where
  authority : canManage ∨ ∃ held, holder = some held ∧ claimAccount held = caller
  idle      : ∀ held, holder = some held → activeRunner ≠ some held

-- A ticket that is held in progress, or is in the queue and held by nobody.
def Takeable (t : Ticket) : Prop :=
  (t.status = .inProgress ∧ t.claimedBy.isSome) ∨ (t.claimedBy = none ∧ claimable t)

def taken (req : Takeover) (t : Ticket) : Ticket :=
  { t with status := .inProgress, claimedBy := some req.worker, claimedAt := some req.now }

def handedBack (t : Ticket) : Ticket :=
  { t with status := finished t.kind, claimedBy := none, claimedAt := none }

-- What a decision makes of its ticket, and what it says of it in the activity log and in a comment.
structure Decision where
  done   : Ticket → Ticket
  action : String
  text   : Ticket → String

def takenOver (req : Takeover) : Decision where
  done   := taken req
  action := "took over the ticket"
  text t := s!"🧑‍💻 {req.id.asStr} taken over by @{req.caller}" ++
    match t.claimedBy with
    | some holder => s!" (was {holder})"
    | none        => ""

def givenBack (back : Handback) : Decision where
  done   := handedBack
  action := "handed back to the loop"
  text _ := s!"↩️ handed back to the loop: {back.note}" ++
    if back.branchRef = "" then "" else s!"\nbranch/commit: {back.branchRef}"

-- One ticket is changed, one activity and one comment are added, and the rest stays as it is.
structure Changed (s s' : ProjectState) (id : TicketId) (caller : String) (d : Decision) : Prop where
  ticket   : ∃ t l₁ l₂, t.id = id ∧ (∀ t₁ ∈ l₁, t₁.id ≠ id) ∧ s.tickets = l₁ ++ t :: l₂ ∧
               s'.tickets = l₁ ++ d.done t :: l₂
  activity : ∃ a, a.agent = caller ∧ a.action = d.action ∧ a.ticket = some id.asStr ∧
               s'.activity = newest maxActivity (s.activity ++ [a])
  comment  : ∃ c, c.author = "USER" ∧ (s.ticket id).map d.text = some c.body ∧ c.ticket = some id.asStr ∧
               s'.comments = newest maxComments (s.comments ++ [c])
  rest     : s' = { s with tickets := s'.tickets, activity := s'.activity, comments := s'.comments }

-- A decision that succeeds exactly on the tickets it may act on, and changes nothing where it is refused.
structure Exact {α : Type} (run : ClaimRun α) (s : ProjectState) (id : TicketId) (caller : String)
    (may : Ticket → Prop) (d : Decision) : Prop where
  succeeds : (∃ a s', run s = .ok a s') ↔ ∃ t, s.ticket id = some t ∧ may t
  refused  : ∀ e s', run s = .error e s' → s' = s
  success  : ∀ a s', run s = .ok a s' → Changed s s' id caller d

section Parts

theorem mayTouchClaim_iff : mayTouchClaim canManage caller holder ↔
    canManage ∨ ∃ held, holder = some held ∧ claimAccount held = caller := by
  cases holder <;> simp [mayTouchClaim]

theorem runnerBusy_eq_none : runnerBusy holder activeRunner = none ↔
    ∀ held, holder = some held → activeRunner ≠ some held := by
  cases holder
  case none      => simp [runnerBusy]
  case some held =>
    cases activeRunner
    case none        => simp [runnerBusy]
    case some runner => by_cases h : runner = held <;> simp [runnerBusy, h]

-- The check changes nothing.
theorem checkHolder_cases :
    Entitled canManage caller holder activeRunner ∧
      checkHolder canManage caller holder activeRunner s = .ok () s ∨
    ¬Entitled canManage caller holder activeRunner ∧
      ∃ e, checkHolder canManage caller holder activeRunner s = .error e s := by
  by_cases hm : mayTouchClaim canManage caller holder
  case neg =>
    refine .inr ⟨fun h => hm (mayTouchClaim_iff.mpr h.authority), .notPermitted, ?_⟩
    simp only [checkHolder, hm]
    rfl
  case pos =>
    cases hb : runnerBusy holder activeRunner
    case none =>
      refine .inl ⟨⟨mayTouchClaim_iff.mp hm, runnerBusy_eq_none.mp hb⟩, ?_⟩
      simp only [checkHolder, hm, hb]
      rfl
    case some why =>
      refine .inr ⟨fun h => ?_, .conflict why, ?_⟩
      · simp [runnerBusy_eq_none.mpr h.idle] at hb
      · simp only [checkHolder, hm, hb]
        rfl

theorem onTicket_ok {α : Type} {m : Mutator α} {a : α} {t' : Ticket} (h : s.ticket id = some t)
    (hm : m t = .ok a t') : onTicket id m s = .ok a (s.modifyTicket id fun _ => t') := by
  simp [onTicket, h, hm]

theorem onTicket_error {α : Type} {m : Mutator α} {e : DomainError} (h : s.ticket id = some t)
    (hm : m t = .error e t) : onTicket id m s = .error (.conflict e.display) s := by
  simp [onTicket, h, hm, ProjectState.modifyTicket_self h]

theorem transitionTo_inProgress (h : claimable t) : t.transitionTo .system .inProgress = .ok (t.enter .inProgress) := by
  have hs : transitionAllowed t.kind t.status .inProgress := by
    unfold claimable at h
    cases hk : t.kind <;> simp_all [transitionAllowed]
  simp [Ticket.transitionTo, Ticket.checkTransition, hs, canTransition]

theorem transitionTo_finished (h : t.status = .inProgress) :
    t.transitionTo .system (finished t.kind) = .ok (handedBack t) := by
  cases hk : t.kind
    <;> simp [Ticket.transitionTo, Ticket.checkTransition, Ticket.enter, handedBack, finished, hk, h,
      transitionAllowed, canTransition]

def takes (req : Takeover) (t : Ticket) : Except ClaimError Ticket :=
  if t.claimedBy.isSome then swap req t else claimFresh req t

-- Taking the ticket succeeds exactly if it can be taken.
theorem takes_cases : Takeable t ∧ takes req t = .ok (taken req t) ∨ ¬Takeable t ∧ ∃ e, takes req t = .error e := by
  unfold takes
  by_cases hc : t.claimedBy.isSome
  case pos =>
    rw [if_pos hc]
    by_cases hs : t.status = .inProgress
    case pos => exact .inl ⟨.inl ⟨hs, hc⟩, by simp [swap, Ticket.takeOver, hs, taken]⟩
    case neg =>
      refine .inr ⟨?_, by simp [swap, Ticket.takeOver, hs]⟩
      rintro (⟨hs', _⟩ | ⟨hn, _⟩)
      · exact hs hs'
      · simp [hn] at hc
  case neg =>
    have hn : t.claimedBy = none := Option.not_isSome_iff_eq_none.mp hc
    rw [if_neg hc]
    by_cases hq : claimable t
    case pos =>
      refine .inl ⟨.inr ⟨hn, hq⟩, ?_⟩
      simp [claimFresh, hq, Ticket.claim, hn, transitionTo_inProgress hq, Ticket.enter, taken]
    case neg =>
      refine .inr ⟨?_, by simp [claimFresh, hq]⟩
      rintro (⟨_, hc'⟩ | ⟨_, hq'⟩)
      · exact hc hc'
      · exact hq hq'

theorem take_eq (h : s.ticket req.id = some t) : take req t s =
    match takes req t with
    | .ok t'   => .ok t.claimedBy (s.modifyTicket req.id fun _ => t')
    | .error e => .error e s := by
  unfold take takes
  by_cases hc : t.claimedBy.isSome
  case pos =>
    rw [if_pos hc, if_pos hc, swap]
    cases hm : t.takeOver .system req.worker req.now
    case error e => exact onTicket_error h (by rw [Mutator.takeOver_eq, hm]; rfl)
    case ok p    =>
      have hp : p.1 = t.claimedBy := by
        obtain ⟨_, _, hb, _⟩ := Ticket.takeOver_ok hm
        exact hb
      exact onTicket_ok h (by rw [Mutator.takeOver_eq, hm, ← hp]; rfl)
  case neg =>
    have hn : t.claimedBy = none := Option.not_isSome_iff_eq_none.mp hc
    rw [if_neg hc, if_neg hc, claimFresh]
    by_cases hq : claimable t
    case neg =>
      simp only [hq]
      rfl
    case pos =>
      rw [if_neg (by simp [hq]), if_neg (by simp [hq]), hn]
      cases hm : t.claim .system req.worker req.now
      case error e =>
        have ho := onTicket_error h (by rw [Mutator.claim_eq, hm]; rfl : Mutator.claim .system req.worker req.now t = _)
        simp only [bind, EStateM.bind, ho]
      case ok t'   =>
        have ho := onTicket_ok h (by rw [Mutator.claim_eq, hm]; rfl : Mutator.claim .system req.worker req.now t = _)
        simp only [bind, EStateM.bind, ho]
        rfl

end Parts

section Decisions

theorem get_bind {α : Type} {f : ProjectState → ClaimRun α} : (get >>= f : ClaimRun α) s = f s s :=
  rfl

-- What a success adds to a state in which the ticket is changed.
theorem changed_of_trail {d : Decision} {loggedAt commentId postedAt : String} (h : s.ticket id = some t) :
    Changed s
      (((s.modifyTicket id fun _ => d.done t).logActivity loggedAt caller d.action (some id.asStr)).postComment
        commentId postedAt "USER" (d.text t) (some id.asStr)) id caller d where
  ticket   := by
    obtain ⟨l₁, l₂, hs, hid, hn, hm⟩ := @ProjectState.modifyTicket_split s id t (fun _ => d.done t) h
    exact ⟨t, l₁, l₂, hid, hn, hs, hm⟩
  activity := ⟨⟨loggedAt, caller, d.action, some id.asStr⟩, rfl, rfl, rfl, by
    simp only [ProjectState.postComment, ProjectState.logActivity, newest]
    rfl⟩
  comment  := ⟨{ id := commentId, postedAt, author := "USER", body := d.text t, ticket := some id.asStr }, rfl,
    by rw [h, Option.map_some], rfl, by
      simp only [ProjectState.postComment, ProjectState.logActivity, newest]
      rfl⟩
  rest     := by
    simp only [ProjectState.postComment, ProjectState.logActivity]
    rfl

theorem trail_eq : trail req t.claimedBy s =
    (s.logActivity req.loggedAt req.caller (takenOver req).action (some req.id.asStr)).postComment req.commentId
      req.postedAt "USER" ((takenOver req).text t) (some req.id.asStr) := by
  cases h : t.claimedBy <;> simp only [trail, takenOver, h, Option.elim]

theorem takeover_exact : Exact (takeoverInState req) s req.id req.caller
    (fun t => Entitled req.canManage req.caller t.claimedBy req.activeRunner ∧ Takeable t) (takenOver req) := by
  cases hv : s.ticket req.id
  case none =>
    have hr : takeoverInState req s = .error .notFound s := by
      rw [takeoverInState, get_bind]
      simp only [hv]
      rfl
    exact ⟨by simp [hr, hv], by simp [hr], by simp [hr]⟩
  case some t =>
    obtain ⟨he, hc⟩ | ⟨he, e, hc⟩ := @checkHolder_cases s req.canManage req.caller t.claimedBy req.activeRunner
    case inr =>
      have hr : takeoverInState req s = .error e s := by
        rw [takeoverInState, get_bind]
        simp only [bind, EStateM.bind, hv, hc]
      exact ⟨by simp [hr, hv, he], by simp [hr], by simp [hr]⟩
    case inl =>
      obtain ⟨ht, hk⟩ | ⟨ht, e, hk⟩ := @takes_cases t req
      case inr =>
        have hr : takeoverInState req s = .error e s := by
          rw [takeoverInState, get_bind]
          simp only [bind, EStateM.bind, hv, hc, take_eq hv, hk]
        exact ⟨by simp [hr, hv, ht], by simp [hr], by simp [hr]⟩
      case inl =>
        have hr : ∃ o, takeoverInState req s =
            .ok o (trail req t.claimedBy (s.modifyTicket req.id fun _ => taken req t)) := by
          rw [takeoverInState, get_bind]
          simp only [bind, EStateM.bind, hv, hc, take_eq hv, hk]
          exact ⟨_, rfl⟩
        obtain ⟨o, hr⟩ := hr
        refine ⟨by simp [hr, hv, he, ht], by simp [hr], fun a s' h => ?_⟩
        rw [hr] at h
        cases h
        rw [trail_eq]
        exact changed_of_trail (d := takenOver req) hv

theorem handback_exact : Exact (handbackInState back) s back.id back.caller
    (fun t => Entitled back.canManage back.caller t.claimedBy back.activeRunner ∧ t.status = .inProgress)
    (givenBack back) := by
  cases hv : s.ticket back.id
  case none =>
    have hr : handbackInState back s = .error .notFound s := by
      rw [handbackInState, get_bind]
      simp only [hv]
      rfl
    exact ⟨by simp [hr, hv], by simp [hr], by simp [hr]⟩
  case some t =>
    obtain ⟨he, hc⟩ | ⟨he, e, hc⟩ := @checkHolder_cases s back.canManage back.caller t.claimedBy back.activeRunner
    case inr =>
      have hr : handbackInState back s = .error e s := by
        rw [handbackInState, get_bind]
        simp only [bind, EStateM.bind, hv, hc]
      exact ⟨by simp [hr, hv, he], by simp [hr], by simp [hr]⟩
    case inl =>
      by_cases ht : t.status = .inProgress
      case neg =>
        have hr : ∃ e, handbackInState back s = .error e s := by
          rw [handbackInState, get_bind]
          simp only [bind, EStateM.bind, hv, hc, ne_eq, ht, not_false_eq_true, if_true]
          exact ⟨_, rfl⟩
        obtain ⟨e, hr⟩ := hr
        exact ⟨by simp [hr, hv, ht], by simp [hr], by simp [hr]⟩
      case pos =>
        have hm : Mutator.transitionTo .system (finished t.kind) t = .ok () (handedBack t) := by
          rw [Mutator.transitionTo_eq, transitionTo_finished ht]
          rfl
        have ho := onTicket_ok hv hm
        have hr : ∃ o, handbackInState back s = .ok o
            (((s.modifyTicket back.id fun _ => handedBack t).logActivity back.loggedAt back.caller
              "handed back to the loop" (some back.id.asStr)).postComment back.commentId back.postedAt "USER"
              (handbackBody back) (some back.id.asStr)) := by
          rw [handbackInState, get_bind]
          simp only [bind, EStateM.bind, hv, hc, ne_eq, ht, not_true_eq_false, if_false, ho]
          exact ⟨_, rfl⟩
        obtain ⟨o, hr⟩ := hr
        refine ⟨by simp [hr, hv, he, ht], by simp [hr], fun a s' h => ?_⟩
        rw [hr] at h
        cases h
        exact changed_of_trail (d := givenBack back) hv

-- The writes of a takeover are those of the decision that yields the next state or an error.
theorem takeoverInState_eq : takeoverInState req s =
    match ClaimsUseCase.takeoverInState req s with
    | .ok (o, s') => .ok o s'
    | .error e    => .error e s := by
  cases hv : s.ticket req.id
  case none =>
    rw [takeoverInState, get_bind]
    simp only [ClaimsUseCase.takeoverInState, hv]
    rfl
  case some t =>
    rw [takeoverInState, get_bind]
    unfold ClaimsUseCase.takeoverInState
    simp only [bind, EStateM.bind, hv]
    by_cases hm : mayTouchClaim req.canManage req.caller t.claimedBy
    case neg =>
      simp only [checkHolder, hm]
      rfl
    case pos =>
      cases hb : runnerBusy t.claimedBy req.activeRunner
      case some why =>
        simp only [checkHolder, hm, hb]
        rfl
      case none =>
        have hc : checkHolder req.canManage req.caller t.claimedBy req.activeRunner s = .ok () s := by
          simp only [checkHolder, hm, hb]
          rfl
        have ht : (if t.claimedBy.isSome then swap req else claimFresh req) t = takes req t := by
          unfold takes
          split <;> rfl
        simp only [hc, hm, take_eq hv, ProjectState.ticketMut_eq hv, ht]
        cases takes req t <;> rfl

-- Both decisions are exact.
theorem claims_exact (req : Takeover) (back : Handback) (s : ProjectState) :
    Exact (takeoverInState req) s req.id req.caller
      (fun t => Entitled req.canManage req.caller t.claimedBy req.activeRunner ∧ Takeable t) (takenOver req) ∧
    Exact (handbackInState back) s back.id back.caller
      (fun t => Entitled back.canManage back.caller t.claimedBy back.activeRunner ∧ t.status = .inProgress)
      (givenBack back) :=
  ⟨takeover_exact, handback_exact⟩

end Decisions
end ClaimRun
