import CoxAgent.Cycle.ShipTruth

-- Which tickets the check moves.

section Named

-- The place is in a word, or behind the alias and the dash of a longer id.
def gluedBefore (l : List Char) : Bool :=
  match l.reverse with
  | '-' :: c :: _ => c.isUpper || c.isDigit
  | c :: _        => c.isAlphanum
  | []            => false

-- The text has the id at a place where it is not part of a longer one.
def NamesExactly (text id : String) : Prop :=
  ∃ n ∈ List.range (text.length + 1), id.toList <+: text.toList.drop n ∧ !gluedBefore (text.toList.take n) ∧
    !(text.toList.drop (n + id.length)).head?.any (·.isAlphanum)

instance {text id : String} : Decidable (NamesExactly text id) := by
  unfold NamesExactly
  infer_instance

theorem contains_of_namesExactly {text id : String} (h : NamesExactly text id) : Text.contains text id := by
  have ⟨n, _, hp, _⟩ := h
  rw [Text.contains_iff]
  exact hp.isInfix.trans (List.drop_suffix n _).isInfix

-- A commit of the history or an open pull request names the ticket.
def NamedOnBase (history : List String) (prs : List PrOpen) (id : String) : Prop :=
  (∃ message ∈ history, NamesExactly message id) ∨
    ∃ pr ∈ prs, NamesExactly pr.title id ∨ NamesExactly pr.head id

-- One of them has the id somewhere, if only as a part of something longer.
def OccursOnBase (history : List String) (prs : List PrOpen) (id : String) : Prop :=
  (∃ message ∈ history, Text.contains message id) ∨
    ∃ pr ∈ prs, Text.contains pr.title id ∨ Text.contains pr.head id

variable {history : List String} {prs : List PrOpen} {id : String}

instance : Decidable (NamedOnBase history prs id) := by
  unfold NamedOnBase
  infer_instance

instance : Decidable (OccursOnBase history prs id) := by
  unfold OccursOnBase
  infer_instance

theorem occurs_of_named (h : NamedOnBase history prs id) : OccursOnBase history prs id := by
  refine h.imp ?_ ?_
  case refine_1 => exact fun ⟨m, hm, hn⟩ => ⟨m, hm, contains_of_namesExactly hn⟩
  case refine_2 =>
    exact fun ⟨pr, hpr, hn⟩ => ⟨pr, hpr, hn.imp contains_of_namesExactly contains_of_namesExactly⟩

end Named

section Demote

open ProjectState

variable {id : TicketId} {t : Ticket} {ts : List Ticket} {i : Nat}

-- The ticket after the transition of the check, if it is allowed.
def demoted (t : Ticket) : Ticket :=
  match t.transitionTo .system (demotion t.status) with
  | .ok t    => t
  | .error _ => t

-- The moves of the check out of a status.
def demotedStatus (kind : TicketType) (status : Status) : Status :=
  if kind = .bug then
    if status = .verified then .open else status
  else
    if status ∈ [.ready, .onHold, .done, .documented] then .pending else status

theorem demoted_spec : (demoted t).id = t.id ∧ (demoted t).kind = t.kind ∧
    (demoted t).status = demotedStatus t.kind t.status := by
  unfold demoted Ticket.transitionTo Ticket.checkTransition demotion demotedStatus
  cases hk : t.kind <;> cases hs : t.status <;>
    simp [transitionAllowed, canTransition, Ticket.enter, hk, hs]

theorem demotedStatus_idem {kind : TicketType} {status : Status} :
    demotedStatus kind (demotedStatus kind status) = demotedStatus kind status := by
  cases kind <;> cases status <;> rfl

theorem demotedStatus_ne_iff {kind : TicketType} {status : Status} : demotedStatus kind status ≠ status ↔
    if kind = .bug then status = .verified else status ∈ [.ready, .onHold, .done, .documented] := by
  cases kind <;> cases status <;> simp [demotedStatus]

-- No earlier ticket has the id.
def IsFirst (ts : List Ticket) (i : Nat) (id : TicketId) : Prop :=
  ∀ t ∈ ts.take i, t.id ≠ id

instance : Decidable (IsFirst ts i id) := by
  unfold IsFirst
  infer_instance

theorem isFirst_iff_not_mem : IsFirst ts i id ↔ id ∉ (ts.map (·.id)).take i := by
  rw [IsFirst, ← List.map_take, List.mem_map]
  grind

theorem map_id_demoted : (modifyTicket.go id demoted ts).map (·.id) = ts.map (·.id) := by
  induction ts
  case nil          => rfl
  case cons t ts hi =>
    rw [modifyTicket.go]
    split
    case isTrue  => rw [List.map_cons, List.map_cons, demoted_spec.1]
    case isFalse => rw [List.map_cons, List.map_cons, hi]

theorem getElem?_demoted : (modifyTicket.go id demoted ts)[i]? =
    ts[i]?.map fun t => if t.id = id ∧ IsFirst ts i id then demoted t else t := by
  induction ts generalizing i
  case nil          => rfl
  case cons t ts hi =>
    rw [modifyTicket.go]
    cases i
    case zero   => grind [IsFirst]
    case succ i => grind [IsFirst]

theorem isFirst_demoted {id' : TicketId} : IsFirst (modifyTicket.go id demoted ts) i id' ↔ IsFirst ts i id' := by
  rw [isFirst_iff_not_mem, isFirst_iff_not_mem, map_id_demoted]

-- A second demotion changes nothing, so that the repetitions in the list do not count.
theorem status_foldl_demoted {ids : List TicketId} :
    (ids.foldl (fun ts id => modifyTicket.go id demoted ts) ts)[i]?.map (·.status) = ts[i]?.map fun t =>
      if t.id ∈ ids ∧ IsFirst ts i t.id then demotedStatus t.kind t.status else t.status := by
  induction ids generalizing ts
  case nil            => simp
  case cons id ids hi =>
    rw [List.foldl_cons, hi, getElem?_demoted, Option.map_map]
    apply Option.map_congr
    intro t ht
    have ⟨hid, hkind, hstatus⟩ := demoted_spec (t := t)
    by_cases h : t.id = id ∧ IsFirst ts i id
    case pos =>
      simp only [Function.comp_apply, if_pos h, hid, hkind, hstatus, isFirst_demoted, demotedStatus_idem, ite_self]
      rw [if_pos ⟨h.1 ▸ List.mem_cons_self, h.1 ▸ h.2⟩]
    case neg =>
      have hne : IsFirst ts i t.id → t.id ≠ id := fun hf he => h ⟨he, he ▸ hf⟩
      simp only [Function.comp_apply, if_neg h, isFirst_demoted, List.mem_cons]
      grind

end Demote

namespace ProjectState

variable {io : ShipTruthIo} {branch now : String} {s loaded stored : ProjectState} {id : TicketId} {i : Nat}

-- Where the transition is refused, the list is as before.
theorem ticketMut_go_demoted {ts : List Ticket} :
    (match ticketMut.go id (fun t => t.transitionTo .system (demotion t.status)) ts with
      | some (.ok ts) => ts
      | _             => ts) = modifyTicket.go id demoted ts := by
  induction ts
  case nil          => rfl
  case cons t ts hi =>
    rw [ticketMut.go, modifyTicket.go]
    by_cases h : t.id = id
    case pos =>
      rw [if_pos h, if_pos h, demoted]
      cases t.transitionTo .system (demotion t.status) <;> rfl
    case neg =>
      rw [if_neg h, if_neg h, ← hi]
      rcases ticketMut.go id _ ts with _ | _ | ts' <;> rfl

theorem tickets_reopenGhost : (reopenGhost now s id).tickets = modifyTicket.go id demoted s.tickets := by
  rw [← ticketMut_go_demoted, reopenGhost, ticketMut]
  rcases ticketMut.go id _ s.tickets with _ | _ | ts <;> rfl

theorem tickets_foldl_reopenGhost {ids : List TicketId} : (ids.foldl (reopenGhost now) s).tickets =
    ids.foldl (fun ts id => modifyTicket.go id demoted ts) s.tickets := by
  induction ids generalizing s
  case nil            => rfl
  case cons id ids hi => rw [List.foldl_cons, hi, tickets_reopenGhost, List.foldl_cons]

theorem tickets_postComment {id author body : String} {ticket : Option String} :
    (s.postComment id now author body ticket).tickets = s.tickets := by
  rw [postComment]

-- The check gets as far as its edit.
def Sweeps (io : ShipTruthIo) (loaded : ProjectState) : Prop :=
  io.git ∧ io.loads ∧ loaded.dailyJobs.get? "ship_truth" ≠ some io.today ∧ io.fetches ∧ ¬io.edit.fails

instance : Decidable (Sweeps io loaded) := by
  unfold Sweeps
  infer_instance

-- The id was shipped at the load, and git found nothing that has it as a part.
@[mk_iff]
structure Suspect (io : ShipTruthIo) (loaded : ProjectState) (id : TicketId) : Prop where
  sweeps  : Sweeps io loaded
  shipped : ∃ t ∈ loaded.tickets, t.id = id ∧ isShipped t.status
  greps   : io.greps id.asStr
  absent  : ¬OccursOnBase io.history loaded.openPrs id.asStr

instance : Decidable (Suspect io loaded id) :=
  decidable_of_iff' _ (suspect_iff io loaded id)

theorem mem_ghosts : id ∈ loaded.ghosts io ↔ (∃ t ∈ loaded.tickets, t.id = id ∧ isShipped t.status) ∧
    io.greps id.asStr ∧ ¬OccursOnBase io.history loaded.openPrs id.asStr := by
  simp only [ghosts, OccursOnBase, inFlight, List.mem_filter, List.mem_map]
  grind

-- Where a ticket of the stored state is after the check.
theorem status_shipTruthSweep : (shipTruthSweep io branch loaded stored).tickets[i]?.map (·.status) =
    stored.tickets[i]?.map fun t =>
      if Suspect io loaded t.id ∧ IsFirst stored.tickets i t.id then demotedStatus t.kind t.status
      else t.status := by
  by_cases h : Sweeps io loaded
  case neg =>
    have hif : shipTruthSweep io branch loaded stored = stored := if_pos (by grind [Sweeps])
    rw [hif]
    exact Option.map_congr fun t _ => (if_neg fun hs => h hs.1.sweeps).symm
  case pos =>
    have ht : (shipTruthSweep io branch loaded stored).tickets =
        (loaded.ghosts io).foldl (fun ts id => modifyTicket.go id demoted ts) stored.tickets := by
      rw [shipTruthSweep, if_neg (by grind [Sweeps])]
      dsimp only
      split
      case isTrue  => exact tickets_foldl_reopenGhost.trans (congrArg _ rfl)
      case isFalse => exact tickets_postComment.trans (tickets_foldl_reopenGhost.trans (congrArg _ rfl))
    rw [ht, status_foldl_demoted]
    simp only [mem_ghosts, suspect_iff, h, true_and]

-- The check has moved a ticket of the stored state.
def MovedBy (io : ShipTruthIo) (branch : String) (loaded stored : ProjectState) (i : Nat) (t : Ticket) : Prop :=
  (shipTruthSweep io branch loaded stored).tickets[i]?.map (·.status) ≠ some t.status

-- Shipped by its status, while nothing on the base branch or under review names it.
def IsGhost (io : ShipTruthIo) (stored : ProjectState) (t : Ticket) : Prop :=
  isShipped t.status ∧ ¬NamedOnBase io.history stored.openPrs t.id.asStr

theorem movedBy_iff {t : Ticket} (ht : stored.tickets[i]? = some t) : MovedBy io branch loaded stored i t ↔
    Suspect io loaded t.id ∧ IsFirst stored.tickets i t.id ∧
      if t.kind = .bug then t.status = .verified else t.status ∈ [.ready, .onHold, .done, .documented] := by
  rw [MovedBy, status_shipTruthSweep, ht, Option.map_some, ne_eq, Option.some_inj, ← demotedStatus_ne_iff,
    ← and_assoc]
  grind

theorem openPrs_move {m : TicketMove} : (s.move m).openPrs = s.openPrs := by
  rw [move, ticketMut]
  rcases ticketMut.go m.id _ s.tickets with _ | _ | ts <;> rfl

theorem openPrs_foldl_move {moves : List TicketMove} : (moves.foldl move s).openPrs = s.openPrs := by
  induction moves generalizing s
  case nil             => rfl
  case cons m moves hi => rw [List.foldl_cons, hi, openPrs_move]

-- The check moves the ghosts and nothing else.
def GhostsReopened (io : ShipTruthIo) (branch : String) (loaded stored : ProjectState) : Prop :=
  ∀ i t, stored.tickets[i]? = some t → (MovedBy io branch loaded stored i t ↔ IsGhost io stored t)

-- What was found at the load still fits the ticket of the stored state.
structure StillFits (io : ShipTruthIo) (loaded stored : ProjectState) (i : Nat) (t : Ticket) : Prop where
  found : IsGhost io stored t →
            Suspect io loaded t.id ∧ IsFirst stored.tickets i t.id ∧ (t.kind = .bug ↔ t.status = .verified)
  fresh : Suspect io loaded t.id → IsFirst stored.tickets i t.id → t.kind ≠ .bug →
            t.status ≠ .ready ∧ t.status ≠ .onHold

theorem movedBy_iff_isGhost {t : Ticket} (hp : stored.openPrs = loaded.openPrs) (ht : stored.tickets[i]? = some t) :
    (MovedBy io branch loaded stored i t ↔ IsGhost io stored t) ↔ StillFits io loaded stored i t := by
  rw [movedBy_iff ht]
  constructor
  case mp =>
    intro h
    constructor
    case found =>
      intro hg
      have ⟨hs, hf, hk⟩ := h.mpr hg
      have hshipped := hg.1
      simp only [isShipped, List.mem_cons, List.not_mem_nil, decide_eq_true_eq] at hshipped
      exact ⟨hs, hf, by grind⟩
    case fresh =>
      intro hs hf hk
      have hshipped (hr : t.status ∈ [.ready, .onHold, .done, .documented]) : isShipped t.status :=
        (h.mp ⟨hs, hf, (if_neg hk).mpr hr⟩).1
      constructor <;> intro he <;> simp [he, isShipped] at hshipped
  case mpr =>
    intro h
    constructor
    case mp =>
      intro ⟨hs, hf, hk⟩
      have hnamed : ¬NamedOnBase io.history stored.openPrs t.id.asStr := fun hn =>
        hs.absent (hp ▸ occurs_of_named hn)
      have hfresh := h.fresh hs hf
      refine ⟨?_, hnamed⟩
      simp only [isShipped, List.mem_cons, List.not_mem_nil, decide_eq_true_eq]
      grind
    case mpr =>
      intro hg
      have ⟨hs, hf, hk⟩ := h.found hg
      have hshipped := hg.1
      simp only [isShipped, List.mem_cons, List.not_mem_nil, decide_eq_true_eq] at hshipped
      exact ⟨hs, hf, by grind⟩

-- The transitions of the others leave the list of the open pull requests as it is.
theorem ghosts_reopened_iff (io : ShipTruthIo) (branch : String) (loaded : ProjectState) (moves : List TicketMove) :
    GhostsReopened io branch loaded (moves.foldl move loaded) ↔
      ∀ i t, (moves.foldl move loaded).tickets[i]? = some t →
        StillFits io loaded (moves.foldl move loaded) i t :=
  forall_congr' fun _ => forall_congr' fun _ => forall_congr' fun ht => movedBy_iff_isGhost openPrs_foldl_move ht

section Fails

-- The first feature has not landed. A commit names the other, whose id is longer.
def shadowedTicket : Ticket :=
  { id := ⟨"F100"⟩, kind := .feature, title := "Export", status := .done }

def shadowingTicket : Ticket :=
  { id := ⟨"F1000"⟩, kind := .feature, title := "Import", status := .documented }

def shadowedBoard : ProjectState :=
  { tickets := [shadowedTicket, shadowingTicket] }

def shadowedIo : ShipTruthIo :=
  { today := "2026-03-01", history := ["feat(F1000): add the import"] }

theorem not_ghosts_reopened :
    Sweeps shadowedIo shadowedBoard ∧ ¬GhostsReopened shadowedIo "main" shadowedBoard ([].foldl move shadowedBoard) := by
  refine ⟨by decide, fun h => ?_⟩
  have hghost : IsGhost shadowedIo shadowedBoard shadowedTicket := ⟨rfl, by decide +kernel⟩
  have hmoved := (movedBy_iff rfl).mp ((h 0 shadowedTicket rfl).mpr hghost)
  exact hmoved.1.absent (by decide +kernel)

end Fails

end ProjectState
