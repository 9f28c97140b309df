import CoxAgent.Backlog.Theorems.AddTicket
import CoxAgent.Lib.Run
import CoxAgent.Sprint.Theorems.Drive
import CoxAgent.Sprint.Theorems.RollOver

namespace ProjectState

variable {s s' : ProjectState} {l l' : List TicketId} {id : TicketId} {q : List PlannedSprint}

def OnBoard (s : ProjectState) (id : TicketId) : Prop :=
  ∃ t ∈ s.tickets, t.id = id

-- A list of tickets of the board, each of them once.
structure Listed (s : ProjectState) (l : List TicketId) : Prop where
  nodup   : l.Nodup
  onBoard : ∀ id ∈ l, s.OnBoard id

def lastNumber (s : ProjectState) : Nat :=
  s.sprint.elim 0 (·.number)

-- The books of the sprints: what is committed and planned, and the numbers of what is over.
structure Bookkept (s : ProjectState) : Prop where
  unique  : (s.tickets.map (·.id)).Nodup
  scope   : s.Listed s.committed
  plans   : ∀ p ∈ s.sprintQueue, s.Listed p.tickets
  planIds : (s.sprintQueue.map (·.id)).Nodup
  counted : s.sprint.isSome → 0 < s.lastNumber
  numbers : s.sprints.map (·.number) = List.range' 1 (s.lastNumber - 1)

-- What an operation leaves that reports no change.
structure SameBooks (s s' : ProjectState) : Prop where
  scope   : s'.committed = s.committed
  queue   : s'.sprintQueue = s.sprintQueue
  history : s'.sprints = s.sprints

theorem SameBooks.refl : s.SameBooks s :=
  ⟨rfl, rfl, rfl⟩

theorem onBoard_iff : s.OnBoard id ↔ id ∈ s.tickets.map (·.id) :=
  List.mem_map.symm

theorem onBoard_of_isSome (h : (s.ticket id).isSome) : s.OnBoard id := by
  have ⟨t, ht⟩ := Option.isSome_iff_exists.mp h
  exact ⟨t, ticket_mem ht⟩

-- An operation that changes no id keeps the books, and it leaves them alone when it reports no change.
structure Books (s : ProjectState) (changed : Bool) (s' : ProjectState) : Prop where
  kept : s'.Bookkept
  ids  : s'.tickets.map (·.id) = s.tickets.map (·.id)
  same : changed = false → s.SameBooks s'

namespace Listed

theorem congr (h : s.Listed l) (hi : s'.tickets.map (·.id) = s.tickets.map (·.id)) : s'.Listed l where
  nodup         := h.nodup
  onBoard id hm := onBoard_iff.mpr (hi ▸ onBoard_iff.mp (h.onBoard id hm))

theorem nil : s.Listed [] :=
  ⟨List.nodup_nil, by simp⟩

theorem filter {p : TicketId → Bool} (h : s.Listed l) : s.Listed (l.filter p) where
  nodup         := h.nodup.filter p
  onBoard id hm := h.onBoard id (List.mem_of_mem_filter hm)

theorem append (h : s.Listed l) (h' : s.Listed l') (hd : ∀ id ∈ l', id ∉ l) : s.Listed (l ++ l') where
  nodup         := h.nodup.append h'.nodup fun _ hl hl' => hd _ hl' hl
  onBoard id hm := (List.mem_append.mp hm).elim (h.onBoard id) (h'.onBoard id)

theorem singleton (h : s.OnBoard id) : s.Listed [id] :=
  ⟨List.nodup_singleton id, fun _ hm => List.mem_singleton.mp hm ▸ h⟩

theorem retainNew (h : ∀ id ∈ l, s.OnBoard id) : s.Listed (Lists.retainNew l) :=
  ⟨Lists.nodup_retainNew, fun id hm => h id (Lists.mem_retainNew.mp hm)⟩

theorem openBacklog {floor : Option Priority} (hu : (s.tickets.map (·.id)).Nodup) :
    s.Listed (s.openBacklog floor) where
  nodup        := nodup_openBacklog hu
  onBoard _ hm :=
    have ⟨t, ht, he, _⟩ := mem_openBacklog hm
    ⟨t, ht, he⟩

end Listed

namespace Bookkept

theorem refl (h : s.Bookkept) {changed : Bool} : s.Books changed s :=
  ⟨h, rfl, fun _ => .refl⟩

-- The books are made of these fields.
theorem congr (h : s.Bookkept) (hi : s'.tickets.map (·.id) = s.tickets.map (·.id))
    (hs : s'.sprint = s.sprint) (hh : s'.sprints = s.sprints) (hq : s'.sprintQueue = s.sprintQueue) :
    s'.Bookkept where
  unique       := hi ▸ h.unique
  scope        := by
    rw [committed, hs]
    exact h.scope.congr hi
  plans p hp   := (h.plans p (hq ▸ hp)).congr hi
  planIds      := hq ▸ h.planIds
  counted      := by
    rw [lastNumber, hs]
    exact h.counted
  numbers      := by
    rw [lastNumber, hs, hh]
    exact h.numbers

section Scope

variable {f : List TicketId → List TicketId}

theorem lastNumber_modifyCommitted : (s.modifyCommitted f).lastNumber = s.lastNumber := by
  unfold lastNumber modifyCommitted
  cases s.sprint <;> rfl

theorem modifyCommitted (h : s.Bookkept) (hf : s.sprint.isSome → s.Listed (f s.committed)) :
    (s.modifyCommitted f).Bookkept where
  unique  := h.unique
  scope   := by
    by_cases hs : s.sprint.isSome
    case pos =>
      rw [committed_modifyCommitted hs]
      exact (hf hs).congr rfl
    case neg =>
      have hn : s.sprint = none := by simpa using hs
      have hc : (s.modifyCommitted f).committed = [] := by
        rw [ProjectState.modifyCommitted, committed, hn]
        rfl
      exact hc ▸ .nil
  plans   := fun p hp => (h.plans p hp).congr rfl
  planIds := h.planIds
  counted := by
    rw [lastNumber_modifyCommitted, sprint_modifyCommitted]
    exact h.counted
  numbers := by
    rw [lastNumber_modifyCommitted]
    exact h.numbers

-- The scope is rewritten, or it stays.
theorem books_modifyCommitted {changed : Bool} (h : s.Bookkept)
    (hf : s.sprint.isSome → s.Listed (f s.committed))
    (hc : changed = false → f s.committed = s.committed) : s.Books changed (s.modifyCommitted f) where
  kept    := h.modifyCommitted hf
  ids     := rfl
  same he := by
    rw [modifyCommitted_eq_self (hc he)]
    exact .refl

end Scope

theorem withQueue (h : s.Bookkept) (hp : ∀ p ∈ q, s.Listed p.tickets) (hn : (q.map (·.id)).Nodup) :
    { s with sprintQueue := q }.Bookkept where
  unique  := h.unique
  scope   := h.scope.congr rfl
  plans   := fun p hm => (hp p hm).congr rfl
  planIds := hn
  counted := h.counted
  numbers := h.numbers

-- A plan is rewritten, or the queue stays.
theorem books_queue {changed : Bool} (h : s.Bookkept) (hp : ∀ p ∈ q, s.Listed p.tickets)
    (hn : (q.map (·.id)).Nodup) (hc : changed = false → q = s.sprintQueue) :
    s.Books changed { s with sprintQueue := q } where
  kept    := h.withQueue hp hn
  ids     := rfl
  same he := ⟨rfl, hc he, rfl⟩

section RollOver

variable {now : String} {cycle length : Nat} {floor : Option Priority}

theorem listed_nextCommitted {planned : Option PlannedSprint} (hu : (s.tickets.map (·.id)).Nodup)
    (hp : ∀ p ∈ planned, p.tickets.Nodup) : s.Listed (s.nextCommitted floor planned) where
  nodup         := nodup_nextCommitted hu hp
  onBoard id hm := by
    obtain he | ⟨p, _, he⟩ := @nextCommitted_cases s floor planned
    case inl => exact (Listed.openBacklog hu).onBoard id (he ▸ hm)
    case inr =>
      obtain ⟨_, hs⟩ := List.mem_filter.mp (he ▸ hm)
      rw [stillPlanned, Option.any_eq_true] at hs
      obtain ⟨t, ht, _⟩ := hs
      exact onBoard_of_isSome (by simp [ht])

theorem rollOver_numbers (h : s.Bookkept) : (s.archiveSprint now).sprints.map (·.number) =
    List.range' 1 s.lastNumber := by
  cases hs : s.sprint
  case none =>
    have hn : s.lastNumber = 0 := by rw [lastNumber, hs, Option.elim_none]
    have hb := h.numbers
    simp only [archiveSprint, hs]
    rw [hb, hn]
  case some sprint =>
    have hn : s.lastNumber = sprint.number := by rw [lastNumber, hs, Option.elim_some]
    have hb := h.numbers
    have hp : 0 < sprint.number := hn ▸ h.counted (by rw [hs]; rfl)
    simp only [archiveSprint, hs, List.map_append, List.map_singleton]
    obtain ⟨n, he⟩ := Nat.exists_eq_succ_of_ne_zero (Nat.ne_of_gt hp)
    rw [hb, hn, he, Nat.succ_sub_one, List.range'_1_concat, Nat.add_comm 1 n]

theorem rollOver (h : s.Bookkept) : (s.rollOver now cycle length floor).2.Bookkept where
  unique       := by
    change ((s.betweenSprints now).tickets.map (·.id)).Nodup
    rw [tickets_betweenSprints]
    exact h.unique
  scope        := by
    have hu : ((s.betweenSprints now).tickets.map (·.id)).Nodup := by
      rw [tickets_betweenSprints]
      exact h.unique
    have hl := @listed_nextCommitted (s.betweenSprints now) floor s.sprintQueue.head? hu fun p hp =>
      (h.plans p (List.mem_of_head? hp)).nodup
    rw [rollOver_committed]
    exact hl.congr rfl
  plans p hp   := (h.plans p (List.mem_of_mem_tail hp)).congr (by
    change (s.betweenSprints now).tickets.map (·.id) = _
    rw [tickets_betweenSprints])
  planIds      := h.planIds.sublist ((List.tail_sublist _).map _)
  counted _    := Nat.succ_pos _
  numbers      := h.rollOver_numbers

theorem books_rollOver {changed : Bool} (h : s.Bookkept) (hc : changed = true) :
    s.Books changed (s.rollOver now cycle length floor).2 where
  kept    := h.rollOver
  ids     := by
    change (s.betweenSprints now).tickets.map (·.id) = _
    rw [tickets_betweenSprints]
  same he := by
    rw [hc] at he
    contradiction

end RollOver

section Operations

variable {now : String} {cycle : Nat}

theorem advance {c : SprintClock} {policy : SprintPolicy} (h : s.Bookkept) :
    s.Books (s.advance c cycle policy).1.isSome (s.advance c cycle policy).2 := by
  unfold ProjectState.advance
  split
  case isTrue  => exact h.books_rollOver rfl
  case isFalse => exact h.refl

theorem closeNow (h : s.Bookkept) :
    s.Books (s.closeNow now cycle).1.isSome (s.closeNow now cycle).2 := by
  unfold ProjectState.closeNow
  split
  case h_1 => exact h.refl
  case h_2 => exact h.books_rollOver rfl

-- One more ticket of the board that was not committed.
theorem commitOne (h : s.Bookkept) (hb : s.OnBoard id) (hn : id ∉ s.committed) :
    s.Books true (s.modifyCommitted (· ++ [id])) :=
  h.books_modifyCommitted (fun _ => h.scope.append (.singleton hb) (by simpa using hn)) (by simp)

theorem commitTicket (h : s.Bookkept) : s.Books (s.commitTicket id).1 (s.commitTicket id).2 := by
  unfold ProjectState.commitTicket
  split
  case isTrue => exact h.refl
  case isFalse hc =>
    simp only [not_or] at hc
    exact h.commitOne (onBoard_of_isSome (Option.isSome_iff_ne_none.mpr hc.1)) hc.2.2

theorem uncommitTicket (h : s.Bookkept) : s.Books (s.uncommitTicket id).1 (s.uncommitTicket id).2 := by
  refine h.books_modifyCommitted (fun _ => h.scope.filter) fun hc => ?_
  have hl : (s.modifyCommitted (·.filter (· ≠ id))).committed.length = s.committed.length := by
    simpa [ProjectState.uncommitTicket] using hc
  by_cases hs : s.sprint.isSome
  case pos =>
    rw [committed_modifyCommitted hs] at hl
    exact List.filter_sublist.eq_of_length hl
  case neg =>
    have hn : s.sprint = none := by simpa using hs
    rw [committed, hn]
    rfl

theorem books_pull {pick : Option TicketId} (h : s.Bookkept)
    (hp : ∀ id ∈ pick, s.OnBoard id ∧ id ∉ s.committed) :
    s.Books (decide ((s.pull pick).1 ≠ 0)) (s.pull pick).2 := by
  unfold pull
  split
  case h_1 id _ _ => exact h.commitOne (hp id rfl).1 (hp id rfl).2
  case h_2        => exact h.refl

theorem reserveFeature (h : s.Bookkept) :
    s.Books (decide (s.reserveFeature.1 ≠ 0)) s.reserveFeature.2 := by
  unfold ProjectState.reserveFeature
  split
  case isTrue => exact h.refl
  case isFalse =>
    refine h.books_pull fun id hm => ?_
    have ⟨t, hf, he⟩ := Option.map_eq_some_iff.mp hm
    have hp := List.find?_some hf
    simp only [decide_eq_true_eq] at hp
    exact ⟨⟨t, List.mem_of_find?_eq_some hf, he⟩, he ▸ hp.2⟩

theorem onBoard_of_workable (h : id ∈ s.workable) : s.OnBoard id := by
  simp only [workable, List.mem_append, readyFeatureCandidates, openBugCandidates, mem_candidates] at h
  cases h
  case inl h =>
    obtain ⟨t, ht, he, _⟩ := h
    exact ⟨t, ht, he⟩
  case inr h =>
    obtain ⟨t, ht, he, _⟩ := h
    exact ⟨t, ht, he⟩

theorem refillEmptyScope (h : s.Bookkept) :
    s.Books (decide (s.refillEmptyScope.1 ≠ 0)) s.refillEmptyScope.2 := by
  unfold ProjectState.refillEmptyScope
  split
  case isTrue he =>
    refine @books_modifyCommitted s (fun _ => s.openBacklog s.activeBugBurnFloor) _ h
      (fun _ => .openBacklog h.unique) fun hc => ?_
    have hb : s.openBacklog s.activeBugBurnFloor = [] := by simpa using hc
    have hn : s.committed = [] := by
      unfold committed
      cases hs : s.sprint
      case none   => rfl
      case some _ => simpa [hs] using he
    rw [hb, hn]
  case isFalse =>
    split
    case isTrue => exact h.reserveFeature
    case isFalse =>
      split
      case h_2 => exact h.reserveFeature
      case h_1 id _ hf _ =>
        have hn := List.find?_some hf
        exact h.commitOne (onBoard_of_workable (List.mem_of_find?_eq_some hf)) (by simpa using hn)

-- The committed tickets are a set already, so that only the picks change it.
theorem topUpScope {l : Letters} {floor : Nat} (h : s.Bookkept) :
    s.Books (decide ((s.topUpScope l floor).1 ≠ 0)) (s.topUpScope l floor).2 := by
  have hr : s.modifyCommitted Lists.retainNew = s :=
    modifyCommitted_eq_self (Lists.retainNew_eq h.scope.nodup)
  cases hs : s.sprint
  case none =>
    simp only [ProjectState.topUpScope, hr, hs]
    exact h.refl
  case some sprint =>
    simp only [ProjectState.topUpScope, hr, hs]
    split
    case isTrue => exact h.refl
    case isFalse =>
      have hc : s.committed = sprint.committed := by
        rw [committed, hs]
        rfl
      have hp (id) (hm : id ∈ (s.ranked l sprint).take (floor - s.actionable sprint.committed)) :
          s.OnBoard id ∧ id ∉ s.committed := by
        have hm := ranked_perm.mem_iff.mp (List.mem_of_mem_take hm)
        obtain ⟨t, ht, he⟩ := List.mem_map.mp hm
        obtain ⟨ht, hp⟩ := List.mem_filter.mp ht
        rw [Sprint.eligible, decide_eq_true_eq] at hp
        exact ⟨⟨t, ht, he⟩, hc ▸ he ▸ hp.1⟩
      have hn : ((s.ranked l sprint).take (floor - s.actionable sprint.committed)).Nodup := by
        refine List.Nodup.sublist (List.take_sublist _ _) (ranked_perm.nodup_iff.mpr ?_)
        exact h.unique.sublist (List.filter_sublist.map _)
      refine @books_modifyCommitted s
        (· ++ (s.ranked l sprint).take (floor - s.actionable sprint.committed)) _ h (fun _ => ?_) fun he => ?_
      · exact h.scope.append ⟨hn, fun id hm => (hp id hm).1⟩ fun id hm => (hp id hm).2
      · have he := not_not.mp (of_decide_eq_false he)
        rw [List.length_eq_zero_iff.mp he, List.append_nil]

-- What one candidate for the hold list does. If nothing is held, nothing has happened.
theorem autoHold {p : ProjectState × List TicketId} (h : p.1.Bookkept) :
    (autoHold now p id).1.Bookkept ∧
    (autoHold now p id).1.tickets.map (·.id) = p.1.tickets.map (·.id) ∧
    ((autoHold now p id).2 = [] → autoHold now p id = p) := by
  unfold ProjectState.autoHold
  dsimp only
  split
  case isFalse => exact ⟨h, rfl, fun _ => rfl⟩
  case isTrue =>
    have ht : (p.1.tryMove id .system .onHold).Bookkept := h.congr ids_tryMove rfl rfl rfl
    have hf : ((p.1.tryMove id .system .onHold).modifyCommitted (·.filter (· ≠ id))).Bookkept :=
      ht.modifyCommitted fun _ => ht.scope.filter
    exact ⟨hf.congr rfl rfl rfl rfl, ids_tryMove, by simp⟩

theorem foldl_autoHold {ids : List TicketId} {p : ProjectState × List TicketId} (h : p.1.Bookkept) :
    (ids.foldl (ProjectState.autoHold now) p).1.Bookkept ∧
    (ids.foldl (ProjectState.autoHold now) p).1.tickets.map (·.id) = p.1.tickets.map (·.id) ∧
    ((ids.foldl (ProjectState.autoHold now) p).2 = [] → ids.foldl (ProjectState.autoHold now) p = p) := by
  induction ids generalizing p
  case nil => exact ⟨h, rfl, fun _ => rfl⟩
  case cons id ids hi =>
    have ⟨hk, hids, he⟩ := @autoHold id now p h
    have ⟨hk', hids', he'⟩ := hi hk
    rw [List.foldl_cons]
    refine ⟨hk', hids'.trans hids, fun hn => ?_⟩
    have hf := he' hn
    rw [hf] at hn ⊢
    exact he hn

theorem autoHoldExhausted (h : s.Bookkept) :
    s.Books (decide ((s.autoHoldExhausted now).2 ≠ [])) (s.autoHoldExhausted now).1 := by
  have ⟨hk, hids, he⟩ := @foldl_autoHold now s.exhausted (s, []) h
  refine ⟨hk, hids, fun hc => ?_⟩
  have hn : (s.exhausted.foldl (ProjectState.autoHold now) (s, [])).2 = [] :=
    not_not.mp (of_decide_eq_false hc)
  rw [ProjectState.autoHoldExhausted, he hn]
  exact .refl

end Operations

section Queue

variable {plan : Nat} {f : PlannedSprint → PlannedSprint}

theorem lt_of_max {n : Nat} {ns : List Nat} (hn : n ∈ ns) : n < ns.max?.getD 0 + 1 := by
  cases hm : ns.max?
  case none =>
    rw [List.max?_eq_none_iff] at hm
    simp [hm] at hn
  case some m =>
    have := (List.max?_eq_some_iff.mp hm).2 n hn
    simp only [Option.getD_some]
    omega

theorem queueSprint {now goal by' : String} {tickets : List TicketId} (h : s.Bookkept) :
    s.Books true (s.queueSprint now goal tickets by').2 := by
  refine h.books_queue ?_ ?_ (by simp)
  · intro p hp
    obtain hp | hp := List.mem_append.mp hp
    case inl => exact h.plans p hp
    case inr =>
      rw [List.mem_singleton] at hp
      subst hp
      refine .retainNew fun id hm => onBoard_of_isSome ?_
      simpa using (List.mem_filter.mp hm).2
  · rw [List.map_append, List.map_singleton, List.nodup_append]
    refine ⟨h.planIds, List.nodup_singleton _, fun a ha b hb => ?_⟩
    rw [List.mem_singleton] at hb
    subst hb
    exact Nat.ne_of_lt (lt_of_max ha)

-- A plan that is rewritten keeps its id.
theorem modifyPlan (h : s.Bookkept) (hid : ∀ p, (f p).id = p.id)
    (hf : ∀ p : PlannedSprint, s.Listed p.tickets → s.Listed (f p).tickets) :
    s.Books (s.modifyPlan plan f).1 (s.modifyPlan plan f).2 := by
  unfold ProjectState.modifyPlan
  split
  case h_1 => exact h.refl
  case h_2 q hq =>
    refine h.books_queue (Lists.forall_updateFirst hq h.plans hf) ?_ (by simp)
    rw [Lists.map_updateFirst hid hq]
    exact h.planIds

theorem listed_foldl {add : List TicketId} (ha : ∀ id ∈ add, s.OnBoard id) (hl : s.Listed l) :
    s.Listed (add.foldl (fun ts t => if t ∈ ts then ts else ts ++ [t]) l) := by
  induction add generalizing l
  case nil => exact hl
  case cons id add hi =>
    rw [List.forall_mem_cons] at ha
    apply hi ha.2
    beta_reduce
    split
    case isTrue     => exact hl
    case isFalse hn => exact hl.append (.singleton ha.1) (by simpa using hn)

theorem scopeQueuedSprint {add remove : List TicketId} (h : s.Bookkept) :
    s.Books (s.scopeQueuedSprint plan add remove).1 (s.scopeQueuedSprint plan add remove).2 := by
  refine h.modifyPlan (fun _ => rfl) fun p hp => listed_foldl (fun id hm => ?_) hp.filter
  exact onBoard_of_isSome (by simpa using (List.mem_filter.mp hm).2)

theorem renameQueuedSprint {goal : String} (h : s.Bookkept) :
    s.Books (s.renameQueuedSprint plan goal).1 (s.renameQueuedSprint plan goal).2 :=
  h.modifyPlan (fun _ => rfl) fun _ hp => hp

theorem deleteQueuedSprint (h : s.Bookkept) :
    s.Books (s.deleteQueuedSprint plan).1 (s.deleteQueuedSprint plan).2 := by
  refine h.books_queue (fun p hp => h.plans p (List.mem_of_mem_filter hp))
    (h.planIds.sublist (List.filter_sublist.map _)) fun hc => ?_
  have hl : (s.sprintQueue.filter (·.id ≠ plan)).length = s.sprintQueue.length := by
    simpa [ProjectState.deleteQueuedSprint] using hc
  exact List.filter_sublist.eq_of_length hl

theorem moveQueuedSprint {delta : Int} (h : s.Bookkept) :
    s.Books (s.moveQueuedSprint plan delta).1 (s.moveQueuedSprint plan delta).2 := by
  unfold ProjectState.moveQueuedSprint
  split
  case h_1 => exact h.refl
  case h_2 i _ =>
    dsimp only
    split
    case isTrue => exact h.refl
    case isFalse =>
      have hp := Lists.swap_perm s.sprintQueue i (i + delta).toNat
      refine h.books_queue (fun p hm => h.plans p (hp.mem_iff.mp hm)) ?_ (by simp)
      exact (hp.map _).nodup_iff.mpr h.planIds

end Queue

theorem createTicket {t : Ticket} (h : s.Bookkept) : (SprintOp.step s (.createTicket t)).Bookkept := by
  simp only [SprintOp.step, SprintOp.run]
  split
  case isTrue => exact h
  case isFalse hn =>
    have hl {l} (hl : s.Listed l) : { s with tickets := s.tickets ++ [t] }.Listed l :=
      ⟨hl.nodup, fun id hm =>
        have ⟨u, hu, he⟩ := hl.onBoard id hm
        ⟨u, List.mem_append_left _ hu, he⟩⟩
    exact {
      unique  := by
        rw [List.map_append, List.map_singleton]
        exact h.unique.append (List.nodup_singleton _) (by simpa using hn)
      scope   := hl h.scope
      plans   := fun p hp => hl (h.plans p hp)
      planIds := h.planIds
      counted := h.counted
      numbers := h.numbers
    }

-- All operations but the creation of a ticket leave the ids of the board.
theorem books (h : s.Bookkept) (o : SprintOp) :
    s.Books (o.run s).1 (o.run s).2 ∨ ∃ t, o = .createTicket t := by
  cases o
  case createTicket t => exact .inr ⟨t, rfl⟩
  all_goals left
  case advance            => exact h.advance
  case closeNow           => exact h.closeNow
  case commitTicket       => exact h.commitTicket
  case uncommitTicket     => exact h.uncommitTicket
  case refillEmptyScope   => exact h.refillEmptyScope
  case topUpScope         => exact h.topUpScope
  case autoHoldExhausted  => exact h.autoHoldExhausted
  case queueSprint        => exact h.queueSprint
  case scopeQueuedSprint  => exact h.scopeQueuedSprint
  case deleteQueuedSprint => exact h.deleteQueuedSprint
  case renameQueuedSprint => exact h.renameQueuedSprint
  case moveQueuedSprint   => exact h.moveQueuedSprint
  case transition         => exact ⟨h.congr ids_tryMove rfl rfl rfl, ids_tryMove, fun _ => ⟨rfl, rfl, rfl⟩⟩

theorem step (h : s.Bookkept) (o : SprintOp) : (o.step s).Bookkept := by
  obtain hb | ⟨t, rfl⟩ := h.books o
  case inl => exact hb.kept
  case inr => exact h.createTicket

end Bookkept

-- What the lists name was on the board before the operation.
structure AddsExisting (s s' : ProjectState) : Prop where
  scope : ∀ id ∈ s'.committed, s.OnBoard id
  plans : ∀ p ∈ s'.sprintQueue, ∀ id ∈ p.tickets, s.OnBoard id

theorem Bookkept.addsExisting (h : s.Bookkept) (o : SprintOp) : s.AddsExisting (o.step s) := by
  obtain hb | ⟨t, rfl⟩ := h.books o
  case inl =>
    have hl {l} (hl : (o.step s).Listed l) : s.Listed l := hl.congr hb.ids.symm
    exact ⟨(hl hb.kept.scope).onBoard, fun p hp => (hl (hb.kept.plans p hp)).onBoard⟩
  case inr =>
    simp only [SprintOp.step, SprintOp.run]
    split <;> exact ⟨h.scope.onBoard, fun p hp => (h.plans p hp).onBoard⟩

theorem Bookkept.sameBooks (h : s.Bookkept) (o : SprintOp) (hr : (o.run s).1 = false) :
    s.SameBooks (o.step s) := by
  obtain hb | ⟨t, rfl⟩ := h.books o
  case inl => exact hb.same hr
  case inr =>
    simp only [SprintOp.step, SprintOp.run] at hr ⊢
    split at hr
    case isTrue hm => simp [hm, SameBooks.refl]
    case isFalse   => contradiction

theorem bookkept_of_fresh (hu : (s.tickets.map (·.id)).Nodup) (hs : s.sprint = none)
    (hh : s.sprints = []) (hq : s.sprintQueue = []) : s.Bookkept where
  unique  := hu
  scope   := by
    rw [committed, hs]
    exact .nil
  plans   := by simp [hq]
  planIds := by simp [hq]
  counted := by simp [hs]
  numbers := by simp [hh, hs, lastNumber]

-- A ticket that the use case files is a creation of the machine.
theorem createTicket_of_append {input : AddTicketInput} {now : String}
    (h : AddTicketUseCase.append input now s = .ok (id, s')) :
    ∃ t, t.id = id ∧ SprintOp.step s (.createTicket t) = s' := by
  have ⟨_, _, t, ht, he⟩ := AddTicketUseCase.append_ok h
  have hv := (validate_ok_iff.mp (AddTicketUseCase.validate_append h)).unique
  rw [he, List.map_append, List.map_singleton, List.nodup_append] at hv
  have hn : t.id ∉ s.tickets.map (·.id) := fun hm => hv.2.2 _ hm _ (List.mem_singleton_self _) rfl
  exact ⟨t, ht, by simp only [SprintOp.step, SprintOp.run, if_neg hn, he]⟩

-- From a board without sprints the books are kept over any sequence of operations. Every list names
-- only tickets that were there, and an operation that reports no change makes none.
theorem bookkeeping (hu : (s.tickets.map (·.id)).Nodup) (hs : s.sprint = none) (hh : s.sprints = [])
    (hq : s.sprintQueue = []) (ops : List SprintOp) :
    (ops.foldl SprintOp.step s).Bookkept ∧
    ∀ pre o post, ops = pre ++ o :: post →
      (pre.foldl SprintOp.step s).AddsExisting (o.step (pre.foldl SprintOp.step s)) ∧
      ((o.run (pre.foldl SprintOp.step s)).1 = false →
        (pre.foldl SprintOp.step s).SameBooks (o.step (pre.foldl SprintOp.step s))) := by
  have hb (l : List SprintOp) : (l.foldl SprintOp.step s).Bookkept :=
    Run.inv_all (fun _ o h => h.step o) (bookkept_of_fresh hu hs hh hq)
  exact ⟨hb ops, fun pre o _ _ => ⟨(hb pre).addsExisting o, (hb pre).sameBooks o⟩⟩

-- A day of one feature: it is filed, scoped into the first sprint, planned for the next, and held back.
def firstDay : List SprintOp :=
  [ .createTicket { id := ⟨"F1"⟩, kind := .feature, title := "f", status := .ready },
    .advance noon 0 ⟨.cycles 10, none⟩,
    .queueSprint "2026-01-01" "ship" [⟨"F1"⟩] "po",
    .uncommitTicket ⟨"F1"⟩,
    .commitTicket ⟨"F9"⟩ ]

theorem bookkeeping_firstDay :
    (firstDay.foldl SprintOp.step {}).Bookkept ∧
    ∀ pre o post, firstDay = pre ++ o :: post →
      ProjectState.AddsExisting (pre.foldl SprintOp.step {}) (o.step (pre.foldl SprintOp.step {})) ∧
      ((o.run (pre.foldl SprintOp.step {})).1 = false →
        SameBooks (pre.foldl SprintOp.step {}) (o.step (pre.foldl SprintOp.step {}))) :=
  bookkeeping (s := {}) List.nodup_nil rfl rfl rfl firstDay

end ProjectState
