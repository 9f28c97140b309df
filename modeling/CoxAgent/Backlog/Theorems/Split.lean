import CoxAgent.Backlog.Split
import CoxAgent.Backlog.Theorems.AddTicket
import CoxAgent.State.Theorems.Integrity

-- The numbers that are minted one after the other, when the highest one so far is given. The addition is one of
-- `u64`.
def numbers (highest : Nat) : Nat → List Nat
  | 0     => []
  | n + 1 => (highest + 1) % 2 ^ 64 :: numbers (max highest ((highest + 1) % 2 ^ 64)) n

section Numbers

variable {h n k : Nat} {F : Nat → Prop}

theorem numbers_lt (hk : k ∈ numbers h n) : k < 2 ^ 64 := by
  induction n generalizing h
  case zero => contradiction
  case succ n hi =>
    cases List.mem_cons.mp hk
    case inl he => exact he ▸ Nat.mod_lt _ (by decide)
    case inr hk => exact hi hk

theorem length_numbers : (numbers h n).length = n := by
  induction n generalizing h
  case zero       => rfl
  case succ n hi  => rw [numbers, List.length_cons, hi]

-- A number is above the ones before it, or it is none.
theorem numbers_gt (hh : h < 2 ^ 64) (hk : k ∈ numbers h n) : k = 0 ∨ h < k := by
  induction n generalizing h
  case zero => contradiction
  case succ n hi =>
    cases List.mem_cons.mp hk
    case inl he => omega
    case inr hk => exact (hi (by omega) hk).imp_right fun hl => by omega

-- All of them are new as long as they do not overflow. One that overflows is none, and the next one is too.
theorem numbers_new_iff (hh : h < 2 ^ 64) (hF : ∀ k, h < k → k < 2 ^ 64 → F k) :
    ((numbers h n).Nodup ∧ ∀ k ∈ numbers h n, F k) ↔ h + n < 2 ^ 64 ∨ h + n = 2 ^ 64 ∧ F 0 := by
  induction n generalizing h
  case zero => exact iff_of_true ⟨.nil, nofun⟩ (.inl hh)
  case succ n hi =>
    by_cases hn : h + 1 < 2 ^ 64
    case pos =>
      have hm : max h (h + 1) = h + 1 := by omega
      have hi := hi hn fun k hk => hF k (by omega)
      have hx : h + 1 ∉ numbers (h + 1) n := fun hx => by
        have := numbers_gt hn hx
        omega
      rw [numbers, Nat.mod_eq_of_lt hn, hm, List.nodup_cons, List.forall_mem_cons, and_iff_right hx,
        and_iff_right (hF (h + 1) (by omega) hn), hi, Nat.add_assoc, Nat.add_comm 1 n]
    case neg =>
      have he : h + 1 = 2 ^ 64 := by omega
      have hz : max h ((h + 1) % 2 ^ 64) = h := by omega
      have h0 : (h + 1) % 2 ^ 64 = 0 := by omega
      rw [numbers, hz, h0]
      cases n
      case zero   => simp [numbers, he]
      case succ n =>
        have hn : ¬(0 :: numbers h (n + 1)).Nodup := by
          rw [numbers, hz, h0]
          simp
        simp only [hn, false_and, false_iff]
        omega

end Numbers

-- The id with the number.
def numbered («alias» : String) (type : TicketType) (n : Nat) : TicketId :=
  ⟨idPrefix «alias» type ++ .ofList (Text.zeroPad 3 n)⟩

section Mint

variable {s s' : ProjectState} {t : Ticket} {type : TicketType} {a : String} {n : Nat}

theorem mintId_eq : mintId type s = .ok (numbered s.alias type ((highest s type + 1) % 2 ^ 64)) := by
  have hc : typeCode type ∈ (idPrefix s.alias type).toList := by
    unfold idPrefix
    split <;> simp
  have hw : !Text.isWhitespace (typeCode type) := by cases type <;> decide
  have hb (s' : String) : ¬Text.trim (idPrefix s.alias type ++ s') = "" := Text.not_blank_append hc hw
  rw [mintId, TicketId.new, if_neg (hb _)]
  rfl

theorem idNumber_numbered (h : n < 2 ^ 64) : idNumber a type (numbered a type n) = some n := by
  rw [idNumber, numbered, idPrefix_append_toList]
  exact Text.parseBelow_zeroPad h

theorem highest_lt : highest s type < 2 ^ 64 := by
  unfold highest
  cases hm : (s.tickets.filterMap (idNumber s.alias type ·.id)).max?
  case none   => simp
  case some n =>
    obtain ⟨t, _, hn⟩ := List.mem_filterMap.mp (List.max?_mem hm)
    obtain ⟨cs, _, hp⟩ := Option.bind_eq_some_iff.mp hn
    simp only [Text.parseBelow, Option.ite_none_right_eq_some, Option.some.injEq] at hp
    simpa [← hp.2] using hp.1.2.2

theorem highest_append (ha : s'.alias = s.alias) (ht : s'.tickets = s.tickets ++ [t])
    (hn : idNumber s.alias type t.id = some n) : highest s' type = max (highest s type) n := by
  apply Nat.le_antisymm
  case h₁ =>
    unfold highest
    cases hm : (s'.tickets.filterMap (idNumber s'.alias type ·.id)).max?
    case none   => simp
    case some m =>
      obtain ⟨t', ht', hm⟩ := List.mem_filterMap.mp (List.max?_mem hm)
      rw [ha] at hm
      rw [ht, List.mem_append, List.mem_singleton] at ht'
      rw [Option.getD_some]
      obtain ht' | rfl := ht'
      · have := le_highest ht' hm
        unfold highest at this
        omega
      · rw [hn] at hm
        cases hm
        omega
  case h₂ =>
    have hl : highest s type ≤ highest s' type := highest_mono ha (by simp [ht])
    have hr : n ≤ highest s' type := le_highest (t := t) (by simp [ht]) (by rw [ha, hn])
    omega

end Mint

namespace Split

variable {now : Nat → String} {p : Parent} {title raw : String} {total : Nat} {f : Filing} {sub : ProposedSubtask}
variable {subs : List ProposedSubtask} {s s' : ProjectState} {t parent : Ticket} {prev : Option TicketId}
variable {children : List Ticket} {vi : Bool} {chatId chatNow id : String}

theorem parseSubtasks_length (h : parseSubtasks raw = some subs) : 2 ≤ subs.length ∧ subs.length ≤ 3 := by
  simp only [parseSubtasks, Option.bind_eq_bind, Option.bind_eq_some_iff, Option.ite_none_left_eq_some,
    Option.some.injEq] at h
  obtain ⟨_, _, hl, rfl⟩ := h
  exact ⟨by omega, by simp⟩

-- A child has its parent, and waits for the child before it alone.
structure IsChild (p : Parent) (prev : Option TicketId) (t : Ticket) : Prop where
  parentId  : t.parentId = some p.id
  dependsOn : t.dependsOn = prev.toList

theorem dress_spec {n : String} (hd : t.dependsOn = []) :
    (dress p prev n sub t).id = t.id ∧ IsChild p prev (dress p prev n sub t) := by
  have htag : fieldPermitted .sa "service_tag" := by decide
  have hpar : fieldPermitted .sa "parent_id" := by decide
  have hdep : fieldPermitted .sa "depends_on" := by decide
  have hc (t : Ticket) : ((t.stampCreatedAt n).setAcceptanceCriteria sub.acceptanceCriteria).id = t.id ∧
      ((t.stampCreatedAt n).setAcceptanceCriteria sub.acceptanceCriteria).dependsOn = t.dependsOn := by
    unfold Ticket.setAcceptanceCriteria Ticket.stampCreatedAt
    split <;> exact ⟨rfl, rfl⟩
  have hs (t : Ticket) (tag : String) : (TicketOp.step t (.setServiceTag .sa tag)).id = t.id ∧
      (TicketOp.step t (.setServiceTag .sa tag)).dependsOn = t.dependsOn := by
    simp [TicketOp.step, TicketOp.run, Ticket.setServiceTag, Ticket.write, htag]
  have hp (t : Ticket) : TicketOp.step t (.setParent .sa p.id) = { t with parentId := some p.id } := by
    simp [TicketOp.step, TicketOp.run, Ticket.setParent, Ticket.write, hpar]
  have ha (t : Ticket) (on : TicketId) (ht : t.dependsOn = []) :
      TicketOp.step t (.addDependency .sa on) = { t with dependsOn := [on] } := by
    simp [TicketOp.step, TicketOp.run, Ticket.addDependency, Ticket.write, hdep, ht]
  obtain ⟨t₁, hid, hd₁, he⟩ : ∃ t₁ : Ticket, t₁.id = t.id ∧ t₁.dependsOn = [] ∧
      dress p prev n sub t = prev.elim (TicketOp.step t₁ (.setParent .sa p.id)) fun prev =>
        TicketOp.step (TicketOp.step t₁ (.setParent .sa p.id)) (.addDependency .sa prev) := by
    unfold dress
    cases tagOf p sub
    case none     => exact ⟨_, (hc t).1, (hc t).2.trans hd, by cases prev <;> rfl⟩
    case some tag =>
      exact ⟨_, (hs _ tag).1.trans (hc t).1, ((hs _ tag).2.trans (hc t).2).trans hd, by cases prev <;> rfl⟩
  rw [he]
  cases prev
  case none =>
    rw [Option.elim_none, hp]
    exact ⟨hid, rfl, hd₁⟩
  case some prev =>
    rw [Option.elim_some, hp, ha { t₁ with parentId := some p.id } prev hd₁]
    exact ⟨hid, rfl, rfl⟩

-- Nothing keeps a child from being filed, as its title is not blank and there is an id for it.
theorem fileChild_eq : ∃ t : Ticket,
    t.id = numbered f.state.alias p.type ((highest f.state p.type + 1) % 2 ^ 64) ∧ IsChild p f.prev t ∧
    fileChild now p title total f sub = {
      state    := { f.state with tickets := f.state.tickets ++ [t] }
      prev     := some t.id
      childIds := f.childIds ++ [t.id] } := by
  have hb : ¬Text.trim s!"{sub.title} [{f.childIds.length + 1}/{total}]" = "" := by
    have hc : ']' ∈ s!"{sub.title} [{f.childIds.length + 1}/{total}]".toList := by simp [toString]
    have hb := Text.not_blank_append (s := "") hc (by decide)
    rwa [String.append_empty] at hb
  simp only [fileChild, mintId_eq]
  generalize numbered f.state.alias p.type ((highest f.state p.type + 1) % 2 ^ 64) = cid
  generalize s!"Subtask of {p.id.asStr} (\x22{title}\x22). {sub.description}" = text
  obtain ⟨t, ht, hid, hd⟩ : ∃ t : Ticket, Ticket.new cid p.type s!"{sub.title} [{f.childIds.length + 1}/{total}]" text
      p.priority (complexityOf sub) false = .ok t ∧ t.id = cid ∧ t.dependsOn = [] :=
    ⟨_, if_neg hb, rfl, rfl⟩
  obtain ⟨hi, hc⟩ := @dress_spec p sub t f.prev (now f.childIds.length) hd
  rw [ht]
  exact ⟨_, hi.trans hid, hc, by rw [hi, hid]⟩

-- Each child of the parent waits for the one before it.
def Chained (p : Parent) : Option TicketId → List Ticket → Prop
  | _, []         => True
  | prev, t :: ts => IsChild p prev t ∧ Chained p (some t.id) ts

theorem foldl_fileChild : ∃ children : List Ticket,
    Chained p f.prev children ∧
    children.map (·.id) = (numbers (highest f.state p.type) subs.length).map (numbered f.state.alias p.type) ∧
    (subs.foldl (fileChild now p title total) f).state = { f.state with tickets := f.state.tickets ++ children } ∧
    (subs.foldl (fileChild now p title total) f).childIds = f.childIds ++ children.map (·.id) := by
  induction subs generalizing f
  case nil => exact ⟨[], trivial, rfl, by simp, by simp⟩
  case cons sub subs hi =>
    obtain ⟨t, hid, hc, he⟩ := @fileChild_eq now p title total f sub
    rw [List.foldl_cons, he]
    obtain ⟨children, hch, hn, hs, hl⟩ := @hi {
      state    := { f.state with tickets := f.state.tickets ++ [t] }
      prev     := some t.id
      childIds := f.childIds ++ [t.id] }
    have hk : (highest f.state p.type + 1) % 2 ^ 64 < 2 ^ 64 := Nat.mod_lt _ (by decide)
    have hh := @highest_append f.state { f.state with tickets := f.state.tickets ++ [t] } t p.type _ rfl rfl
      (hid ▸ idNumber_numbered hk)
    refine ⟨t :: children, ⟨hc, hch⟩, ?_, ?_, ?_⟩
    · rw [List.map_cons, hn, hh, List.length_cons, numbers, List.map_cons, hid]
    · rw [hs]
      simp
    · rw [hl]
      simp

-- A board with children that hang on it stays valid.
theorem valid_children (h : s.Valid) (hp : ∀ id ∈ prev, id ∈ s.tickets.map (·.id)) (hc : Chained p prev children)
    (hn : (children.map (·.id)).Nodup) (hf : ∀ t ∈ children, t.id ∉ s.tickets.map (·.id))
    (hs : s'.tickets = s.tickets ++ children) : s'.Valid := by
  induction children generalizing s prev
  case nil =>
    apply h.congr
    rw [hs, List.append_nil]
  case cons t children hi =>
    obtain ⟨ht, hc⟩ := hc
    rw [List.map_cons, List.nodup_cons] at hn
    rw [List.forall_mem_cons] at hf
    have hv : ({ s with tickets := s.tickets ++ [t] } : ProjectState).Valid := by
      refine h.append rfl hf.1 fun dep hd => hp dep ?_
      rw [ht.dependsOn] at hd
      simpa using hd
    refine hi hv ?_ hc hn.2 ?_ (by simp [hs])
    · simp
    · intro t' ht' hm
      simp only [List.map_append, List.mem_append, List.map_cons, List.map_nil, List.mem_singleton] at hm
      obtain hm | he := hm
      · exact hf.2 t' ht' hm
      · exact hn.1 (List.mem_map.mpr ⟨t', ht', he⟩)

-- The parent as the split leaves it.
def setAside (parent : Ticket) : Ticket :=
  TicketOp.step parent (.transitionTo .system .onHold)

-- The move is made by the system, and has no precondition but its edge.
theorem setAside_eq : setAside parent =
    if transitionAllowed parent.kind parent.status .onHold then parent.enter .onHold else parent := by
  by_cases h : transitionAllowed parent.kind parent.status .onHold
  case pos =>
    have hc : parent.checkTransition .system .onHold = .ok () := by simp [Ticket.checkTransition, h, canTransition]
    simp [setAside, TicketOp.step, TicketOp.run, Ticket.transitionTo, hc, h]
  case neg =>
    have hc : parent.checkTransition .system .onHold = .error (.invalidTransition parent.kind parent.status .onHold) := by
      simp [Ticket.checkTransition, h]
    simp [setAside, TicketOp.step, TicketOp.run, Ticket.transitionTo, hc, h]

theorem setAside_keeps : (setAside parent).id = parent.id ∧ (setAside parent).dependsOn = parent.dependsOn := by
  rw [setAside_eq]
  split
  case isTrue  => exact parent.enter_preserves .onHold
  case isFalse => exact ⟨rfl, rfl⟩

theorem setAside_onHold_iff : (setAside parent).status = .onHold ↔ transitionAllowed parent.kind parent.status .onHold := by
  rw [setAside_eq]
  split
  case isTrue h  => simp [Ticket.enter, h]
  case isFalse h =>
    have hs : parent.status ≠ .onHold := fun hs => h (by simp [transitionAllowed, hs])
    simp [h, hs]

theorem announce_spec {childIds : List TicketId} {l₁ l₂ : List Ticket} (hs : s.tickets = l₁ ++ parent :: l₂)
    (hn : ∀ t ∈ l₁, t.id ≠ parent.id) (ha : announce vi chatId chatNow parent.id.asStr childIds s = s') :
    s'.tickets = l₁ ++ setAside parent :: l₂ ∧ s'.ticketFailAttempts.get? parent.id.asStr = none ∧
    ∃ m ∈ s'.chat, m.body = announcement vi parent.id.asStr childIds := by
  have hj (s : ProjectState) (note : String) : (s.journalNote parent.id.asStr note).tickets = s.tickets ∧
      (s.journalNote parent.id.asStr note).ticketFailAttempts = s.ticketFailAttempts := by
    simp only [ProjectState.journalNote]
    split <;> exact ⟨rfl, rfl⟩
  subst ha
  refine ⟨?_, ?_, ?_⟩
  · rw [announce, ProjectState.postChat, ProjectState.postChatIn_tickets, (hj _ _).1]
    exact ProjectState.tickets_modifyTicket hs hn
  · rw [announce, ProjectState.postChat, ProjectState.postChatIn, (hj _ _).2, BTreeMap.get?_remove, if_pos rfl]
  · exact ProjectState.mem_chat_postChatIn ..

theorem commit_spec {l₁ l₂ : List Ticket} (hs : s.tickets = l₁ ++ parent :: l₂) (hn : ∀ t ∈ l₁, t.id ≠ parent.id)
    (hl : subs ≠ []) (hc : commit now title vi chatId chatNow parent.id.asStr subs s = s') :
    ∃ children : List Ticket, s'.tickets = l₁ ++ setAside parent :: l₂ ++ children ∧
      children.map (·.id) = (numbers (highest s parent.kind) subs.length).map (numbered s.alias parent.kind) ∧
      Chained (parentOf parent) none children ∧ s'.ticketFailAttempts.get? parent.id.asStr = none ∧
      ∃ m ∈ s'.chat, m.body = announcement vi parent.id.asStr (children.map (·.id)) := by
  obtain ⟨children, hch, hids, hst, hl⟩ :=
    @foldl_fileChild now (parentOf parent) title subs.length { state := s } subs
  have hf : s.tickets.find? (·.id.asStr = parent.id.asStr) = some parent := by
    have hn : l₁.find? (·.id.asStr = parent.id.asStr) = none := by
      rw [List.find?_eq_none]
      intro t ht
      simpa using fun he => hn t ht (congrArg TicketId.mk he)
    rw [hs, List.find?_append, hn]
    simp
  have hne : (subs.foldl (fileChild now (parentOf parent) title subs.length) { state := s }).childIds ≠ [] := by
    rw [hl, List.nil_append, hids]
    cases subs
    case nil  => contradiction
    case cons => simp [numbers]
  simp only [commit, hf, if_neg hne] at hc
  rw [hst, hl, List.nil_append] at hc
  have hst : ({ s with tickets := s.tickets ++ children } : ProjectState).tickets = l₁ ++ parent :: (l₂ ++ children) := by
    simp [hs]
  obtain ⟨ht, hfa, hm⟩ := announce_spec hst hn hc
  exact ⟨children, by simp [ht], hids, hch, hfa, hm⟩

-- What a split is to leave on the board. The other tickets are as before, and the children hang on the parent. If
-- the failures of the parent are forgotten and the split is announced, the parent waits.
structure Consistent (vi : Bool) (parent : Ticket) (n : Nat) (s s' : ProjectState) (parent' : Ticket)
    (children : List Ticket) : Prop where
  valid    : s'.validate = .ok ()
  board    : ∃ l₁ l₂, s.tickets = l₁ ++ parent :: l₂ ∧ s'.tickets = l₁ ++ parent' :: l₂ ++ children
  count    : children.length = n
  fresh    : ∀ t ∈ children, t.id ∉ s.tickets.map (·.id)
  distinct : (children.map (·.id)).Nodup
  chained  : Chained (parentOf parent) none children
  held     : s'.ticketFailAttempts.get? parent.id.asStr = none →
    (∃ m ∈ s'.chat, m.body = announcement vi parent.id.asStr (children.map (·.id))) → parent'.status = .onHold

-- There are numbers for the children. The one after the last number is none, which may be free.
def Room (s : ProjectState) (type : TicketType) (n : Nat) : Prop :=
  highest s type + n < 2 ^ 64 ∨ highest s type + n = 2 ^ 64 ∧ numbered s.alias type 0 ∉ s.tickets.map (·.id)

theorem ne_of_split {l₁ l₂ : List Ticket} (hv : s.Valid) (hs : s.tickets = l₁ ++ parent :: l₂) :
    ∀ t ∈ l₁, t.id ≠ parent.id := by
  intro t ht he
  have hu := hv.unique
  rw [hs, List.map_append, List.map_cons, List.nodup_append] at hu
  exact hu.2.2 t.id (List.mem_map_of_mem ht) parent.id List.mem_cons_self he

-- The numbers of the children are new.
theorem room_iff {ids : List TicketId} {type : TicketType} {n : Nat}
    (hi : ids = (numbers (highest s type) n).map (numbered s.alias type)) :
    (ids.Nodup ∧ ∀ id ∈ ids, id ∉ s.tickets.map (·.id)) ↔ Room s type n := by
  have hinj : Set.InjOn (numbered s.alias type) { k | k < 2 ^ 64 } := by
    intro k hk m hm he
    have hk := @idNumber_numbered type s.alias k hk
    rw [he, idNumber_numbered hm] at hk
    exact (Option.some.inj hk).symm
  have hF (k : Nat) (hk : highest s type < k) (hl : k < 2 ^ 64) :
      numbered s.alias type k ∉ s.tickets.map (·.id) := by
    intro hm
    obtain ⟨t, ht, he⟩ := List.mem_map.mp hm
    have hn := @le_highest s t type k ht (he ▸ idNumber_numbered hl)
    omega
  rw [Room, ← numbers_new_iff highest_lt hF, hi, List.forall_mem_map]
  refine and_congr_left fun _ => ⟨List.Nodup.of_map _, fun h => h.map_on fun k hk m hm => ?_⟩
  exact hinj (numbers_lt hk) (numbers_lt hm)

-- The board is consistent after a split if and only if the parent may be put aside and there is room.
theorem consistent_iff (hv : s.Valid) (hp : parent ∈ s.tickets) (hl : subs ≠ [])
    (hc : commit now title vi chatId chatNow parent.id.asStr subs s = s') :
    (∃ parent' children, Consistent vi parent subs.length s s' parent' children) ↔
      transitionAllowed parent.kind parent.status .onHold ∧ Room s parent.kind subs.length := by
  constructor
  case mp =>
    rintro ⟨parent', children, h⟩
    obtain ⟨l₁, l₂, hs, hb⟩ := h.board
    obtain ⟨children₁, ht, hids, _, hf, hm⟩ := commit_spec hs (ne_of_split hv hs) hl hc
    rw [ht, List.append_assoc, List.append_assoc, List.append_cancel_left_eq, List.cons_append, List.cons_append,
      List.cons.injEq, List.append_cancel_left_eq] at hb
    obtain ⟨rfl, rfl⟩ := hb
    refine ⟨setAside_onHold_iff.mp (h.held hf hm), (room_iff hids).mp ⟨h.distinct, ?_⟩⟩
    exact List.forall_mem_map.mpr h.fresh
  case mpr =>
    rintro ⟨ha, hr⟩
    obtain ⟨l₁, l₂, hs⟩ := List.append_of_mem hp
    obtain ⟨children, ht, hids, hch, _, _⟩ := commit_spec hs (ne_of_split hv hs) hl hc
    obtain ⟨hd, hfr⟩ := (room_iff hids).mpr hr
    have hfr := List.forall_mem_map.mp hfr
    refine ⟨setAside parent, children, ?_, ⟨l₁, l₂, hs, ht⟩, ?_, hfr, hd, hch, fun _ _ => setAside_onHold_iff.mpr ha⟩
    · -- The parent keeps its place in the graph.
      obtain ⟨hi, hdep⟩ := @setAside_keeps parent
      let s₁ : ProjectState := { s with tickets := s.tickets ++ children }
      have h₁ : s₁.Valid := @valid_children (parentOf parent) s s₁ none children hv nofun hch hd hfr rfl
      exact ProjectState.validate_ok_iff.mpr (h₁.congr (by simp [s₁, ht, hs, hi, hdep]))
    · rw [← List.length_map (f := (·.id)), hids, List.length_map, length_numbers]

-- For all boards, tickets and replies: a split leaves a consistent board if and only if the ticket may be put aside
-- from the status it has by then, as long as there are numbers for its children.
theorem split_consistent_iff (now : Nat → String) (title : String) (vi : Bool) (chatId chatNow : String)
    (hv : s.validate = .ok ()) (hp : parent ∈ s.tickets) (hs : parseSubtasks raw = some subs) :
    (∃ parent' children, Consistent vi parent subs.length s
      (commit now title vi chatId chatNow parent.id.asStr subs s) parent' children) ↔
      transitionAllowed parent.kind parent.status .onHold ∧ Room s parent.kind subs.length := by
  have hl : subs ≠ [] := by
    rintro rfl
    exact absurd (parseSubtasks_length hs).1 (by decide)
  exact consistent_iff (ProjectState.validate_ok_iff.mp hv) hp hl rfl

-- A reply with two subtasks.
def reply : String :=
  "[\x7b\x22title\x22:\x22Index\x22,\x22description\x22:\x22Write it\x22\x7d," ++
    "\x7b\x22title\x22:\x22Query\x22,\x22description\x22:\x22Read it\x22\x7d]"

def replied : List ProposedSubtask :=
  [{ title := "Index", description := "Write it" }, { title := "Query", description := "Read it" }]

-- A board with one feature.
def board (status : Status) : ProjectState where
  tickets := [{ id := ⟨"F001"⟩, kind := .feature, title := "Search", status }]

theorem split_consistent_ready : ∃ parent' children, Consistent false
    { id := ⟨"F001"⟩, kind := .feature, title := "Search", status := .ready } 2 (board .ready)
    (commit (fun _ => "2026") "Search" false "m1" "2026" "F001" replied (board .ready)) parent' children :=
  (@split_consistent_iff reply replied (board .ready) _ (fun _ => "2026") "Search" false "m1" "2026" (by decide)
    List.mem_cons_self (by decide +kernel)).mpr ⟨by decide, .inl (by decide +kernel)⟩

-- The ticket is worked on again when the subtasks arrive. It goes on, and its split is announced.
theorem not_split_consistent_inProgress :
    ¬∀ (s : ProjectState) (parent : Ticket) (raw : String) (subs : List ProposedSubtask) (now : Nat → String)
      (title : String) (vi : Bool) (chatId chatNow : String), s.validate = .ok () → parent ∈ s.tickets →
      parseSubtasks raw = some subs → ∃ parent' children, Consistent vi parent subs.length s
        (commit now title vi chatId chatNow parent.id.asStr subs s) parent' children := by
  intro h
  have hv : (board .inProgress).validate = .ok () := by decide
  have hc := h (board .inProgress) _ reply replied (fun _ => "2026") "Search" false "m1" "2026" hv List.mem_cons_self
    (by decide +kernel)
  have ha := (consistent_iff (ProjectState.validate_ok_iff.mp hv) List.mem_cons_self (by decide) rfl).mp hc
  exact absurd ha.1 (by decide)

end Split
