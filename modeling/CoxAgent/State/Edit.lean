import CoxAgent.Domain.TicketOps
import CoxAgent.Lib.Except
import CoxAgent.State.Basic
import Mathlib.Data.List.Forall2

-- The limits of the feeds that a state carries.
def maxActivity : Nat := 60
def maxComments : Nat := 500
def maxChat     : Nat := 500

-- The rooms that are always there.
def generalChannel : String := "general"
def agentsChannel  : String := "agents"

namespace ProjectState

-- Change the first ticket with the given id. `none` if there is none.
def ticketMut {ε : Type} (s : ProjectState) (id : TicketId) (f : Ticket → Except ε Ticket) :
    Option (Except ε ProjectState) :=
  go s.tickets |>.map fun r => r.map fun tickets => { s with tickets }
where
  go : List Ticket → Option (Except ε (List Ticket))
    | []      => none
    | t :: ts =>
      if t.id = id then
        some ((f t).map (· :: ts))
      else
        (go ts).map fun r => r.map (t :: ·)

-- Change the first ticket with the given id, if there is one.
def modifyTicket (s : ProjectState) (id : TicketId) (f : Ticket → Ticket) : ProjectState :=
  { s with tickets := go s.tickets }
where
  go : List Ticket → List Ticket
    | []      => []
    | t :: ts => if t.id = id then f t :: ts else t :: go ts

def logActivity (s : ProjectState) (now agent action : String) (ticket : Option String) :
    ProjectState :=
  let activity := s.activity ++ [{ at' := now, agent, action, ticket }]
  { s with activity := activity.drop (activity.length - maxActivity) }

-- The id of the comment is made of the time and a counter.
def postComment (s : ProjectState) (id now author body : String) (ticket : Option String) :
    ProjectState :=
  let comments := s.comments ++ [{ id, postedAt := now, author, body, ticket }]
  { s with comments := comments.drop (comments.length - maxComments) }

-- The room in which the approval gate announces what it did.
def approvalsChannel : String := "approvals"

def postChatIn (s : ProjectState) (id now user body channel : String)
    (attachments : List Attachment) : ProjectState :=
  let chat := s.chat ++ [{ id, postedAt := now, user, body, channel, attachments }]
  { s with chat := chat.drop (chat.length - maxChat) }

theorem postChatIn_tickets (s : ProjectState) (id now user body channel : String)
    (attachments : List Attachment) :
    (s.postChatIn id now user body channel attachments).tickets = s.tickets := by
  rw [postChatIn]

-- The newest message is not among those that are dropped.
theorem mem_chat_postChatIn (s : ProjectState) (id now user body channel : String)
    (attachments : List Attachment) :
    ∃ m ∈ (s.postChatIn id now user body channel attachments).chat, m.body = body := by
  rw [postChatIn, List.length_append, List.length_singleton,
    List.drop_append_of_le_length (by unfold maxChat; omega)]
  exact ⟨_, List.mem_append_right _ List.mem_cons_self, rfl⟩

variable {ε : Type} {s s' : ProjectState} {id : TicketId} {f : Ticket → Except ε Ticket}

-- One ticket is replaced, the first one with the id.
structure Replaces (s s' : ProjectState) (t t' : Ticket) : Prop where
  keeps   : s'.alias = s.alias ∧ s'.schemaVersion = s.schemaVersion
  tickets : ∃ l₁ l₂, s.tickets = l₁ ++ t :: l₂ ∧ s'.tickets = l₁ ++ t' :: l₂ ∧
              ∀ t₁ ∈ l₁, t₁.id ≠ t.id

theorem ticketMut_go_ok {ts ts' : List Ticket} (h : ticketMut.go id f ts = some (.ok ts')) :
    ∃ t t' l₁ l₂, t.id = id ∧ f t = .ok t' ∧ ts = l₁ ++ t :: l₂ ∧ ts' = l₁ ++ t' :: l₂ ∧
      ∀ t₁ ∈ l₁, t₁.id ≠ t.id := by
  induction ts generalizing ts'
  case nil => contradiction
  case cons t ts hi =>
    unfold ticketMut.go at h
    split at h
    case isTrue hid =>
      obtain ⟨t', ht, he⟩ := Except.map_eq_ok.mp (Option.some.inj h)
      exact ⟨t, t', [], ts, hid, ht, rfl, he.symm, by simp⟩
    case isFalse hid =>
      obtain ⟨r, hr, hm⟩ := Option.map_eq_some_iff.mp h
      obtain ⟨us, hu, he⟩ := Except.map_eq_ok.mp hm
      subst hu he
      obtain ⟨t₀, t', l₁, l₂, h₀, hf, hts, hus, hn⟩ := hi hr
      refine ⟨t₀, t', t :: l₁, l₂, h₀, hf, by simp [hts], by simp [hus], ?_⟩
      rw [List.forall_mem_cons]
      exact ⟨h₀ ▸ hid, hn⟩

theorem ticketMut_ok (h : s.ticketMut id f = some (.ok s')) :
    ∃ t t', t.id = id ∧ f t = .ok t' ∧ s.Replaces s' t t' := by
  obtain ⟨r, hr, hm⟩ := Option.map_eq_some_iff.mp h
  obtain ⟨ts, ht, he⟩ := Except.map_eq_ok.mp hm
  subst ht he
  obtain ⟨t, t', l₁, l₂, hid, hf, hs, hs', hn⟩ := ticketMut_go_ok hr
  exact ⟨t, t', hid, hf, ⟨rfl, rfl⟩, l₁, l₂, hs, hs', hn⟩

theorem find?_of_ne {l : List Ticket} (h : ∀ t ∈ l, t.id ≠ id) : l.find? (·.id = id) = none := by
  rw [List.find?_eq_none]
  intro t ht
  simpa using h t ht

theorem Replaces.ticket_eq {t t' : Ticket} (h : s.Replaces s' t t') : s.ticket t.id = some t := by
  obtain ⟨l₁, l₂, hs, _, hn⟩ := h.tickets
  simp [ProjectState.ticket, hs, List.find?_append, find?_of_ne hn]

-- The other tickets are found as before.
theorem Replaces.ticket {t t' : Ticket} {id : TicketId} (h : s.Replaces s' t t')
    (hid : t'.id = t.id) :
    s'.ticket id = if t.id = id then some t' else s.ticket id := by
  obtain ⟨l₁, l₂, hs, hs', hn⟩ := h.tickets
  unfold ProjectState.ticket
  rw [hs, hs', List.find?_append, List.find?_append]
  by_cases he : t.id = id
  case pos => simp [find?_of_ne (he ▸ hn), hid, he]
  case neg => simp [hid, he]

theorem Replaces.forall₂ {t t' : Ticket} {R : Ticket → Ticket → Prop} (h : s.Replaces s' t t')
    (hr : ∀ t, R t t) (ht : R t t') : List.Forall₂ R s.tickets s'.tickets := by
  obtain ⟨l₁, l₂, hs, hs', _⟩ := h.tickets
  rw [hs, hs']
  exact List.rel_append (List.forall₂_same.mpr fun t _ => hr t)
    (.cons ht (List.forall₂_same.mpr fun t _ => hr t))

section Modify

variable {f : Ticket → Ticket} {id' : TicketId}

theorem modifyTicket_ids (hf : ∀ t, (f t).id = t.id) :
    (s.modifyTicket id f).tickets.map (·.id) = s.tickets.map (·.id) := by
  have hgo (ts) : (modifyTicket.go id f ts).map (·.id) = ts.map (·.id) := by
    induction ts
    case nil          => rfl
    case cons t ts hi => by_cases h : t.id = id <;> simp [modifyTicket.go, h, hf, hi]
  exact hgo s.tickets

theorem modifyTicket_ticketIds (hf : ∀ t, (f t).id = t.id) :
    (s.modifyTicket id f).ticketIds = s.ticketIds := by
  have h := congrArg (List.map TicketId.asStr) (@modifyTicket_ids s id f hf)
  rw [List.map_map, List.map_map] at h
  exact h

theorem tickets_modifyTicket {t : Ticket} {l₁ l₂ : List Ticket} (hs : s.tickets = l₁ ++ t :: l₂)
    (hn : ∀ t₁ ∈ l₁, t₁.id ≠ t.id) : (s.modifyTicket t.id f).tickets = l₁ ++ f t :: l₂ := by
  have hgo (l₁ : List Ticket) (hn : ∀ t₁ ∈ l₁, t₁.id ≠ t.id) :
      modifyTicket.go t.id f (l₁ ++ t :: l₂) = l₁ ++ f t :: l₂ := by
    induction l₁
    case nil => simp [modifyTicket.go]
    case cons t₁ l₁ hi =>
      rw [List.forall_mem_cons] at hn
      rw [List.cons_append, modifyTicket.go, if_neg hn.1, hi hn.2, List.cons_append]
  rw [modifyTicket, hs]
  exact hgo l₁ hn

theorem ticket_modifyTicket (hf : ∀ t, (f t).id = t.id) :
    (s.modifyTicket id f).ticket id' = if id' = id then (s.ticket id').map f else s.ticket id' := by
  have hgo (ts) : (modifyTicket.go id f ts).find? (·.id = id') =
      if id' = id then (ts.find? (·.id = id')).map f else ts.find? (·.id = id') := by
    induction ts
    case nil => simp [modifyTicket.go]
    case cons t ts hi =>
      by_cases h : t.id = id
      case pos =>
        by_cases h' : id' = id
        case pos => simp [modifyTicket.go, h, h', hf]
        case neg => simp [modifyTicket.go, h, h', hf, Ne.symm h']
      case neg =>
        by_cases h' : t.id = id'
        case pos =>
          subst h'
          simp [modifyTicket.go, h]
        case neg => simp [modifyTicket.go, h, h', hi]
  exact hgo s.tickets

end Modify

end ProjectState

-- The limits of what the team remembers.
def maxLessonRecords : Nat := 24
def maxPromptLessons : Nat := 12
def maxJournalNotes  : Nat := 4
def journalNoteChars : Nat := 500

namespace ProjectState

variable (s : ProjectState)

-- A lesson that is known already counts as learned again.
def recordInLedger (now lesson : String) : List LessonRecord :=
  if s.lessonRecords.any (·.text = lesson) then
    go s.lessonRecords
  else
    newest maxLessonRecords (s.lessonRecords ++ [{ text := lesson, at' := now, cycle := s.cycle }])
where
  go : List LessonRecord → List LessonRecord
    | []      => []
    | r :: rs =>
      if r.text = lesson then
        { r with reRecordings := min (r.reRecordings + 1) (2 ^ 64 - 1) } :: rs
      else
        r :: go rs

-- The list for the prompts has its own duplicates and its own limit.
def addLesson (now lesson : String) : ProjectState :=
  let lesson := Text.trim lesson
  if lesson = "" then
    s
  else
    { s with
      lessonRecords := s.recordInLedger now lesson
      lessons       :=
        if lesson ∈ s.lessons then s.lessons else newest maxPromptLessons (s.lessons ++ [lesson])
    }

-- A note for the next attempt at a ticket.
def journalNote (ticket note : String) : ProjectState :=
  let entry : String := .ofList ((Text.trim note).toList.take journalNoteChars)
  if entry = "" then
    s
  else
    let notes := (s.ticketJournal.get? ticket).getD []
    { s with ticketJournal := s.ticketJournal.insert ticket (newest maxJournalNotes (notes ++ [entry])) }

end ProjectState
