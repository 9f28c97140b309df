import CoxAgent.Backlog.AddTicket
import CoxAgent.Lib.Except

variable {s s' : ProjectState} {t t' : Ticket} {id : TicketId} {type : TicketType} {n : Nat}
variable {input : AddTicketInput} {now : String}

theorem idPrefix_append_toList {cs : List Char} {a : String} :
    (idPrefix a type ++ .ofList cs).toList.dropPrefix? (idPrefix a type).toList = some cs := by
  simp [List.dropPrefix?_append_of_beq]

theorem le_highest (ht : t ∈ s.tickets) (hn : idNumber s.alias type t.id = some n) :
    n ≤ highest s type :=
  List.le_max?_getD_of_mem (List.mem_filterMap.mpr ⟨t, ht, hn⟩)

-- As long as the addition does not overflow, the number of a new id is one above all others.
theorem idNumber_mintId (h : mintId type s = .ok id) (hn : highest s type + 1 < 2 ^ 64) :
    idNumber s.alias type id = some (highest s type + 1) := by
  simp only [mintId, TicketId.new] at h
  split at h
  case isTrue => contradiction
  case isFalse =>
    cases h
    rw [idNumber, idPrefix_append_toList, Nat.mod_eq_of_lt hn]
    exact Text.parseBelow_zeroPad hn

-- The highest number only depends on the ids, and more of them make it higher.
theorem highest_mono (ha : s'.alias = s.alias)
    (h : s.tickets.map (·.id) ⊆ s'.tickets.map (·.id)) : highest s type ≤ highest s' type := by
  unfold highest
  cases hm : (s.tickets.filterMap (idNumber s.alias type ·.id)).max?
  case none => simp
  case some n =>
    obtain ⟨t, ht, hn⟩ := List.mem_filterMap.mp (List.max?_mem hm)
    obtain ⟨t', ht', he⟩ := List.mem_map.mp (h (List.mem_map_of_mem ht))
    refine List.le_max?_getD_of_mem (List.mem_filterMap.mpr ⟨t', ht', ?_⟩)
    rw [he, ha]
    exact hn

namespace AddTicketUseCase

theorem id_bindGoal {goal : Option GoalId} (h : bindGoal t goal = .ok t') : t'.id = t.id := by
  cases goal
  case none =>
    cases h
    rfl
  case some =>
    simp only [bindGoal, Ticket.setGoalId, Ticket.write, fieldPermitted_system] at h
    cases h
    rfl

theorem id_stampTag {tag : Option String} (h : stampTag t tag = .ok t') : t'.id = t.id := by
  cases tag
  case none =>
    cases h
    rfl
  case some =>
    simp only [stampTag, Ticket.setServiceTag, Ticket.write, fieldPermitted_system] at h
    cases h
    rfl

theorem id_new {title description : String} {priority : Priority} {complexity : Complexity}
    {hasUi : Bool}
    (h : Ticket.new id type title description priority complexity hasUi = .ok t) : t.id = id := by
  unfold Ticket.new at h
  split at h <;> cases h
  rfl

theorem id_build (h : build input now id = .ok t) : t.id = id := by
  simp only [build, Except.bind_eq_ok] at h
  obtain ⟨t₁, h₁, t₂, h₂, h₃⟩ := h
  rw [id_stampTag h₃, id_bindGoal h₂, ← id_new h₁]
  unfold Ticket.setAcceptanceCriteria Ticket.stampCreatedAt
  split <;> rfl

-- What a creation does to the state it has loaded.
theorem append_ok (h : append input now s = .ok (id, s')) :
    duplicateGate s input.title = .ok () ∧ mintId input.ticketType s = .ok id ∧
    ∃ t, t.id = id ∧ s' = { s with tickets := s.tickets ++ [t] } := by
  simp only [append, Except.bind_eq_ok, Except.mapError_eq_ok] at h
  obtain ⟨_, hd, _, _, id', hm, t, ht, _, _, h⟩ := h
  cases h
  exact ⟨hd, hm, t, id_build ht, rfl⟩

-- The board that is saved has been checked.
theorem validate_append (h : append input now s = .ok (id, s')) : s'.validate = .ok () := by
  simp only [append, Except.bind_eq_ok, Except.mapError_eq_ok] at h
  obtain ⟨_, _, _, _, _, _, _, _, _, hv, h⟩ := h
  cases h
  exact hv

-- The two texts of the refusal of a duplicate.
def Refuses (title : String) (e : AppError) : Prop :=
  e = matchesOpen title ∨ e = matchesRejected title

theorem append_refuses (ht : t ∈ s.tickets) (hr : t.status = .rejected)
    (hd : duplicatesExisting input.title [t.title]) :
    ∃ e, append input now s = .error e ∧ Refuses input.title e := by
  have hd : duplicatesExisting input.title (rejectedTitles s) := by
    refine duplicatesExisting_mono ?_ hd
    simp only [List.cons_subset, List.nil_subset, and_true, rejectedTitles]
    exact List.mem_map_of_mem (List.mem_filter.mpr ⟨ht, by simpa using hr⟩)
  unfold append duplicateGate
  by_cases ho : duplicatesExisting input.title (activeTitles s)
  case pos =>
    rw [if_pos ho]
    exact ⟨_, rfl, .inl rfl⟩
  case neg =>
    rw [if_neg ho, if_pos hd]
    exact ⟨_, rfl, .inr rfl⟩

end AddTicketUseCase
