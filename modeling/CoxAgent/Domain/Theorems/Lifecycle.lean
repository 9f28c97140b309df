import CoxAgent.Domain.TicketOps

-- The statuses of the other family of tickets, which a ticket of this type never has.
def foreign : TicketType → List Status
  | .bug              => [.pending, .ready, .done, .documented]
  | .feature | .chore => [.open, .fixed, .verified]

-- What the definition of ready asks for.
structure Design.Complete (d : Design) (hasUi : Bool) : Prop where
  technical : d.technical.isSome
  ux        : hasUi → d.ux.isSome

namespace Ticket

structure WellFormed (t : Ticket) : Prop where
  native      : t.status ∉ foreign t.kind
  stamped     : t.claimedBy.isSome ↔ t.claimedAt.isSome
  held        : t.claimedBy.isSome → t.status = .inProgress
  designed    : t.kind ≠ .bug → t.status ∈ [.ready, .inProgress, .done, .documented] →
    t.design.Complete t.hasUi
  titled      : ¬Text.Blank t.title
  criteria    : t.acceptanceCriteria.length ≤ maxCriteria
  trimmed     : ∀ ac ∈ t.acceptanceCriteria, ¬Text.Blank ac ∧ Text.trim ac = ac
  histories   : ∀ tc ∈ t.testCases, tc.history.length ≤ maxVerdictHistory
  checkpoints : t.wipCheckpoints.length ≤ maxWipCheckpoints

variable {t t' : Ticket} {actor : Role} {field : String}

theorem map_snd_ok {ε α β : Type} {x : Except ε (α × β)} {b : β} (h : x.map Prod.snd = .ok b) :
    ∃ a, x = .ok (a, b) := by
  cases x
  case error  => contradiction
  case ok p   =>
    cases h
    exact ⟨p.1, rfl⟩

theorem write_ok (h : write actor field t = .ok t') : fieldPermitted actor field ∧ t' = t := by
  simp only [write, Bool.not_eq_true'] at h
  split at h
  case isTrue  => contradiction
  case isFalse hp =>
    cases h
    exact ⟨by simpa using hp, rfl⟩

theorem checkReady_ok (h : t.checkReady = .ok ()) : t.design.Complete t.hasUi := by
  simp only [checkReady] at h
  split at h
  case isTrue  => contradiction
  case isFalse ht =>
    split at h
    case isTrue  => contradiction
    case isFalse hu => exact ⟨by simpa [Option.isSome_iff_ne_none] using ht, by
      simpa [Option.isSome_iff_ne_none] using hu⟩

-- A transition that succeeds follows an edge that the actor may follow, and it enters `ready` only
-- with a design.
structure Move (t : Ticket) (actor : Role) (dst : Status) : Prop where
  edge      : transitionAllowed t.kind t.status dst
  permitted : canTransition actor t.status dst
  designed  : dst = .ready → t.design.Complete t.hasUi

theorem transitionTo_ok {dst : Status} (h : t.transitionTo actor dst = .ok t') :
    t.Move actor dst ∧ t' = t.enter dst := by
  simp only [transitionTo, checkTransition] at h
  split at h
  case h_1 => contradiction
  case h_2 hc =>
    cases h
    split at hc
    case isTrue  => contradiction
    case isFalse he =>
      split at hc
      case isTrue  => contradiction
      case isFalse hp =>
        refine ⟨⟨by simpa using he, by simpa using hp, ?_⟩, rfl⟩
        intro hd
        rw [if_pos hd] at hc
        exact checkReady_ok hc

theorem claim_ok {worker now : String} (h : t.claim actor worker now = .ok t') :
    t.claimedBy = none ∧ t.Move actor .inProgress ∧
    t' = { t with status := .inProgress, claimedBy := some worker, claimedAt := some now } := by
  simp only [claim] at h
  split at h
  case h_1 => contradiction
  case h_2 hn =>
    split at h
    case h_1 => contradiction
    case h_2 ht =>
      cases h
      obtain ⟨hm, he⟩ := transitionTo_ok ht
      exact ⟨hn, hm, by simp [he, enter]⟩

theorem releaseClaim_ok (h : t.releaseClaim actor = .ok t') :
    actor = .system ∧ t.status = .inProgress ∧
    t' = { t with
      claimedBy := none
      claimedAt := none
      status    := match t.kind with
        | .bug              => .open
        | .feature | .chore => .ready } := by
  simp only [releaseClaim] at h
  split at h
  case isTrue  => contradiction
  case isFalse ha =>
    split at h
    case isTrue  => contradiction
    case isFalse hs =>
      cases h
      exact ⟨by simpa using ha, by simpa using hs, rfl⟩

theorem takeOver_ok {worker now : String} {prev : Option String}
    (h : t.takeOver actor worker now = .ok (prev, t')) :
    actor = .system ∧ t.status = .inProgress ∧ prev = t.claimedBy ∧
    t' = { t with claimedBy := some worker, claimedAt := some now } := by
  simp only [takeOver] at h
  split at h
  case isTrue  => contradiction
  case isFalse ha =>
    split at h
    case isTrue  => contradiction
    case isFalse hs =>
      cases h
      exact ⟨by simpa using ha, by simpa using hs, rfl, rfl⟩

-- The only other thing that a repair does is to reopen a misfiled bug.
theorem reclaimMisfiled_ok {repaired : Bool} (h : t.reclaimMisfiled actor = .ok (repaired, t')) :
    t' = t ∨
    t.kind = .bug ∧ t.status ∈ foreign .bug ∧
    t' = { t with status := .open, claimedBy := none, claimedAt := none } := by
  simp only [reclaimMisfiled] at h
  split at h
  case isTrue  => contradiction
  case isFalse =>
    split at h
    case isTrue hm =>
      cases h
      exact .inr ⟨hm.1, hm.2, rfl⟩
    case isFalse =>
      cases h
      exact .inl rfl

theorem new_ok {id : TicketId} {type : TicketType} {title description : String} {priority : Priority}
    {complexity : Complexity} {hasUi : Bool}
    (h : new id type title description priority complexity hasUi = .ok t) :
    ¬Text.Blank title ∧ t = {
      id, kind := type, title, description, priority, complexity, hasUi
      status := if type = .bug then .open else .pending } := by
  simp only [new] at h
  split at h
  case isTrue     => cases h
  case isFalse ht =>
    cases h
    cases type <;> exact ⟨ht, rfl⟩

theorem edit_ok {title description : String} (h : t.edit actor title description = .ok t') :
    ¬Text.Blank title ∧ t' = { t with title, description } := by
  simp only [edit] at h
  split at h
  case isTrue  => cases h
  case isFalse =>
    split at h
    case isTrue     => cases h
    case isFalse ht =>
      cases h
      exact ⟨ht, rfl⟩

theorem clarify_ok {description : String} (h : t.clarify actor description = .ok t') :
    t' = { t with description := Text.trim description } := by
  simp only [clarify] at h
  split at h
  case isTrue  => cases h
  case isFalse =>
    split at h
    case isTrue  => cases h
    case isFalse =>
      cases h
      rfl

theorem length_newest_le {α : Type} (cap : Nat) (l : List α) : (newest cap l).length ≤ cap := by
  simp only [newest, List.length_drop]
  omega

theorem mem_updateCase {description : String} {f : TestCase → TestCase}
    {cases' tcs : List TestCase} (h : updateCase description f tcs = some cases') :
    ∀ tc ∈ cases', tc ∈ tcs ∨ ∃ tc₀ ∈ tcs, tc = f tc₀ := by
  induction tcs generalizing cases'
  case nil => contradiction
  case cons tc₀ tcs hi =>
    simp only [updateCase] at h
    split at h
    case isTrue =>
      cases h
      simp only [List.forall_mem_cons]
      exact ⟨.inr ⟨tc₀, by simp, rfl⟩, fun tc h => .inl (by simp [h])⟩
    case isFalse =>
      obtain ⟨rest, hr, rfl⟩ := Option.map_eq_some_iff.mp h
      simp only [List.forall_mem_cons]
      refine ⟨.inl (by simp), fun tc ht => ?_⟩
      cases hi hr tc ht
      case inl h => exact .inl (by simp [h])
      case inr h =>
        obtain ⟨tc₁, h₁, he⟩ := h
        exact .inr ⟨tc₁, by simp [h₁], he⟩

namespace WellFormed

theorem new {id : TicketId} {type : TicketType} {title description : String} {priority : Priority}
    {complexity : Complexity} {hasUi : Bool}
    (h : Ticket.new id type title description priority complexity hasUi = .ok t) :
    t.WellFormed := by
  obtain ⟨ht, he⟩ := new_ok h
  subst he
  cases type <;>
    exact {
      native      := by simp [foreign]
      stamped     := by simp
      held        := by simp
      designed    := by simp
      titled      := ht
      criteria    := by simp
      trimmed     := by simp
      histories   := by simp
      checkpoints := by simp
    }

-- Every edge stays in the family of the ticket.
theorem edge_native {type : TicketType} {src dst : Status} (h : transitionAllowed type src dst)
    (hs : src ∉ foreign type) : dst ∉ foreign type := by
  revert h hs
  cases type <;> cases src <;> cases dst <;> decide

-- The statuses after `ready` are entered from `ready` or from each other.
theorem edge_designed {type : TicketType} {src dst : Status} (h : transitionAllowed type src dst)
    (ht : type ≠ .bug) (hd : dst ∈ [Status.ready, .inProgress, .done, .documented]) :
    dst = .ready ∨ src ∈ [Status.ready, .inProgress, .done, .documented] := by
  revert h ht hd
  cases type <;> cases src <;> cases dst <;> decide

variable (hw : t.WellFormed)
include hw

theorem enter {dst : Status} (hm : t.Move actor dst) : (t.enter dst).WellFormed := by
  have native : dst ∉ foreign t.kind := edge_native hm.edge hw.native
  have designed (hk : t.kind ≠ .bug) (hd : dst ∈ [Status.ready, .inProgress, .done, .documented]) :
      t.design.Complete t.hasUi := by
    cases edge_designed hm.edge hk hd
    case inl hr => exact hm.designed hr
    case inr hs => exact hw.designed hk hs
  simp only [Ticket.enter]
  split
  case isTrue hd =>
    exact { hw with
      native
      held     := fun _ => hd
      designed
    }
  case isFalse =>
    exact { hw with
      native
      stamped  := by simp
      held     := by simp
      designed
    }

theorem claim {worker now : String} (h : t.claim actor worker now = .ok t') : t'.WellFormed := by
  have ⟨_, hm, he⟩ := claim_ok h
  have hi := hw.enter hm
  simp only [Ticket.enter, if_true] at hi
  exact he ▸ { hi with
    stamped  := by simp
    held     := fun _ => rfl
  }

theorem releaseClaim (h : t.releaseClaim actor = .ok t') : t'.WellFormed := by
  have ⟨_, hs, he⟩ := releaseClaim_ok h
  have hd (hk : t.kind ≠ .bug) : t.design.Complete t.hasUi := hw.designed hk (by simp [hs])
  subst he
  exact { hw with
    native   := by cases t.kind <;> simp [foreign]
    stamped  := by simp
    held     := by simp
    designed := fun hk _ => hd hk
  }

theorem takeOver {worker now : String} {prev : Option String}
    (h : t.takeOver actor worker now = .ok (prev, t')) : t'.WellFormed := by
  have ⟨_, hs, _, he⟩ := takeOver_ok h
  exact he ▸ { hw with
    stamped  := by simp
    held     := fun _ => hs
  }

theorem reclaimMisfiled {repaired : Bool} (h : t.reclaimMisfiled actor = .ok (repaired, t')) :
    t'.WellFormed := by
  cases reclaimMisfiled_ok h
  case inl he => exact he ▸ hw
  case inr he =>
    -- A well-formed bug is never misfiled.
    have ⟨hk, hs, _⟩ := he
    exact absurd (hk ▸ hs) hw.native

theorem edit {title description : String} (h : t.edit actor title description = .ok t') :
    t'.WellFormed := by
  obtain ⟨ht, he⟩ := edit_ok h
  exact he ▸ { hw with titled := ht }

theorem setAcceptanceCriteria (criteria : List String) :
    (t.setAcceptanceCriteria criteria).WellFormed := { hw with
  criteria := List.length_take_le _ _
  trimmed  := by
    intro ac ha
    have ha := List.mem_filter.mp (List.mem_of_mem_take ha)
    have ⟨raw, _, he⟩ := List.mem_map.mp ha.1
    subst he
    simpa [Text.Blank] using ha.2
}

-- Two of the fields that are free, where the text they are set to is better not computed.
theorem withAssignee {assignee : Option String} : { t with assignee }.WellFormed :=
  { hw with }

theorem withServiceTag {serviceTag : Option String} : { t with serviceTag }.WellFormed :=
  { hw with }

-- The cases are rewritten by a function that keeps the histories short.
theorem withTestCases {tcs : List TestCase}
    (h : ∀ tc ∈ tcs, tc.history.length ≤ maxVerdictHistory) :
    { t with testCases := tcs }.WellFormed :=
  { hw with histories := h }

theorem withCase {description : String} {f : TestCase → TestCase}
    (hf : ∀ tc ∈ t.testCases, (f tc).history.length ≤ maxVerdictHistory) :
    (t.withCase description f).2.WellFormed := by
  simp only [Ticket.withCase]
  split
  case h_1 => exact hw
  case h_2 tcs hu =>
    apply hw.withTestCases
    intro tc ht
    cases mem_updateCase hu tc ht
    case inl h => exact hw.histories tc h
    case inr h =>
      have ⟨tc₀, h₀, he⟩ := h
      exact he ▸ hf tc₀ h₀

theorem syncTestCasesFromAcceptance : t.syncTestCasesFromAcceptance.WellFormed := by
  apply hw.withTestCases
  intro tc ht
  have ⟨ac, _, he⟩ := List.mem_map.mp ht
  subst he
  cases hf : t.testCases.find? (·.description = ac)
  case none    => simp [TestCase.pending]
  case some tc => exact hw.histories tc (List.mem_of_find?_eq_some hf)

theorem step (o : TicketOp) : (o.step t).WellFormed := by
  simp only [TicketOp.step]
  split
  case h_2 => exact hw
  case h_1 t' h =>
    cases o <;> simp only [TicketOp.run, Except.ok.injEq] at h
    case claim               => exact hw.claim h
    case releaseClaim        => exact hw.releaseClaim h
    case edit                => exact hw.edit h
    case clarify             => exact clarify_ok h ▸ { hw with }
    case transitionTo        =>
      have ⟨hm, he⟩ := transitionTo_ok h
      exact he ▸ hw.enter hm
    case setAcceptanceCriteria => exact h ▸ hw.setAcceptanceCriteria _
    case setTechnicalDesign =>
      exact (write_ok h).2 ▸ { hw with
        designed := fun hk hs => ⟨rfl, (hw.designed hk hs).ux⟩
      }
    case setUxDesign =>
      exact (write_ok h).2 ▸ { hw with
        designed := fun hk hs => ⟨(hw.designed hk hs).technical, fun _ => rfl⟩
      }
    case recordWipCheckpoint =>
      exact (write_ok h).2 ▸ { hw with checkpoints := length_newest_le _ _ }
    case clearWipCheckpoints =>
      exact (write_ok h).2 ▸ { hw with checkpoints := Nat.zero_le _ }
    case removeDependency =>
      simp only [Ticket.removeDependency] at h
      split at h <;> cases h
      exact { hw with }
    case addDependency =>
      have he := (write_ok h).2
      split at he <;> exact he ▸ { hw with }
    case stampCreatedAt =>
      simp only [Ticket.stampCreatedAt] at h
      split at h <;> exact h ▸ { hw with }
    case setGoalId | setPriority | setParent =>
      exact (write_ok h).2 ▸ { hw with }
    case setServiceTag => exact (write_ok h).2 ▸ hw.withServiceTag
    case assignToHuman => exact h ▸ hw.withAssignee
    case reclaimMisfiled =>
      have ⟨_, h⟩ := map_snd_ok h
      exact hw.reclaimMisfiled h
    case takeOver =>
      have ⟨_, h⟩ := map_snd_ok h
      exact hw.takeOver h
    case syncTestCasesFromAcceptance => exact h ▸ hw.syncTestCasesFromAcceptance
    case ensureTestCasesFromAcceptance =>
      simp only [Ticket.ensureTestCasesFromAcceptance] at h
      split at h
      case isTrue  => exact h ▸ hw
      case isFalse => exact h ▸ hw.syncTestCasesFromAcceptance
    case setTestCaseResult =>
      exact h ▸ hw.withCase fun _ _ => length_newest_le _ _
    case setTestCaseImage =>
      exact h ▸ hw.withCase fun _ _ => length_newest_le _ _
    case setTestCaseRepro =>
      simp only [Ticket.setTestCaseRepro] at h
      split at h
      case isTrue  => exact h ▸ hw
      case isFalse => exact h ▸ hw.withCase hw.histories
    case setTestCaseSources => exact h ▸ hw.withCase hw.histories

theorem run (ops : List TicketOp) : (ops.foldl TicketOp.step t).WellFormed := by
  induction ops generalizing t
  case nil          => exact hw
  case cons o _ hi  => exact hi (hw.step o)

end WellFormed

-- Whatever is asked of a new ticket, and by whom, it stays well-formed.
theorem wellFormed_of_new {id : TicketId} {type : TicketType} {title description : String}
    {priority : Priority} {complexity : Complexity} {hasUi : Bool}
    (h : new id type title description priority complexity hasUi = .ok t) (ops : List TicketOp) :
    (ops.foldl TicketOp.step t).WellFormed :=
  (WellFormed.new h).run ops

-- A new feature, and how it is designed, claimed and shipped.
def search : Ticket where
  id     := ⟨"F001"⟩
  kind   := .feature
  title  := "Search"
  status := .pending

def shipping : List TicketOp := [
  .setTechnicalDesign .sa ⟨"index the titles", [], "", "", "", ""⟩,
  .transitionTo .sa .ready,
  .claim .devFeature "dev@host" "2026-01-01T00:00:00Z",
  .transitionTo .devFeature .done
]

theorem new_search : new ⟨"F001"⟩ .feature "Search" "" .medium .small false = .ok search := by
  decide +kernel

theorem wellFormed_shipped :
    (shipping.foldl TicketOp.step search).status = .done ∧
    (shipping.foldl TicketOp.step search).WellFormed :=
  ⟨by decide +kernel, wellFormed_of_new new_search shipping⟩

end Ticket
