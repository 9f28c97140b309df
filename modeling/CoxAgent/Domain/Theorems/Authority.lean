import CoxAgent.Domain.Theorems.Lifecycle

-- The roles that the table lets start work.
def claimants : List Role :=
  [.devBug, .devFeature, .system]

namespace Ticket

variable {t : Ticket} {description : String} {f : TestCase → TestCase}

@[simp]
theorem withCase_status : (t.withCase description f).2.status = t.status := by
  simp only [withCase]
  split <;> rfl

@[simp]
theorem withCase_claimedBy : (t.withCase description f).2.claimedBy = t.claimedBy := by
  simp only [withCase]
  split <;> rfl

end Ticket

namespace TicketOp

-- A bare transition into `inProgress`, as opposed to a claim.
def EntersBare (o : TicketOp) (t : Ticket) : Prop :=
  ∃ actor, o = .transitionTo actor .inProgress ∧ t.claimedBy = none ∧
    transitionAllowed t.kind t.status .inProgress ∧ canTransition actor t.status .inProgress

-- What an operation does to the status and the holder.
inductive Effect (t t' : Ticket) : TicketOp → Prop
  | keep {o} : t'.status = t.status → t'.claimedBy = t.claimedBy → Effect t t' o
  | free {o} : t'.status ≠ .inProgress → t'.claimedBy = none → Effect t t' o
  | enter {actor} : t.Move actor .inProgress → t'.status = .inProgress →
    t'.claimedBy = t.claimedBy → Effect t t' (.transitionTo actor .inProgress)
  | claim {actor worker now} : t.claimedBy = none → t.Move actor .inProgress →
    t'.claimedBy = some worker → Effect t t' (.claim actor worker now)
  | takeOver {worker now} : t'.claimedBy = some worker → Effect t t' (.takeOver .system worker now)

variable {t t' : Ticket} {o : TicketOp}

theorem effect (h : o.run t = .ok t') : Effect t t' o := by
  cases o <;> simp only [run, Except.ok.injEq] at h
  case claim =>
    obtain ⟨hn, hm, he⟩ := Ticket.claim_ok h
    exact .claim hn hm (by simp [he])
  case transitionTo actor dst =>
    obtain ⟨hm, he⟩ := Ticket.transitionTo_ok h
    by_cases hd : dst = .inProgress
    case pos =>
      subst hd he
      exact .enter hm (by simp [Ticket.enter]) (by simp [Ticket.enter])
    case neg => exact .free (by simp [he, Ticket.enter, hd]) (by simp [he, Ticket.enter, hd])
  case releaseClaim =>
    obtain ⟨_, _, he⟩ := Ticket.releaseClaim_ok h
    exact .free (by cases hk : t.kind <;> simp [he, hk]) (by simp [he])
  case takeOver =>
    obtain ⟨_, h⟩ := Ticket.map_snd_ok h
    obtain ⟨ha, _, _, he⟩ := Ticket.takeOver_ok h
    exact ha ▸ .takeOver (by simp [he])
  case reclaimMisfiled =>
    obtain ⟨_, h⟩ := Ticket.map_snd_ok h
    cases Ticket.reclaimMisfiled_ok h
    case inl he => exact .keep (by simp [he]) (by simp [he])
    case inr he => exact .free (by simp [he.2.2]) (by simp [he.2.2])
  case setGoalId | setServiceTag | setPriority | setParent | setTechnicalDesign | setUxDesign
      | recordWipCheckpoint | clearWipCheckpoints =>
    have he := (Ticket.write_ok h).2
    exact .keep (by simp [he]) (by simp [he])
  case addDependency =>
    have he := (Ticket.write_ok h).2
    split at he <;> exact .keep (by simp [he]) (by simp [he])
  case removeDependency =>
    simp only [Ticket.removeDependency] at h
    split at h <;> cases h
    exact .keep rfl rfl
  case edit =>
    obtain ⟨_, he⟩ := Ticket.edit_ok h
    exact .keep (by simp [he]) (by simp [he])
  case clarify =>
    have he := Ticket.clarify_ok h
    exact .keep (by simp [he]) (by simp [he])
  case stampCreatedAt =>
    simp only [Ticket.stampCreatedAt] at h
    split at h <;> subst h <;> exact .keep rfl rfl
  case ensureTestCasesFromAcceptance =>
    simp only [Ticket.ensureTestCasesFromAcceptance] at h
    split at h <;> subst h <;> exact .keep rfl rfl
  case setTestCaseRepro =>
    simp only [Ticket.setTestCaseRepro] at h
    split at h <;> subst h
    case isTrue  => exact .keep rfl rfl
    case isFalse => exact .keep Ticket.withCase_status Ticket.withCase_claimedBy
  case setTestCaseResult | setTestCaseImage | setTestCaseSources =>
    subst h
    exact .keep Ticket.withCase_status Ticket.withCase_claimedBy
  case assignToHuman =>
    simp only [Ticket.assignToHuman] at h
    subst h
    exact .keep rfl rfl
  case setAcceptanceCriteria | syncTestCasesFromAcceptance =>
    subst h
    exact .keep rfl rfl

end TicketOp

namespace Ticket

variable {t : Ticket}

-- Only developers and the orchestrator start work, and nobody else becomes a holder except when
-- the orchestrator swaps one.
structure Authority (t : Ticket) : Prop where
  claim : ∀ {actor worker now t'}, t.claim actor worker now = .ok t' → actor ∈ claimants
  holder : ∀ {o : TicketOp} {t' worker}, o.run t = .ok t' → t'.claimedBy = some worker →
    t.claimedBy ≠ some worker →
    (∃ actor ∈ claimants, ∃ now, o = .claim actor worker now) ∨
    ∃ now, o = .takeOver .system worker now

-- Work in progress has a holder.
def Held (t : Ticket) : Prop :=
  t.status = .inProgress → t.claimedBy.isSome

theorem claimants_of_canTransition {actor : Role} {src : Status} (hs : src ≠ .inProgress)
    (h : canTransition actor src .inProgress) : actor ∈ claimants := by
  revert hs h
  cases src <;> cases actor <;> decide

theorem Held.move (h : t.Held) {actor : Role} (hn : t.claimedBy = none)
    (hm : t.Move actor .inProgress) : actor ∈ claimants := by
  apply claimants_of_canTransition _ hm.permitted
  intro hs
  simpa [hn] using h hs

-- The shortcut for a repeated status lets everybody claim work in progress that has no holder.
theorem claim_unheld (hs : t.status = .inProgress) (hn : t.claimedBy = none) (actor : Role)
    (worker now : String) :
    t.claim actor worker now = .ok { t with claimedBy := some worker, claimedAt := some now } := by
  simp [claim, transitionTo, checkTransition, transitionAllowed, canTransition, enter, hs, hn]

theorem authority_iff_held : t.Authority ↔ t.Held := by
  constructor
  case mp =>
    intro ha hs
    cases hn : t.claimedBy
    case some => rfl
    case none => exact absurd (ha.claim (claim_unheld hs hn .ba "" "")) (by decide)
  case mpr =>
    intro hh
    refine ⟨fun h => ?_, fun {o t' worker} h hw hne => ?_⟩
    · have ⟨hn, hm, _⟩ := claim_ok h
      exact hh.move hn hm
    · cases TicketOp.effect h
      case keep _ hk      => exact absurd (hk ▸ hw) hne
      case free _ hf      => simp [hf] at hw
      case enter _ _ hk   => exact absurd (hk ▸ hw) hne
      case claim hn hm hc =>
        cases hc.symm.trans hw
        exact .inl ⟨_, hh.move hn hm, _, rfl⟩
      case takeOver hc =>
        cases hc.symm.trans hw
        exact .inr ⟨_, rfl⟩

theorem step_of_entersBare {o : TicketOp} (h : o.EntersBare t) :
    o.step t = { t with status := .inProgress } := by
  obtain ⟨actor, rfl, _, he, hp⟩ := h
  simp [TicketOp.step, TicketOp.run, transitionTo, checkTransition, enter, he, hp]

-- A step keeps work in progress held iff it is not a bare transition.
theorem Held.step_iff (h : t.Held) (o : TicketOp) : (o.step t).Held ↔ ¬o.EntersBare t := by
  constructor
  case mp =>
    intro hh hb
    have ⟨_, _, hn, _⟩ := hb
    rw [step_of_entersBare hb] at hh
    simpa [hn] using hh rfl
  case mpr =>
    intro hb
    simp only [TicketOp.step]
    split
    case h_2 => exact h
    case h_1 t' hr =>
      intro hs
      cases TicketOp.effect hr
      case keep hk hc        => exact hc ▸ h (hk ▸ hs)
      case free hf _         => exact absurd hs hf
      case claim _ _ hc      => simp [hc]
      case takeOver hc       => simp [hc]
      case enter hm _ hc     =>
        cases hn : t.claimedBy
        case some => simp [hc, hn]
        case none => exact absurd ⟨_, rfl, hn, hm.edge, hm.permitted⟩ hb

-- Induction over the operations, where every state before the first bare transition is held and
-- the state after it is not.
theorem Held.run_iff (h : t.Held) (ops : List TicketOp) :
    (∀ pre, pre <+: ops → (pre.foldl TicketOp.step t).Held) ↔
      ∀ pre o, pre ++ [o] <+: ops → ¬o.EntersBare (pre.foldl TicketOp.step t) := by
  constructor
  case mp =>
    intro hh pre o hp
    have hpre : (pre.foldl TicketOp.step t).Held := hh pre ((List.prefix_append _ _).trans hp)
    rw [← hpre.step_iff]
    simpa using hh _ hp
  case mpr =>
    intro hb pre hp
    induction pre using List.reverseRecOn
    case nil => exact h
    case append_singleton pre o hi =>
      have hpre := hi ((List.prefix_append _ _).trans hp)
      simpa using (hpre.step_iff o).mpr (hb pre o hp)

theorem Held.new {id : TicketId} {type : TicketType} {title description : String}
    {priority : Priority} {complexity : Complexity} {hasUi : Bool}
    (h : new id type title description priority complexity hasUi = .ok t) : t.Held := by
  obtain ⟨_, he⟩ := new_ok h
  subst he
  intro hs
  cases type <;> cases hs

-- Claims are for developers in every state that a run reaches iff the run has no bare transition
-- into work in progress.
theorem authority_iff_claimed {id : TicketId} {type : TicketType} {title description : String}
    {priority : Priority} {complexity : Complexity} {hasUi : Bool}
    (h : new id type title description priority complexity hasUi = .ok t) (ops : List TicketOp) :
    (∀ pre, pre <+: ops → (pre.foldl TicketOp.step t).Authority) ↔
      ∀ pre o, pre ++ [o] <+: ops → ¬o.EntersBare (pre.foldl TicketOp.step t) := by
  simp only [authority_iff_held]
  exact (Held.new h).run_iff ops

theorem authority_shipping :
    new ⟨"F001"⟩ .feature "Search" "" .medium .small false = .ok search ∧
    ∀ pre, pre <+: shipping → (pre.foldl TicketOp.step search).Authority := by
  refine ⟨new_search, (authority_iff_claimed new_search shipping).mpr ?_⟩
  rintro pre o hp ⟨actor, rfl, _⟩
  have hm : .transitionTo actor .inProgress ∈ shipping := hp.subset (by simp)
  simp [shipping] at hm

-- A developer moves a ready ticket by hand, and then an analyst claims it.
def enteredByHand : List TicketOp := [
  .setTechnicalDesign .sa ⟨"index the titles", [], "", "", "", ""⟩,
  .transitionTo .sa .ready,
  .transitionTo .devFeature .inProgress
]

theorem not_authority_enteredByHand :
    new ⟨"F001"⟩ .feature "Search" "" .medium .small false = .ok search ∧
    (((enteredByHand.foldl TicketOp.step search).claim .ba "ba@host" "now").map (·.claimedBy)
      = .ok (some "ba@host")) ∧
    ¬(enteredByHand.foldl TicketOp.step search).Authority := by
  have hc : ((enteredByHand.foldl TicketOp.step search).claim .ba "ba@host" "now").map
      (·.claimedBy) = .ok (some "ba@host") := by decide +kernel
  refine ⟨new_search, hc, fun ha => ?_⟩
  cases hr : (enteredByHand.foldl TicketOp.step search).claim .ba "ba@host" "now"
  case error => simp [hr, Except.map] at hc
  case ok    => exact absurd (ha.claim hr) (by decide)

end Ticket
