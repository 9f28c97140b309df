import CoxAgent.Approval.Theorems.Pass
import CoxAgent.Lib.Lists

namespace Approval

variable {u : Text.Unicode} {now mint : Nat → String} {cfg : HumanConfig} {s : ProjectState}
  {learnAfter : Nat} {t : Ticket} {id : TicketId}

section Panel

-- What the move into `ready` asks of a ticket beyond what the gate looks at.
def Movable (t : Ticket) : Prop :=
  t.kind ≠ .bug ∧ (t.hasUi → t.design.ux.isSome)

instance (t : Ticket) : Decidable (Movable t) :=
  inferInstanceAs (Decidable (_ ∧ _))

theorem isCandidate_iff : isCandidate t ↔ t.status = .pending ∧ t.design.technical.isSome := by
  simp [isCandidate]

-- Only candidates move.
theorem candidate_of_moves (hn : t.status ≠ .ready) (h : (t.transitionTo .system .ready).isOk) :
    isCandidate t ∧ Movable t := by
  have hp : t.status = .pending := by
    rw [Ticket.transitionTo_ready] at h
    split at h
    case isFalse => cases h
    case isTrue ha =>
      unfold transitionAllowed at ha
      cases hk : t.kind <;> cases hs : t.status <;> simp_all
  have hd : t.design.technical.isSome := by
    by_contra hd
    have hnone : t.design.technical.isNone := by simpa using hd
    rw [Ticket.transitionTo_ready] at h
    split at h
    · simp [Ticket.checkReady, hnone, Except.map, Except.isOk, Except.toBool] at h
    · cases h
  exact ⟨isCandidate_iff.mpr ⟨hp, hd⟩, (Ticket.transitionTo_ready_isOk hp hd).mp h⟩

theorem approvable_iff (hn : t.status ≠ .ready) (ht : s.ticket t.id = some t) :
    approvable u s learnAfter t.id ↔ willAuto u s learnAfter t ∧ isCandidate t ∧ Movable t := by
  simp only [approvable, ht, Option.any_some, Bool.and_eq_true]
  constructor
  · rintro ⟨hw, hok⟩
    exact ⟨hw, candidate_of_moves hn hok⟩
  · rintro ⟨hw, hc, hm⟩
    obtain ⟨hp, hd⟩ := isCandidate_iff.mp hc
    exact ⟨hw, (Ticket.transitionTo_ready_isOk hp hd).mpr hm⟩

theorem mem_candidates (ht : s.ticket id = some t) (hc : isCandidate t) : id ∈ candidates s := by
  obtain ⟨hm, rfl⟩ := ProjectState.ticket_mem ht
  exact List.mem_map.mpr ⟨t, List.mem_filter.mpr ⟨hm, hc⟩, rfl⟩

-- Below the cap, what moves is what passes the gate and may move.
theorem moved_iff (hr : cfg.gateReady) (he : cfg.adaptive.enabled)
    (hcap : (candidates s).length ≤ cfg.adaptive.cap) :
    (∃ t ∈ movedToReady s (adaptiveApprovalPass u now mint cfg s), t.id = id) ↔
      ∃ t, s.ticket id = some t ∧ willAuto u s cfg.adaptive.learnAfter t ∧ isCandidate t ∧ Movable t := by
  have hall : ((candidates s).filter (approvable u s cfg.adaptive.learnAfter)).take cfg.adaptive.cap =
      (candidates s).filter (approvable u s cfg.adaptive.learnAfter) :=
    List.take_of_length_le ((List.length_filter_le _ _).trans hcap)
  constructor
  case mp =>
    rintro ⟨t, hm, rfl⟩
    obtain ⟨ht, hn, hid⟩ := (mem_movedToReady hr he).mp hm
    rw [hall] at hid
    exact ⟨t, ht, (approvable_iff hn ht).mp (List.mem_filter.mp hid).right⟩
  case mpr =>
    rintro ⟨t, ht, hg⟩
    obtain ⟨_, rfl⟩ := ProjectState.ticket_mem ht
    have hn : t.status ≠ .ready := by simp [(isCandidate_iff.mp hg.right.left).left]
    refine ⟨t, (mem_movedToReady hr he).mpr ⟨ht, hn, ?_⟩, rfl⟩
    rw [hall]
    exact List.mem_filter.mpr ⟨mem_candidates ht hg.right.left, (approvable_iff hn ht).mpr hg⟩

theorem row_iff (hr : cfg.gateReady) (he : cfg.adaptive.enabled) :
    (∃ row ∈ (policyOverview u s cfg.adaptive cfg.gateReady).deciding,
      row.ticket = id.asStr ∧ row.willAuto) ↔
    ∃ t ∈ s.tickets, t.id = id ∧ isCandidate t ∧ willAuto u s cfg.adaptive.learnAfter t := by
  simp only [policyOverview, hr, he, Bool.not_true, Bool.or_self, Bool.false_eq_true, ↓reduceIte,
    decidingRows, List.mem_map, List.mem_filter]
  constructor
  · rintro ⟨_, ⟨t, ⟨hm, hc⟩, rfl⟩, hid, hw⟩
    exact ⟨t, hm, TicketId.ext hid, hc, hw⟩
  · rintro ⟨t, hm, rfl, hc, hw⟩
    exact ⟨_, ⟨t, ⟨hm, hc⟩, rfl⟩, rfl, hw⟩

-- The panel and the pass agree iff every ticket that the panel announces is one that may move. With
-- an id in use twice, the pass looks at the first ticket that has it.
theorem panel_agrees_iff (hr : cfg.gateReady) (he : cfg.adaptive.enabled)
    (hcap : (candidates s).length ≤ cfg.adaptive.cap) :
    (∀ id : TicketId,
      (∃ t ∈ movedToReady s (adaptiveApprovalPass u now mint cfg s), t.id = id) ↔
      ∃ row ∈ (policyOverview u s cfg.adaptive cfg.gateReady).deciding,
        row.ticket = id.asStr ∧ row.willAuto) ↔
    ∀ t ∈ s.tickets, isCandidate t → willAuto u s cfg.adaptive.learnAfter t →
      ∃ first, s.ticket t.id = some first ∧
        willAuto u s cfg.adaptive.learnAfter first ∧ isCandidate first ∧ Movable first := by
  simp only [moved_iff hr he hcap, row_iff hr he]
  constructor
  case mp =>
    intro h t ht hc hw
    exact (h t.id).mpr ⟨t, ht, rfl, hc, hw⟩
  case mpr =>
    intro h id
    constructor
    · rintro ⟨t, ht, hw, hc, _⟩
      have ⟨hm, hid⟩ := ProjectState.ticket_mem ht
      exact ⟨t, hm, hid, hc, hw⟩
    · rintro ⟨t, hm, rfl, hc, hw⟩
      exact h t hm hc hw

-- A gate with the default limits.
def gateOn : HumanConfig where
  gateReady := true
  adaptive  := { enabled := true }

def design (files : List String) : TechnicalDesign where
  approach     := "do it"
  files        := files
  apiContract  := ""
  dataChanges  := ""
  testPlan     := ""
  alternatives := ""

-- A routine change to a screen whose UX design is still to come.
def screenTest (ux : Option UxDesign) : Ticket where
  id                 := ⟨"COX-F001"⟩
  kind               := .feature
  title              := "Add a login screen test"
  status             := .pending
  hasUi              := true
  design             := { technical := some (design ["tests/login.rs"]), ux }
  acceptanceCriteria := ["the form is covered"]

def clock (k : Nat) : String :=
  s!"2026-08-31T12:00:0{k}Z"

def screenUx : UxDesign :=
  ⟨"open, sign in", ["login"], [], ""⟩

-- The panel announces the ticket, and the pass leaves it where it is.
theorem panel_disagrees :
    let s : ProjectState := { tickets := [screenTest none] }
    (candidates s).length ≤ gateOn.adaptive.cap ∧
    (∃ row ∈ (policyOverview Text.ascii s gateOn.adaptive gateOn.gateReady).deciding,
      row.ticket = "COX-F001" ∧ row.willAuto) ∧
    movedToReady s (adaptiveApprovalPass Text.ascii clock clock gateOn s) = [] := by
  decide +kernel

theorem panel_agrees_screen :
    let s : ProjectState := { tickets := [screenTest (some screenUx)] }
    ∀ id : TicketId,
      (∃ t ∈ movedToReady s (adaptiveApprovalPass Text.ascii clock clock gateOn s), t.id = id) ↔
      ∃ row ∈ (policyOverview Text.ascii s gateOn.adaptive gateOn.gateReady).deciding,
        row.ticket = id.asStr ∧ row.willAuto := by
  intro s
  refine (panel_agrees_iff rfl rfl (by decide)).mpr fun t ht _ _ => ?_
  obtain rfl := List.mem_singleton.mp ht
  exact ⟨_, rfl, by decide +kernel, by decide, by decide⟩

end Panel

section Floors

theorem hardAsk_iff : hardAsk t ↔
    t.complexity = .large ∨ ∃ f ∈ t.files, ∃ part ∈ sensitive, containsText f part := by
  simp [hardAsk, Ticket.touchesSensitive]

-- The decisions on a shape that make the gate approve it by itself: approvals only, and enough of them.
structure Trusted (samples : List ApprovalSample) (shape : String) (learnAfter : Nat) : Prop where
  unanimous : ∀ x ∈ samples, x.shape = shape → x.decision ≠ "undo" ∧ x.decision ≠ "reject"
  enough    : max learnAfter 1 ≤ samples.countP fun x => x.shape = shape ∧ x.decision = "approve"

theorem trusted_iff {samples : List ApprovalSample} {shape : String} :
    Trusted samples shape learnAfter ↔ ∃ who n, ruleFor shape samples learnAfter = .autoApprove who n := by
  have hundo : ((samples.filter (·.shape = shape)).any (·.decision = "undo") = true) ↔
      ∃ x ∈ samples, x.shape = shape ∧ x.decision = "undo" := by
    simp
  have hreject : ((samples.filter (·.shape = shape)).filter (·.decision = "reject")).isEmpty ↔
      ∀ x ∈ samples, x.shape = shape → x.decision ≠ "reject" := by
    simp only [List.isEmpty_iff, List.filter_eq_nil_iff, List.mem_filter, decide_eq_true_eq, and_imp, ne_eq]
  have happrove : ((samples.filter (·.shape = shape)).filter (·.decision = "approve")).length =
      samples.countP fun x => x.shape = shape ∧ x.decision = "approve" := by
    rw [← List.countP_eq_length_filter, List.countP_filter]
    simp only [Bool.decide_and, Bool.and_comm]
  unfold ruleFor
  dsimp only
  constructor
  case mp =>
    intro h
    have hn : ¬∃ x ∈ samples, x.shape = shape ∧ x.decision = "undo" :=
      fun hu => by
        obtain ⟨x, hx, hs, hd⟩ := hu
        exact (h.unanimous x hx hs).left hd
    have hr := hreject.mpr fun x hx hs => (h.unanimous x hx hs).right
    rw [if_neg (mt hundo.mp hn), if_neg (by simp [List.isEmpty_iff.mp hr]), hr, happrove,
      if_pos (by simpa using h.enough)]
    exact ⟨_, _, rfl⟩
  case mpr =>
    rintro ⟨who, n, h⟩
    split at h
    case isTrue  => cases h
    case isFalse hn =>
      split at h
      case isTrue =>
        split at h <;> cases h
      case isFalse =>
        split at h
        case isFalse => cases h
        case isTrue ha =>
          simp only [Bool.and_eq_true, decide_eq_true_eq, happrove] at ha
          refine ⟨fun x hx hs => ⟨fun hd => hn (hundo.mpr ⟨x, hx, hs, hd⟩), ?_⟩, ha.right⟩
          exact hreject.mp ha.left x hx hs

-- The risk sends such work to a person, so only a shape that is trusted goes through.
theorem willAuto_iff_of_hardAsk (hh : hardAsk t) :
    willAuto u s learnAfter t ↔
      shapeKey u t ∉ s.askAgainShapes ∧ Trusted s.approvalSamples (shapeKey u t) learnAfter := by
  have hl : (verdict u s t).lane = .ask := assess_lane_of_hardAsk hh _ _
  rw [trusted_iff, willAuto, allow, hl, overridden, learned]
  cases ruleFor (shapeKey u t) s.approvalSamples learnAfter <;> simp [gateAllows]

-- Work that is for a person, whatever the history.
def Floor (t : Ticket) : Prop :=
  t.complexity = .large ∨ ∃ f ∈ t.files, ∃ part ∈ sensitive, containsText f part

-- The floors hold iff the pass has no room left for any large or sensitive ticket of a shape that the
-- team has always approved. The room is what the tickets before it that are approvable leave.
theorem floors_hold_iff :
    (∀ t ∈ movedToReady s (adaptiveApprovalPass u now mint cfg s), ¬Floor t) ↔
    (cfg.gateReady → cfg.adaptive.enabled →
      ∀ t, s.ticket t.id = some t → isCandidate t → Movable t → Floor t →
        shapeKey u t ∉ s.askAgainShapes →
        Trusted s.approvalSamples (shapeKey u t) cfg.adaptive.learnAfter →
        cfg.adaptive.cap ≤
          ((candidates s).takeWhile (· ≠ t.id)).countP (approvable u s cfg.adaptive.learnAfter)) := by
  simp only [Floor, ← hardAsk_iff]
  constructor
  case mp =>
    intro h hr he t ht hc hm hh hs hl
    by_contra hcap
    have hn : t.status ≠ .ready := by simp [(isCandidate_iff.mp hc).left]
    have ha : approvable u s cfg.adaptive.learnAfter t.id :=
      (approvable_iff hn ht).mpr ⟨(willAuto_iff_of_hardAsk hh).mpr ⟨hs, hl⟩, hc, hm⟩
    refine h t ((mem_movedToReady hr he).mpr ⟨ht, hn, ?_⟩) hh
    exact Lists.mem_take_filter.mpr ⟨mem_candidates ht hc, ha, not_le.mp hcap⟩
  case mpr =>
    intro h t hm hh
    by_cases hon : cfg.gateReady ∧ cfg.adaptive.enabled
    case pos =>
      obtain ⟨ht, hn, hid⟩ := (mem_movedToReady hon.left hon.right).mp hm
      obtain ⟨_, ha, hlt⟩ := Lists.mem_take_filter.mp hid
      obtain ⟨hw, hc, hmv⟩ := (approvable_iff hn ht).mp ha
      obtain ⟨hs, hl⟩ := (willAuto_iff_of_hardAsk hh).mp hw
      exact absurd hlt (not_lt.mpr (h hon.left hon.right t ht hc hmv hh hs hl))
    case neg =>
      have hoff : adaptiveApprovalPass u now mint cfg s = s := by
        have : (!cfg.gateReady || !cfg.adaptive.enabled) = true := by
          cases hg : cfg.gateReady <;> cases he : cfg.adaptive.enabled <;> simp_all
        simp [adaptiveApprovalPass, this]
      rw [hoff, movedToReady_self] at hm
      cases hm

-- A team that has always approved its large features, and the next one of them.
def largeFeature : Ticket where
  id                 := ⟨"COX-F002"⟩
  kind               := .feature
  title              := "Rebuild the deployment"
  complexity         := .large
  status             := .pending
  design             := { technical := some (design ["deploy/main.tf"]) }
  acceptanceCriteria := ["it deploys"]

def approvals : List ApprovalSample :=
  List.replicate 8 ⟨"feature/large", "approve", "ana", "", "2026-08-30T12:00:00Z"⟩

theorem floor_broken :
    let s : ProjectState := { tickets := [largeFeature], approvalSamples := approvals }
    largeFeature.complexity = .large ∧
    largeFeature ∈ movedToReady s (adaptiveApprovalPass Text.ascii clock clock gateOn s) := by
  decide +kernel

end Floors

end Approval
