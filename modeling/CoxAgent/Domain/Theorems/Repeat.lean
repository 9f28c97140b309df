import CoxAgent.Domain.Mutators
import CoxAgent.Domain.Theorems.Authority

namespace Mutator

variable {t : Ticket} {actor : Role}

-- The outcome of an operation that changes the ticket at once or not at all.
def settle (t : Ticket) : Except DomainError Ticket → EStateM.Result DomainError Ticket Unit
  | .ok t'   => .ok () t'
  | .error e => .error e t

-- The same for an operation that returns a value.
def returning {α : Type} (t : Ticket) : Except DomainError (α × Ticket) →
    EStateM.Result DomainError Ticket α
  | .ok (a, t') => .ok a t'
  | .error e    => .error e t

theorem forget_eq {α : Type} {x : Mutator α} {r : Except DomainError (α × Ticket)}
    (h : x t = returning t r) : (do let _ ← x) t = settle t (r.map Prod.snd) := by
  simp only [bind, EStateM.bind, h]
  cases r <;> rfl

theorem get_bind {α : Type} {f : Ticket → Mutator α} : (get >>= f) t = f t t :=
  rfl

theorem guarded_eq {field : String} {w : Ticket → Ticket} :
    guarded actor field w t = settle t (Ticket.write actor field (w t)) := by
  unfold guarded Ticket.write
  cases fieldPermitted actor field <;> rfl

theorem edit_eq {title description : String} :
    edit actor title description t = settle t (t.edit actor title description) := by
  unfold edit Ticket.edit
  by_cases ha : actor ∉ [.po, .user]
  case pos =>
    simp only [ha]
    rfl
  case neg => by_cases ht : Text.trim title = "" <;> simp only [ha, ht, if_false] <;> rfl

theorem clarify_eq {description : String} :
    clarify actor description t = settle t (t.clarify actor description) := by
  unfold clarify Ticket.clarify
  by_cases ha : actor ∉ [.ba, .po, .user]
  case pos =>
    simp only [ha]
    rfl
  case neg =>
    by_cases ht : Text.trim description = "" <;> simp only [ha, ht, if_false]
    case pos => rfl
    case neg => rfl

theorem transitionTo_eq {dst : Status} :
    transitionTo actor dst t = settle t (t.transitionTo actor dst) := by
  unfold transitionTo Ticket.transitionTo Ticket.checkTransition
  rw [get_bind]
  cases transitionAllowed t.kind t.status dst
  case false => rfl
  case true =>
    cases canTransition actor t.status dst
    case false => rfl
    case true =>
      cases dst
      case ready    => cases t.checkReady <;> rfl
      case verified => cases t.checkCovered <;> rfl
      all_goals rfl

theorem claim_eq {worker now : String} :
    claim actor worker now t = settle t (t.claim actor worker now) := by
  unfold claim Ticket.claim
  rw [get_bind]
  cases t.claimedBy
  case some => rfl
  case none =>
    simp only [bind, EStateM.bind, transitionTo_eq]
    cases t.transitionTo actor .inProgress <;> rfl

theorem releaseClaim_eq : releaseClaim actor t = settle t (t.releaseClaim actor) := by
  unfold releaseClaim Ticket.releaseClaim
  rw [get_bind]
  by_cases ha : actor = .system <;> by_cases hs : t.status = .inProgress
    <;> simp only [ne_eq, ha, hs, not_true, not_false_eq_true, if_true, if_false] <;> rfl

theorem reclaimMisfiled_eq : reclaimMisfiled actor t = returning t (t.reclaimMisfiled actor) := by
  unfold reclaimMisfiled Ticket.reclaimMisfiled
  rw [get_bind]
  by_cases ha : actor = .system
  case pos =>
    by_cases hm : t.kind = .bug ∧ t.status ∈ [.pending, .ready, .done, .documented]
    case pos =>
      rw [if_neg (not_not.mpr ha), if_neg (not_not.mpr hm), if_neg (not_not.mpr ha), if_pos hm]
      rfl
    case neg =>
      rw [if_neg (not_not.mpr ha), if_pos hm, if_neg (not_not.mpr ha), if_neg hm]
      rfl
  case neg =>
    rw [if_pos ha, if_pos ha]
    rfl

theorem takeOver_eq {worker now : String} :
    takeOver actor worker now t = returning t (t.takeOver actor worker now) := by
  unfold takeOver Ticket.takeOver
  rw [get_bind]
  by_cases ha : actor = .system
  case pos =>
    by_cases hs : t.status = .inProgress
    case pos =>
      rw [if_neg (not_not.mpr ha), if_neg (not_not.mpr hs), if_neg (not_not.mpr ha),
        if_neg (not_not.mpr hs)]
      rfl
    case neg =>
      rw [if_neg (not_not.mpr ha), if_pos hs, if_neg (not_not.mpr ha), if_pos hs]
      rfl
  case neg =>
    rw [if_pos ha, if_pos ha]
    rfl

theorem recordWipCheckpoint_eq {cp : WipCheckpoint} :
    recordWipCheckpoint actor cp t = settle t (t.recordWipCheckpoint actor cp) := by
  unfold recordWipCheckpoint Ticket.recordWipCheckpoint
  simp only [bind, EStateM.bind, guarded_eq, Ticket.write]
  cases fieldPermitted actor "wip_checkpoints" <;> rfl

end Mutator

namespace TicketOp

open Mutator

variable {t t' : Ticket} {o : TicketOp}

-- Every check comes before the first write.
theorem mutate_eq : o.mutate t = settle t (o.run t) := by
  cases o
  case edit                => exact edit_eq
  case clarify             => exact clarify_eq
  case claim               => exact claim_eq
  case transitionTo        => exact transitionTo_eq
  case releaseClaim        => exact releaseClaim_eq
  case reclaimMisfiled     => exact forget_eq reclaimMisfiled_eq
  case takeOver            => exact forget_eq takeOver_eq
  case recordWipCheckpoint => exact recordWipCheckpoint_eq
  case removeDependency    => exact guarded_eq
  case setGoalId | setServiceTag | setPriority | setTechnicalDesign | setUxDesign | setParent
      | addDependency | clearWipCheckpoints => exact guarded_eq
  all_goals rfl

theorem unchanged_of_error {e : DomainError} (h : o.mutate t = .error e t') : t' = t := by
  rw [mutate_eq] at h
  cases hr : o.run t
  case ok      => cases hr ▸ h
  case error _ =>
    cases hr ▸ h
    rfl

theorem status_write {actor : Role} {field : String} {u : Ticket}
    (h : Ticket.write actor field u = .ok t') (hs : u.status = t.status) : t'.status = t.status :=
  (Ticket.write_ok h).2 ▸ hs

-- Only a transition ends in any other status than those in which work is taken up.
theorem status_run (h : o.run t = .ok t') : t'.status = t.status ∨
    t'.status ∈ [.inProgress, .open, .ready] ∨ ∃ actor dst, o = .transitionTo actor dst := by
  cases o <;> simp only [run, Except.ok.injEq] at h
  case transitionTo actor dst => exact .inr (.inr ⟨actor, dst, rfl⟩)
  case claim =>
    obtain ⟨_, _, he⟩ := Ticket.claim_ok h
    exact .inr (.inl (by simp [he]))
  case releaseClaim =>
    obtain ⟨_, _, he⟩ := Ticket.releaseClaim_ok h
    exact .inr (.inl (by cases hk : t.kind <;> simp [he, hk]))
  case takeOver =>
    obtain ⟨_, h⟩ := Ticket.map_snd_ok h
    obtain ⟨_, _, _, he⟩ := Ticket.takeOver_ok h
    exact .inl (by simp [he])
  case reclaimMisfiled =>
    obtain ⟨_, h⟩ := Ticket.map_snd_ok h
    cases Ticket.reclaimMisfiled_ok h
    case inl he => exact .inl (by rw [he])
    case inr he => exact .inr (.inl (by simp [he.2.2]))
  case edit                          => exact .inl (by rw [(Ticket.edit_ok h).2])
  case clarify                       => exact .inl (by rw [Ticket.clarify_ok h])
  case removeDependency              => exact .inl (status_write h rfl)
  case addDependency =>
    refine .inl (status_write h ?_)
    split <;> rfl
  case stampCreatedAt =>
    subst h
    simp only [Ticket.stampCreatedAt]
    split <;> exact .inl rfl
  case ensureTestCasesFromAcceptance =>
    subst h
    simp only [Ticket.ensureTestCasesFromAcceptance]
    split <;> exact .inl rfl
  case setTestCaseRepro =>
    subst h
    simp only [Ticket.setTestCaseRepro]
    split
    case isTrue  => exact .inl rfl
    case isFalse => exact .inl Ticket.withCase_status
  case setTestCaseResult | setTestCaseImage | setTestCaseSources =>
    exact .inl (h ▸ Ticket.withCase_status)
  case setAcceptanceCriteria | syncTestCasesFromAcceptance | assignToHuman =>
    exact .inl (h ▸ rfl)
  all_goals exact .inl (status_write h rfl)

end TicketOp

namespace Ticket

variable {t t' : Ticket} {actor : Role}

-- Every criterion of a verified ticket is demonstrated.
def Demonstrated (t : Ticket) : Prop :=
  t.status = .verified → uncovered t.acceptanceCriteria t.testCases = []

-- Repeating the current status is a no-op, and an operation that fails changes nothing.
def Harmless (t : Ticket) : Prop :=
  (∀ actor, (TicketOp.transitionTo actor t.status).mutate t = .ok () t) ∧
  ∀ (o : TicketOp) (e : DomainError) (t' : Ticket), o.mutate t = .error e t' → t' = t

-- An edit of a verified ticket that leaves a criterion without a passing case.
def Uncovers (t : Ticket) (o : TicketOp) : Prop :=
  t.status = .verified ∧ ¬(o.step t).Demonstrated

theorem checkCovered_eq_ok :
    t.checkCovered = .ok () ↔ uncovered t.acceptanceCriteria t.testCases = [] := by
  unfold checkCovered
  cases uncovered t.acceptanceCriteria t.testCases <;> simp

theorem checkReady_eq_ok (h : t.design.Complete t.hasUi) : t.checkReady = .ok () := by
  have ht := h.technical
  have hu := h.ux
  unfold checkReady
  cases hd : t.design.technical <;> cases hx : t.design.ux <;> cases hi : t.hasUi <;> simp_all

-- A ticket that is not in progress has no claim that could be freed.
theorem WellFormed.enter_status (hw : t.WellFormed) : t.enter t.status = t := by
  unfold Ticket.enter
  split
  case isTrue  => rfl
  case isFalse hs =>
    have hb : t.claimedBy = none := by simpa using mt hw.held hs
    have ha : t.claimedAt = none := by simpa [hb] using hw.stamped
    cases t
    simp_all

theorem WellFormed.checkTransition_status (hw : t.WellFormed) :
    t.checkTransition actor t.status = .ok () ↔ t.Demonstrated := by
  have he : transitionAllowed t.kind t.status t.status := by simp [transitionAllowed]
  have hp : canTransition actor t.status t.status := by simp [canTransition]
  simp only [checkTransition, he, hp, Demonstrated]
  by_cases hr : t.status = .ready
  case pos =>
    have hk : t.kind ≠ .bug := fun hk => hw.native (by simp [hk, hr, foreign])
    simp [hr, checkReady_eq_ok (hw.designed hk (by simp [hr]))]
  case neg =>
    by_cases hv : t.status = .verified <;> simp [hr, hv, checkCovered_eq_ok]

theorem WellFormed.harmless_iff (hw : t.WellFormed) : t.Harmless ↔ t.Demonstrated := by
  have hm (actor) : (TicketOp.transitionTo actor t.status).mutate t = .ok () t ↔
      t.checkTransition actor t.status = .ok () := by
    rw [TicketOp.mutate_eq]
    simp only [TicketOp.run, transitionTo]
    cases t.checkTransition actor t.status <;> simp [Mutator.settle, hw.enter_status]
  simp only [Harmless, hm, hw.checkTransition_status]
  exact ⟨fun h => h.1 .system, fun h => ⟨fun _ => h, fun _ _ _ => TicketOp.unchanged_of_error⟩⟩

theorem covered_of_transitionTo {dst : Status} (h : t.transitionTo actor dst = .ok t')
    (hs : t'.status = .verified) : uncovered t'.acceptanceCriteria t'.testCases = [] := by
  have ⟨hm, he⟩ := transitionTo_ok h
  have hd : dst = .verified := by
    rw [← hs, he, enter]
    split <;> rfl
  subst hd he
  have hc : t.checkCovered = .ok () := by
    unfold transitionTo checkTransition at h
    simp only [hm.edge, hm.permitted] at h
    cases hc : t.checkCovered
    case ok    => rfl
    case error => simp [hc] at h
  exact checkCovered_eq_ok.mp hc

-- A ticket becomes verified only when everything is demonstrated, so that only an edit can lose it.
theorem Demonstrated.step {o : TicketOp} (h : t.Demonstrated) (ho : ¬t.Uncovers o) :
    (o.step t).Demonstrated := by
  by_cases hv : t.status = .verified
  case pos => exact not_not.mp fun hn => ho ⟨hv, hn⟩
  case neg =>
    unfold TicketOp.step
    split
    case h_2 => exact h
    case h_1 t' hr =>
      intro hs
      obtain he | hi | ⟨actor, dst, rfl⟩ := TicketOp.status_run hr
      case inl         => exact absurd (he ▸ hs) hv
      case inr.inl     => simp [hs] at hi
      case inr.inr     =>
        exact covered_of_transitionTo hr hs

theorem Demonstrated.run (h : t.Demonstrated) {ops : List TicketOp}
    (ho : ∀ pre o post, ops = pre ++ o :: post → ¬(pre.foldl TicketOp.step t).Uncovers o) :
    (ops.foldl TicketOp.step t).Demonstrated := by
  induction ops using List.reverseRecOn
  case nil => exact h
  case append_singleton ops o hi =>
    rw [List.foldl_append]
    refine (hi fun pre o' post he => ?_).step (ho ops o [] rfl)
    exact ho pre o' (post ++ [o]) (by simp [he])

-- Whatever is asked of a new ticket, repeating its status is harmless in the states in which a
-- verified ticket is still demonstrated, and these are left only by an edit of a verified ticket.
theorem harmless_iff_demonstrated {t₀ : Ticket} {id : TicketId} {type : TicketType}
    {title description : String} {priority : Priority} {complexity : Complexity} {hasUi : Bool}
    (h : new id type title description priority complexity hasUi = .ok t₀) (ops : List TicketOp) :
    ((ops.foldl TicketOp.step t₀).Harmless ↔ (ops.foldl TicketOp.step t₀).Demonstrated) ∧
    ((∀ pre o post, ops = pre ++ o :: post → ¬(pre.foldl TicketOp.step t₀).Uncovers o) →
      ∀ pre, pre <+: ops → (pre.foldl TicketOp.step t₀).Harmless) := by
  constructor
  · exact (wellFormed_of_new h ops).harmless_iff
  · intro ho pre ⟨post, hp⟩
    have hd : t₀.Demonstrated := by
      have hs : t₀.status = if type = .bug then .open else .pending := by rw [(new_ok h).2]
      have hn : (if type = .bug then Status.open else .pending) ≠ .verified := by cases type <;> decide
      exact fun hv => absurd (hs.symm.trans hv) hn
    apply (wellFormed_of_new h pre).harmless_iff.mpr
    exact hd.run fun pre' o post' he => ho pre' o (post' ++ post) (by simp [← hp, he])

-- A bug that is verified while it has no criteria and then gets one.
def crash : Ticket where
  id     := ⟨"B001"⟩
  kind   := .bug
  title  := "Crash"
  status := .open

def verifiedEarly : List TicketOp := [
  .claim .devBug "dev@host" "2026-01-01T00:00:00Z",
  .transitionTo .devBug .fixed,
  .transitionTo .test .verified,
  .setAcceptanceCriteria ["no crash"]
]

theorem new_crash : new ⟨"B001"⟩ .bug "Crash" "" .medium .small false = .ok crash := by
  decide +kernel

theorem not_harmless_verifiedEarly :
    new ⟨"B001"⟩ .bug "Crash" "" .medium .small false = .ok crash ∧
    (verifiedEarly.foldl TicketOp.step crash).status = .verified ∧
    (verifiedEarly.foldl TicketOp.step crash).transitionTo .test .verified =
      .error (.coverageIncomplete 1 "no crash") ∧
    ¬(verifiedEarly.foldl TicketOp.step crash).Harmless := by
  refine ⟨new_crash, by decide +kernel, by decide +kernel, fun h => ?_⟩
  have hd := ((wellFormed_of_new new_crash verifiedEarly).harmless_iff).mp h
  have hu := hd (by decide +kernel)
  revert hu
  decide +kernel

theorem harmless_iff_demonstrated_shipped :
    (shipping.foldl TicketOp.step search).status = .done ∧
    (shipping.foldl TicketOp.step search).Harmless :=
  have hs : (shipping.foldl TicketOp.step search).status = .done := by decide +kernel
  ⟨hs, (harmless_iff_demonstrated new_search shipping).1.mpr fun hv => by
    rw [hs] at hv
    contradiction⟩

end Ticket
