import CoxAgent.Domain.Theorems.Repeat

-- The edits of the criteria and of the test cases.
inductive CaseOp
  | setAcceptanceCriteria (criteria : List String)
  | syncTestCasesFromAcceptance
  | ensureTestCasesFromAcceptance
  | setTestCaseResult (description : String) (passed : Bool) (note image : Option String)
      (at' : String)
  | setTestCaseImage (description image at' : String)
  | setTestCaseRepro (description repro : String)
  | setTestCaseSources (description : String) (sources : List String)

namespace CaseOp

def op : CaseOp → TicketOp
  | setAcceptanceCriteria criteria            => .setAcceptanceCriteria criteria
  | syncTestCasesFromAcceptance               => .syncTestCasesFromAcceptance
  | ensureTestCasesFromAcceptance             => .ensureTestCasesFromAcceptance
  | setTestCaseResult d passed note image at' => .setTestCaseResult d passed note image at'
  | setTestCaseImage d image at'              => .setTestCaseImage d image at'
  | setTestCaseRepro d repro                  => .setTestCaseRepro d repro
  | setTestCaseSources d sources              => .setTestCaseSources d sources

-- The text of the case that a setter is about.
def target : CaseOp → Option String
  | setTestCaseResult d .. | setTestCaseImage d .. | setTestCaseRepro d _ | setTestCaseSources d _ => d
  | _ => none

-- The verdict that the operation gives on the text.
def verdictOn (ac : String) : CaseOp → Option Bool
  | setTestCaseResult d passed .. => if d = ac then some passed else none
  | _                             => none

-- What the operation adds to the history of its case: a verdict as it is given, or the refresh of the image next to
-- the verdict and the note that are there.
def records (tc : TestCase) : CaseOp → List VerdictRecord
  | setTestCaseResult _ passed note image at' => [{
      kind   := .verdict
      status := if passed then .passed else .failed
      note
      image  := image.or (tc.evidence.bind (·.image))
      at'
    }]
  | setTestCaseImage _ image at' => [{
      kind   := .evidenceRefresh
      status := tc.status
      note   := tc.evidence.bind (·.note)
      image  := image
      at'
    }]
  | _ => []

end CaseOp

namespace Ticket

variable {t u : Ticket} {d ac : String} {f : TestCase → TestCase}

def edited (t : Ticket) (ops : List CaseOp) : Ticket :=
  ops.foldl (fun t o => o.op.step t) t

def HasCase (t : Ticket) (ac : String) : Prop :=
  ∃ tc ∈ t.testCases, tc.description = ac

-- The latest verdict on the text, among those given since the text has had a case without a break,
-- is a pass.
def ShownToPass (t : Ticket) (ops : List CaseOp) (ac : String) : Prop :=
  ∃ pre o post, ops = pre ++ o :: post ∧ o.verdictOn ac = some true ∧
    (t.edited pre).HasCase ac ∧
    (∀ l, l <+: post → (t.edited (pre ++ o :: l)).HasCase ac) ∧
    ∀ o' ∈ post, o'.verdictOn ac = none

-- The case that counts for a text is the first one.
def caseOf (t : Ticket) (ac : String) : Option TestCase :=
  t.testCases.find? (·.description = ac)

theorem hasCase_iff : t.HasCase ac ↔ (t.caseOf ac).isSome := by
  simp [HasCase, caseOf, List.find?_isSome]

section Setters

theorem find?_updateCase {tcs tcs' : List TestCase} (hf : ∀ tc, (f tc).description = tc.description)
    (h : updateCase d f tcs = some tcs') : tcs'.find? (·.description = ac) =
      if d = ac then (tcs.find? (·.description = ac)).map f else tcs.find? (·.description = ac) := by
  induction tcs generalizing tcs'
  case nil => contradiction
  case cons tc tcs hi =>
    simp only [updateCase] at h
    split at h
    case isTrue hd =>
      cases h
      subst hd
      by_cases ha : tc.description = ac <;> simp [ha, hf]
    case isFalse hd =>
      obtain ⟨rest, hr, he⟩ := Option.map_eq_some_iff.mp h
      subst he
      by_cases ha : tc.description = ac
      case pos => simp [ha, ha ▸ Ne.symm hd]
      case neg => simp [ha, hi hr]

theorem updateCase_eq_none {tcs : List TestCase} :
    updateCase d f tcs = none ↔ ∀ tc ∈ tcs, tc.description ≠ d := by
  induction tcs
  case nil             => simp [updateCase]
  case cons tc tcs hi  => by_cases h : tc.description = d <;> simp [updateCase, h, hi]

theorem updateCase_append {l₁ l₂ : List TestCase} {tc : TestCase} (hd : tc.description = d)
    (hn : ∀ c ∈ l₁, c.description ≠ d) :
    updateCase d f (l₁ ++ tc :: l₂) = some (l₁ ++ f tc :: l₂) := by
  induction l₁
  case nil => simp [updateCase, hd]
  case cons c l₁ hi =>
    rw [List.forall_mem_cons] at hn
    simp [updateCase, hn.1, hi hn.2]

theorem caseOf_withCase (hf : ∀ tc, (f tc).description = tc.description) :
    (t.withCase d f).2.caseOf ac = if d = ac then (t.caseOf ac).map f else t.caseOf ac := by
  unfold withCase
  split
  case h_2 tcs hu => exact find?_updateCase hf hu
  case h_1 hu =>
    split
    case isFalse => rfl
    case isTrue hd =>
      have hn : t.caseOf ac = none := by
        simpa [caseOf, List.find?_eq_none] using hd ▸ updateCase_eq_none.mp hu
      rw [hn]
      rfl

end Setters

theorem caseOf_sync : t.syncTestCasesFromAcceptance.caseOf ac =
    if ac ∈ t.acceptanceCriteria then some ((t.caseOf ac).getD (.pending ac)) else none := by
  have hd (a : String) : ((t.caseOf a).getD (.pending a)).description = a := by
    cases hc : t.caseOf a
    case none   => rfl
    case some c => simpa using List.find?_some hc
  have hm (l : List String) :
      (l.map fun a => (t.caseOf a).getD (.pending a)).find? (·.description = ac) =
        if ac ∈ l then some ((t.caseOf ac).getD (.pending ac)) else none := by
    induction l
    case nil         => rfl
    case cons a l hi =>
      by_cases ha : a = ac
      case pos => simp [ha, hd]
      case neg => simp [hd, ha, Ne.symm ha, hi]
  exact hm t.acceptanceCriteria

-- A criterion that has a case keeps the whole of it.
theorem sync_keeps {tc : TestCase} (ha : ac ∈ t.acceptanceCriteria) (hc : t.caseOf ac = some tc) :
    t.syncTestCasesFromAcceptance.caseOf ac = some tc := by
  rw [caseOf_sync, if_pos ha, hc]
  rfl

theorem sync_idempotent :
    t.syncTestCasesFromAcceptance.syncTestCasesFromAcceptance = t.syncTestCasesFromAcceptance := by
  have hm : t.acceptanceCriteria.map (fun a =>
      (t.syncTestCasesFromAcceptance.caseOf a).getD (.pending a)) =
        t.acceptanceCriteria.map fun a => (t.caseOf a).getD (.pending a) := by
    refine List.map_congr_left fun a ha => ?_
    rw [caseOf_sync, if_pos ha]
    rfl
  exact congrArg (fun testCases => { t with testCases }) hm

theorem descriptions_of_inSync {tcs : List TestCase} {criteria : List String}
    (hl : tcs.length = criteria.length)
    (hz : (tcs.zip criteria).all fun (tc, ac) => tc.description = ac) :
    tcs.map (·.description) = criteria := by
  induction tcs generalizing criteria
  case nil => exact (List.length_eq_zero_iff.mp hl.symm).symm
  case cons tc tcs hi =>
    cases criteria
    case nil => contradiction
    case cons ac criteria =>
      simp only [List.zip_cons_cons, List.all_cons, Bool.and_eq_true, decide_eq_true_eq] at hz
      rw [List.map_cons, hz.1, hi (by simpa using hl) hz.2]

theorem ensure_cases : t.ensureTestCasesFromAcceptance = t.syncTestCasesFromAcceptance ∨
    t.ensureTestCasesFromAcceptance = t ∧ t.testCases.map (·.description) = t.acceptanceCriteria := by
  simp only [ensureTestCasesFromAcceptance]
  split
  case isTrue hs => exact .inr ⟨rfl, descriptions_of_inSync hs.1 hs.2⟩
  case isFalse   => exact .inl rfl

-- Cases in sync are left alone, which a sync would not change for the first case of a text either.
theorem caseOf_ensure : t.ensureTestCasesFromAcceptance.caseOf ac =
    if ac ∈ t.acceptanceCriteria then some ((t.caseOf ac).getD (.pending ac)) else none := by
  cases t.ensure_cases
  case inl he => rw [he, caseOf_sync]
  case inr he =>
    have hc : (t.caseOf ac).isSome ↔ ac ∈ t.acceptanceCriteria := by
      rw [← hasCase_iff, ← he.2, List.mem_map]
      exact Iff.rfl
    rw [he.1]
    cases hf : t.caseOf ac <;> simp_all

-- The verdict of the case that counts for a text.
def verdict (t : Ticket) (ac : String) : Option TestCaseStatus :=
  (t.caseOf ac).map (·.status)

theorem hasCase_iff_verdict : t.HasCase ac ↔ t.verdict ac ≠ none := by
  rw [hasCase_iff, verdict]
  cases t.caseOf ac <;> simp

theorem verdict_withCase (hf : ∀ tc, (f tc).description = tc.description)
    (hs : ∀ tc, (f tc).status = tc.status) : (t.withCase d f).2.verdict ac = t.verdict ac := by
  rw [verdict, caseOf_withCase hf, verdict]
  split
  case isTrue  => cases t.caseOf ac <;> simp [hs]
  case isFalse => rfl

theorem verdict_setTestCaseResult {passed : Bool} {note image : Option String} {at' : String} :
    (t.setTestCaseResult d passed note image at').2.verdict ac =
      if d = ac then (t.verdict ac).map fun _ => if passed then .passed else .failed
      else t.verdict ac := by
  have hc := @caseOf_withCase t d ac (·.setResult passed note image at') fun _ => rfl
  rw [setTestCaseResult, verdict, hc]
  split
  case isTrue  => cases h : t.caseOf ac <;> simp [verdict, h, TestCase.setResult, TestCase.snapshot]
  case isFalse => rfl

theorem verdict_setTestCaseRepro {repro : String} :
    (t.setTestCaseRepro d repro).2.verdict ac = t.verdict ac := by
  unfold setTestCaseRepro
  split
  case isTrue  => rfl
  case isFalse => exact verdict_withCase (fun _ => rfl) fun _ => rfl

section Step

variable {o : CaseOp}

-- The operation that gives a verdict on the text.
theorem verdict_step_of_some {p : Bool} (h : o.verdictOn ac = some p) :
    (o.op.step t).verdict ac = (t.verdict ac).map fun _ => if p then .passed else .failed := by
  cases o <;> simp only [CaseOp.verdictOn] at h <;> try contradiction
  case setTestCaseResult =>
    split at h <;> cases h
    case isTrue hd =>
      change (setTestCaseResult ..).2.verdict ac = _
      rw [verdict_setTestCaseResult, if_pos hd]

-- Any other operation leaves the verdict, drops the case or starts a new one without a verdict.
theorem verdict_step_of_none (h : o.verdictOn ac = none) :
    (o.op.step t).verdict ac = t.verdict ac ∨ (o.op.step t).verdict ac = none ∨
    t.verdict ac = none ∧ (o.op.step t).verdict ac = some .pending := by
  have hr (c : Option TestCase) (hc : c = if ac ∈ t.acceptanceCriteria then
      some ((t.caseOf ac).getD (.pending ac)) else none) :
      c.map (·.status) = t.verdict ac ∨ c.map (·.status) = none ∨
      t.verdict ac = none ∧ c.map (·.status) = some .pending := by
    subst hc
    unfold verdict
    cases t.caseOf ac <;> split <;> simp [TestCase.pending]
  cases o
  case setAcceptanceCriteria         => exact .inl rfl
  case syncTestCasesFromAcceptance   => exact hr _ caseOf_sync
  case ensureTestCasesFromAcceptance => exact hr _ caseOf_ensure
  case setTestCaseImage              => exact .inl (verdict_withCase (fun _ => rfl) fun _ => rfl)
  case setTestCaseRepro              => exact .inl verdict_setTestCaseRepro
  case setTestCaseSources            => exact .inl (verdict_withCase (fun _ => rfl) fun _ => rfl)
  case setTestCaseResult =>
    simp only [CaseOp.verdictOn] at h
    split at h
    case isTrue     => contradiction
    case isFalse hd =>
      refine .inl ?_
      change (setTestCaseResult ..).2.verdict ac = _
      rw [verdict_setTestCaseResult, if_neg hd]

end Step

section History

variable {ops : List CaseOp} {o : CaseOp}

@[simp]
theorem edited_append {ops' : List CaseOp} : t.edited (ops ++ ops') = (t.edited ops).edited ops' :=
  List.foldl_append

theorem not_shownToPass_nil : ¬t.ShownToPass [] ac := by
  intro ⟨pre, o, post, he, _⟩
  simp at he

-- A setter takes no case away.
theorem hasCase_of_verdictOn {p : Bool} (h : o.verdictOn ac = some p) (hc : t.HasCase ac) :
    (o.op.step t).HasCase ac := by
  rw [hasCase_iff_verdict, ne_eq, verdict_step_of_some h, Option.map_eq_none_iff]
  exact hasCase_iff_verdict.mp hc

-- The last operation gives the verdict itself.
theorem shownToPass_of_some {p : Bool} (h : o.verdictOn ac = some p) :
    t.ShownToPass (ops ++ [o]) ac ↔ p = true ∧ (t.edited ops).HasCase ac := by
  constructor
  case mp =>
    intro ⟨pre, o', post, he, hv, hc, _, hn⟩
    obtain rfl | ⟨post, x, rfl⟩ := List.eq_nil_or_concat post
    case inl =>
      have ⟨hpre, ho⟩ := List.append_inj' he rfl
      cases ho
      rw [h] at hv
      exact ⟨Option.some.inj hv, hpre ▸ hc⟩
    case inr =>
      have he : ops ++ [o] = (pre ++ o' :: post) ++ [x] := by simpa using he
      have ⟨_, ho⟩ := List.append_inj' he rfl
      cases ho
      have := hn o (by simp)
      simp [h] at this
  case mpr =>
    intro ⟨hp, hc⟩
    refine ⟨ops, o, [], rfl, hp ▸ h, hc, fun l hl => ?_, by simp⟩
    have hl : l = [] := List.prefix_nil.mp hl
    rw [hl, edited_append]
    exact hasCase_of_verdictOn h hc

-- The last operation gives no verdict, so that the case has to outlive it.
theorem shownToPass_of_none (h : o.verdictOn ac = none) :
    t.ShownToPass (ops ++ [o]) ac ↔ t.ShownToPass ops ac ∧ (t.edited (ops ++ [o])).HasCase ac := by
  constructor
  case mp =>
    intro ⟨pre, o', post, he, hv, hc, hl, hn⟩
    obtain rfl | ⟨post, x, rfl⟩ := List.eq_nil_or_concat post
    case inl =>
      have ⟨_, ho⟩ := List.append_inj' he rfl
      cases ho
      simp [h] at hv
    case inr =>
      have he' : ops ++ [o] = (pre ++ o' :: post) ++ [x] := by simpa using he
      have ⟨hops, ho⟩ := List.append_inj' he' rfl
      cases ho
      refine ⟨⟨pre, o', post, hops, hv, hc, fun l hp => ?_, fun o hm => hn o (by simp [hm])⟩, ?_⟩
      · exact hl l (hp.trans (by simp))
      · exact he ▸ hl _ (List.prefix_rfl)
  case mpr =>
    intro ⟨⟨pre, o', post, he, hv, hc, hl, hn⟩, hlast⟩
    refine ⟨pre, o', post ++ [o], by simp [he], hv, hc, fun l hp => ?_, ?_⟩
    · obtain hp | hp := List.prefix_concat_iff.mp hp
      case inl =>
        rw [hp]
        simpa [he] using hlast
      case inr => exact hl l hp
    · simp only [List.mem_append, List.mem_singleton]
      intro x hx
      cases hx
      case inl hx => exact hn x hx
      case inr hx => exact hx ▸ h

-- The verdict of the case is exactly what the history shows.
theorem verdict_eq_passed_iff (h : t.testCases = []) (ops : List CaseOp) :
    (t.edited ops).verdict ac = some .passed ↔ t.ShownToPass ops ac := by
  induction ops using List.reverseRecOn
  case nil =>
    simp [edited, verdict, caseOf, h, not_shownToPass_nil]
  case append_singleton ops o hi =>
    cases hv : o.verdictOn ac
    case some p =>
      rw [shownToPass_of_some hv, edited_append]
      change (o.op.step _).verdict ac = _ ↔ _
      rw [verdict_step_of_some hv, hasCase_iff_verdict]
      cases (t.edited ops).verdict ac <;> cases p <;> simp
    case none =>
      rw [shownToPass_of_none hv, ← hi, hasCase_iff_verdict, edited_append]
      change (o.op.step _).verdict ac = _ ↔ _ ∧ (o.op.step _).verdict ac ≠ none
      obtain he | he | ⟨he, he'⟩ := @verdict_step_of_none (t.edited ops) ac o hv
      case inl =>
        rw [he]
        cases (t.edited ops).verdict ac <;> simp
      case inr.inl => simp [he]
      case inr.inr => simp [he, he']

end History

-- A setter changes the first case with the text and nothing else. Of its history with what the setter adds, the last
-- twelve records are kept.
structure OneCase (t t' : Ticket) (d : String) (o : CaseOp) : Prop where
  absent  : ¬t.HasCase d → t' = t
  present : ∀ l₁ tc l₂, t.testCases = l₁ ++ tc :: l₂ → tc.description = d →
    (∀ c ∈ l₁, c.description ≠ d) →
      ∃ tc', t' = { t with testCases := l₁ ++ tc' :: l₂ } ∧ tc'.description = d ∧
        tc'.history = (tc.history ++ o.records tc).rtake 12

-- The histories are never longer than what is kept of them.
def Trimmed (t : Ticket) : Prop :=
  ∀ tc ∈ t.testCases, tc.history.length ≤ maxVerdictHistory

section Frame

variable {o : CaseOp} {ops : List CaseOp}

theorem Trimmed.history (ht : t.Trimmed) {tc : TestCase} (hm : tc ∈ t.testCases) : tc.history.rtake 12 = tc.history := by
  have hle : tc.history.length ≤ 12 := ht tc hm
  rw [List.rtake, Nat.sub_eq_zero_of_le hle, List.drop_zero]

theorem oneCase_withCase (hf : ∀ tc, (f tc).description = tc.description)
    (hh : ∀ tc ∈ t.testCases, (f tc).history = (tc.history ++ o.records tc).rtake 12) :
    t.OneCase (t.withCase d f).2 d o where
  absent h := by
    have hn : updateCase d f t.testCases = none :=
      updateCase_eq_none.mpr fun tc ht hd => h ⟨tc, ht, hd⟩
    simp [withCase, hn]
  present l₁ tc l₂ hl hd hn := by
    refine ⟨f tc, ?_, (hf tc).trans hd, hh tc (by simp [hl])⟩
    simp [withCase, hl, updateCase_append hd hn]

-- The setters that write no record.
theorem oneCase_of_history (ht : t.Trimmed) (ho : ∀ tc, o.records tc = [])
    (hf : ∀ tc, (f tc).description = tc.description) (hh : ∀ tc, (f tc).history = tc.history) :
    t.OneCase (t.withCase d f).2 d o :=
  oneCase_withCase hf fun tc hm => by rw [ho, List.append_nil, ht.history hm, hh]

theorem OneCase.refl (ht : t.Trimmed) (ho : ∀ tc, o.records tc = []) : t.OneCase t d o where
  absent _ := rfl
  present l₁ tc l₂ hl hd _ := by
    refine ⟨tc, by rw [← hl], hd, ?_⟩
    rw [ho, List.append_nil, ht.history (by simp [hl])]

theorem oneCase_step (ht : t.Trimmed) (h : o.target = some d) : t.OneCase (o.op.step t) d o := by
  cases o <;> cases h
  case setTestCaseResult  => exact oneCase_withCase (fun _ => rfl) fun _ _ => rfl
  case setTestCaseImage   => exact oneCase_withCase (fun _ => rfl) fun _ _ => rfl
  case setTestCaseSources => exact oneCase_of_history ht (fun _ => rfl) (fun _ => rfl) fun _ => rfl
  case setTestCaseRepro repro =>
    change t.OneCase (t.setTestCaseRepro d repro).2 d _
    unfold setTestCaseRepro
    split
    case isTrue  => exact .refl ht fun _ => rfl
    case isFalse => exact oneCase_of_history ht (fun _ => rfl) (fun _ => rfl) fun _ => rfl

theorem OneCase.trimmed (h : t.OneCase u d o) (ht : t.Trimmed) : u.Trimmed := by
  by_cases hc : t.HasCase d
  case neg => exact h.absent hc ▸ ht
  case pos =>
    have ⟨tc, hf⟩ := Option.isSome_iff_exists.mp (hasCase_iff.mp hc)
    have ⟨hd, l₁, l₂, hl, hn⟩ := List.find?_eq_some_iff_append.mp hf
    have ⟨tc', he, _, hh⟩ := h.present l₁ tc l₂ hl (by simpa using hd) (by simpa using hn)
    subst he
    intro c hm
    simp only [List.mem_append, List.mem_cons] at hm
    obtain hm | rfl | hm := hm
    case inl     => exact ht c (by simp [hl, hm])
    case inr.inl => exact hh ▸ length_newest_le _ _
    case inr.inr => exact ht c (by simp [hl, hm])

theorem trimmed_sync (ht : t.Trimmed) : t.syncTestCasesFromAcceptance.Trimmed := by
  intro tc hm
  have ⟨ac, _, he⟩ := List.mem_map.mp hm
  subst he
  cases hf : t.testCases.find? (·.description = ac)
  case none    => simp [TestCase.pending]
  case some tc => exact ht tc (List.mem_of_find?_eq_some hf)

theorem trimmed_step (ht : t.Trimmed) : (o.op.step t).Trimmed := by
  cases o
  case setAcceptanceCriteria       => exact ht
  case syncTestCasesFromAcceptance => exact trimmed_sync ht
  case ensureTestCasesFromAcceptance =>
    change t.ensureTestCasesFromAcceptance.Trimmed
    cases t.ensure_cases
    case inl he => exact he ▸ trimmed_sync ht
    case inr he => exact he.1.symm ▸ ht
  all_goals exact (oneCase_step ht rfl).trimmed ht

theorem trimmed_edited (ht : t.Trimmed) : (t.edited ops).Trimmed := by
  induction ops generalizing t
  case nil         => exact ht
  case cons o _ hi => exact hi (trimmed_step ht)

-- Only the criteria and the cases change.
theorem frame_step : (o.op.step t).kind = t.kind ∧ (o.op.step t).status = t.status := by
  have hw (d f) : (t.withCase d f).2.kind = t.kind ∧ (t.withCase d f).2.status = t.status := by
    unfold withCase
    split <;> exact ⟨rfl, rfl⟩
  cases o
  case setAcceptanceCriteria | syncTestCasesFromAcceptance => exact ⟨rfl, rfl⟩
  case ensureTestCasesFromAcceptance =>
    change t.ensureTestCasesFromAcceptance.kind = _ ∧ t.ensureTestCasesFromAcceptance.status = _
    cases t.ensure_cases
    case inl he => exact he ▸ ⟨rfl, rfl⟩
    case inr he => simp [he.1]
  case setTestCaseRepro d repro =>
    have hs : (CaseOp.setTestCaseRepro d repro).op.step t = (t.setTestCaseRepro d repro).2 := rfl
    rw [hs, setTestCaseRepro]
    split
    case isTrue  => exact ⟨rfl, rfl⟩
    case isFalse => exact hw _ _
  all_goals exact hw _ _

theorem frame_edited : (t.edited ops).kind = t.kind ∧ (t.edited ops).status = t.status := by
  induction ops generalizing t
  case nil => exact ⟨rfl, rfl⟩
  case cons o _ hi =>
    have hs := @frame_step t o
    have ht := @hi (o.op.step t)
    exact ⟨ht.1.trans hs.1, ht.2.trans hs.2⟩

end Frame

theorem uncovered_eq_nil_iff : uncovered t.acceptanceCriteria t.testCases = [] ↔
    ∀ ac ∈ t.acceptanceCriteria, t.verdict ac = some .passed := by
  simp [uncovered, List.filter_eq_nil_iff, verdict, caseOf]

theorem verify_ok_iff (hk : t.kind = .bug) (hs : t.status = .fixed) :
    (∃ t', t.transitionTo .system .verified = .ok t') ↔
      ∀ ac ∈ t.acceptanceCriteria, t.verdict ac = some .passed := by
  rw [← uncovered_eq_nil_iff, ← checkCovered_eq_ok]
  have hc : t.checkTransition .system .verified = t.checkCovered := by
    simp [checkTransition, hk, hs, transitionAllowed, canTransition]
  rw [transitionTo, hc]
  cases t.checkCovered <;> simp

-- The gate is exact over every history of edits, a sync keeps what survives, and a setter changes one
-- case.
theorem verified_iff_shown (hk : t.kind = .bug) (hs : t.status = .fixed) (ht : t.testCases = [])
    (ops : List CaseOp) :
    ((∃ t', (t.edited ops).transitionTo .system .verified = .ok t') ↔
      ∀ ac ∈ (t.edited ops).acceptanceCriteria, t.ShownToPass ops ac) ∧
    (∀ ac ∈ (t.edited ops).acceptanceCriteria, ∀ tc, (t.edited ops).caseOf ac = some tc →
      (t.edited ops).syncTestCasesFromAcceptance.caseOf ac = some tc) ∧
    (t.edited ops).syncTestCasesFromAcceptance.syncTestCasesFromAcceptance =
      (t.edited ops).syncTestCasesFromAcceptance ∧
    ∀ o d, CaseOp.target o = some d → (t.edited ops).OneCase (o.op.step (t.edited ops)) d o := by
  have hf := @frame_edited t ops
  have hh : (t.edited ops).Trimmed := trimmed_edited fun tc hm => by simp [ht] at hm
  refine ⟨?_, fun ac ha tc hc => sync_keeps ha hc, sync_idempotent, fun o d h => oneCase_step hh h⟩
  rw [verify_ok_iff (hf.1.trans hk) (hf.2.trans hs)]
  simp only [verdict_eq_passed_iff ht]

-- A fixed bug whose criterion is shown, dropped, and taken up again.
def fixedCrash : Ticket where
  id                 := ⟨"B001"⟩
  kind               := .bug
  title              := "Crash"
  status             := .fixed
  acceptanceCriteria := ["no crash"]

def shownAndDropped : List CaseOp := [
  .ensureTestCasesFromAcceptance,
  .setTestCaseResult "no crash" true none none "2026-01-01T00:00:00Z",
  .setAcceptanceCriteria [],
  .syncTestCasesFromAcceptance,
  .setAcceptanceCriteria ["no crash"],
  .syncTestCasesFromAcceptance
]

theorem verified_iff_shown_fixedCrash :
    ((∃ t', (fixedCrash.edited (shownAndDropped.take 2)).transitionTo .system .verified = .ok t') ∧
      fixedCrash.ShownToPass (shownAndDropped.take 2) "no crash") ∧
    ¬fixedCrash.ShownToPass shownAndDropped "no crash" := by
  have hv : (∃ t', (fixedCrash.edited (shownAndDropped.take 2)).transitionTo .system .verified = .ok t') :=
    ⟨{ fixedCrash.edited (shownAndDropped.take 2) with status := .verified }, by decide +kernel⟩
  refine ⟨⟨hv, ?_⟩, ?_⟩
  · exact (verified_iff_shown rfl rfl rfl (shownAndDropped.take 2)).1.mp hv "no crash" (by decide +kernel)
  · rw [← verdict_eq_passed_iff rfl]
    decide +kernel

end Ticket
