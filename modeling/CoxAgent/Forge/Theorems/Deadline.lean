import CoxAgent.Forge.Theorems.Verified

-- The decision ends the review, where the forge takes or refuses the merge.
def HoldExpiry.endsReview (merges : Bool) : HoldExpiry → Bool
  | .keep _  => false
  | .land _  => merges
  | .close _ => true

-- The ticket is merged elsewhere, and for that the pull request is closed or merged.
def endsElsewhere (config : GitConfig) (merged : List (Nat × String)) (s : ProjectState) (pr : PullRequest)
    (io : HoldIo) (headSha tid : String) : Bool :=
  let landable := io.diffElsewhere.toOption.any fun d =>
    pr.mergeable && !diffHasConflictMarkers d && (commitsScratch d).isNone
  let decision := openHoldExpiry (priorHold config pr io.holdLoads s) (HoldKind.elsewhere.reason tid) headSha
    landable config.holdMaxRounds
  mergedElsewhere merged pr tid &&
    (io.diffElsewhere.toOption.any (diffLandedOnMain · io.onMainElsewhere) ||
      decision.endsReview io.mergeExpired.isOk)

-- A clean pull request past its deadline, which asks for no person, competes with no other one and whose
-- ticket is open.
structure Overdue (config : GitConfig) (prs : List PullRequest) (s : ProjectState) (pr : PullRequest)
    (io : ReviewIo) : Prop where
  autoMerge : config.autoMerge
  bound     : 0 < config.reviewDeadlineHours
  mergeable : pr.mergeable
  scratch   : ∀ d, io.diffScratch = .ok d → commitsScratch d = none
  clean     : ∀ d, io.diff = .ok d → ¬diffHasConflictMarkers d
  eyes      : ∀ d, io.diff = .ok d → needsHumanEyes d config.maxChangedLines = none
  alone     : competingPr pr.number pr.title (prs.map fun p => (p.number, p.title)) = none
  ticket    : ∀ tid, ticketIdIn pr.title = some tid → settledStatus tid s = none
  age       : ∃ age, io.prAge = some age ∧ config.reviewDeadlineHours * 3600 ≤ age

-- No answer of the hub has a verdict on the pull request.
def Unjudged (n : Nat) (reviews : List PrReview) : Prop :=
  ∀ r ∈ reviews, r.number = n → r.decision = "parked_no_verdict"

instance {n : Nat} {reviews : List PrReview} : Decidable (Unjudged n reviews) :=
  inferInstanceAs (Decidable (∀ r ∈ reviews, r.number = n → r.decision = "parked_no_verdict"))

structure HubUnjudged (n : Nat) (io : ReviewIo) : Prop where
  reviewed  : Unjudged n io.reviewed
  anyReview : Unjudged n io.anyReview

-- The guards of the review let the pull request reach its deadline, and its ticket has no fresh merge.
structure Reaches (config : GitConfig) (merged : List (Nat × String)) (s : ProjectState) (pr : PullRequest)
    (io : ReviewIo) : Prop where
  base      : pr.base = config.flowBase
  elsewhere : ∀ tid, ticketIdIn pr.title = some tid →
                ¬endsElsewhere config merged s pr io.toHoldIo (prHeadSha io.lsRemote) tid
  unparked  : ¬decidedAt pr (prHeadSha io.lsRemote) io.parked "parked_no_verdict"
  lease     : io.claimed.toOption.getD true
  ci        : config.requireCi → pr.ci ≠ "failing" ∧ pr.ci ≠ "pending"
  read      : io.diff.isOk
  fresh     : fixOnFixHold io pr s = none

section Review

variable {config : GitConfig} {edits : Nat → EditIo} {prs : List PullRequest} {merged : List (Nat × String)}
variable {pr : PullRequest} {io : ReviewIo} {hio : HoldIo} {tid headSha diff : String}
variable {o o' : ForgeRun} {s : ProjectState}

-- What the later phases read of the state.
structure SameBoard (s s' : ProjectState) : Prop where
  tickets   : s'.tickets = s.tickets
  lastMerge : s'.ticketLastMerge = s.ticketLastMerge

theorem SameBoard.save {f : EditIo → ProjectState → ProjectState} (h : SameBoard s o.state)
    (hf : ∀ e s, SameBoard s (f e s)) : SameBoard s (o.save edits f).state := by
  unfold PortRun.save
  rw [PortRun.state_edit]
  split
  case isTrue  => exact h
  case isFalse => exact ⟨(hf _ _).tickets.trans h.tickets, (hf _ _).lastMerge.trans h.lastMerge⟩

theorem SameBoard.log (h : SameBoard s o.state) {action : String} :
    SameBoard s (o.log edits action).state :=
  SameBoard.save (f := fun e s => s.logActivity e.now "GIT" action none) h fun _ _ => ⟨rfl, rfl⟩

theorem SameBoard.round (h : SameBoard s o.state) {loads landable : Bool} {reason : String} :
    SameBoard s (openHoldRound config edits pr loads reason headSha landable o).1.state := by
  unfold openHoldRound
  dsimp only
  split
  case isTrue  => exact h
  case isFalse =>
    refine SameBoard.save h fun e s => ?_
    unfold recordRound
    split <;> exact ⟨rfl, rfl⟩

theorem SameBoard.fresh (h : SameBoard s o.state) : fixOnFixHold io pr o.state = fixOnFixHold io pr s := by
  unfold fixOnFixHold
  rw [h.lastMerge]

theorem reviewElsewhere_snd : (reviewElsewhere config edits merged pr hio tid headSha o).2 =
    !endsElsewhere config merged o.state pr hio headSha tid := by
  unfold endsElsewhere
  dsimp only
  by_cases hm : mergedElsewhere merged pr tid
  case neg => simp [reviewElsewhere_of_not hm, hm]
  case pos =>
    rw [hm, Bool.true_and]
    unfold mergedElsewhere at hm
    unfold reviewElsewhere
    dsimp only
    rw [if_neg (by rw [hm]; nofun)]
    split
    case isTrue hl  => rw [hl]; rfl
    case isFalse hl =>
      rw [Bool.eq_false_of_not_eq_true hl, Bool.false_or]
      generalize hio.diffElsewhere.toOption.any _ = landable
      have hd : (openHoldRound config edits pr hio.holdLoads (HoldKind.elsewhere.reason tid) headSha landable
          (o.act (.prDiff pr.number hio.diffElsewhere))).2 = _ := openHoldRound_snd
      rw [PortRun.state_act] at hd
      rw [← hd]
      unfold HoldKind.reason
      dsimp only
      generalize openHoldRound config edits pr hio.holdLoads _ headSha landable _ = r
      cases r.2 with
      | keep rounds  => rfl
      | land rounds  => cases hio.mergeExpired <;> rfl
      | close rounds => rfl

-- A review that goes on after the hold has only counted a round of it.
theorem reviewElsewhere_board
    (hg : (reviewElsewhere config edits merged pr hio tid headSha o).2) :
    SameBoard o.state (reviewElsewhere config edits merged pr hio tid headSha o).1.state := by
  by_cases hm : mergedElsewhere merged pr tid
  case neg =>
    rw [reviewElsewhere_of_not hm]
    exact ⟨rfl, rfl⟩
  case pos =>
    unfold mergedElsewhere at hm
    unfold reviewElsewhere at hg ⊢
    dsimp only at hg ⊢
    rw [if_neg (by rw [hm]; nofun)] at hg ⊢
    split
    case isTrue hl  => rw [if_pos hl] at hg; contradiction
    case isFalse hl =>
      rw [if_neg hl] at hg
      generalize hio.diffElsewhere.toOption.any _ = landable at hg ⊢
      have hr : SameBoard o.state (openHoldRound config edits pr hio.holdLoads
          (HoldKind.elsewhere.reason tid) headSha landable
          (o.act (.prDiff pr.number hio.diffElsewhere))).1.state :=
        SameBoard.round (o := o.act (.prDiff pr.number hio.diffElsewhere)) ⟨rfl, rfl⟩
      unfold HoldKind.reason at hr
      generalize openHoldRound config edits pr hio.holdLoads _ headSha landable _ = r at hg hr ⊢
      cases hd : r.2 with
      | keep rounds  => exact hr.log
      | land rounds  =>
        rw [hd] at hg
        cases hme : hio.mergeExpired with
        | error e => exact hr
        | ok _    => rw [hme] at hg; contradiction
      | close rounds => rw [hd] at hg; contradiction

theorem reviewSettled_open (hs : settledStatus tid o.state = none) :
    reviewSettled config edits pr hio tid headSha o = (o, true) := by
  unfold reviewSettled
  rw [hs, ite_self]

variable (config edits merged hio headSha) in
-- The holds of a pull request whose ticket is open.
theorem reviewHolds_open (hs : ∀ tid, ticketIdIn pr.title = some tid → settledStatus tid o.state = none) :
    let p := reviewHolds config edits merged pr hio headSha o
    (p.2 ↔ ∀ tid, ticketIdIn pr.title = some tid →
      ¬endsElsewhere config merged o.state pr hio headSha tid) ∧ (p.2 → SameBoard o.state p.1.state) := by
  unfold reviewHolds
  cases ht : ticketIdIn pr.title with
  | none     => exact ⟨by simp, fun _ => ⟨rfl, rfl⟩⟩
  | some tid =>
    dsimp only
    have hsnd : (reviewElsewhere config edits merged pr hio tid headSha o).2 = _ := reviewElsewhere_snd
    unfold ReviewPhase.andThen
    split
    case isFalse hg =>
      rw [hsnd, Bool.not_eq_true', Bool.not_eq_false] at hg
      simp [hsnd, hg]
    case isTrue hg  =>
      have hb := reviewElsewhere_board hg
      have ho := hs tid ht
      rw [← settledStatus_congr hb.tickets] at ho
      rw [reviewSettled_open ho]
      rw [hsnd, Bool.not_eq_true'] at hg
      exact ⟨by simp [hg], fun _ => hb⟩

theorem reviewScratch_clean (hs : ∀ d, io.diffScratch = .ok d → commitsScratch d = none) :
    reviewScratch edits io pr o = (o.act (.prDiff pr.number io.diffScratch), true) := by
  unfold reviewScratch
  cases hd : io.diffScratch with
  | error e => rfl
  | ok d    => simp [Except.toOption, hs d hd]

variable (headSha o) in
theorem reviewClaim_open (hu : Unjudged pr.number io.reviewed) :
    ((reviewClaim io pr headSha o).2 ↔
      ¬decidedAt pr headSha io.parked "parked_no_verdict" ∧ io.claimed.toOption.getD true) ∧
    (reviewClaim io pr headSha o).1.state = o.state := by
  have hr : ¬decidedAt pr headSha io.reviewed "request_changes" := by
    unfold decidedAt
    rw [Bool.and_eq_true, List.any_eq_true]
    rintro ⟨-, r, hr, hd⟩
    simp only [Bool.and_eq_true, decide_eq_true_eq] at hd
    have hp := hu r hr hd.left.left
    rw [hd.left.right] at hp
    contradiction
  unfold reviewClaim
  rw [if_neg hr]
  split
  case isTrue hp  => simp [hp]
  case isFalse hp => simp [hp]

variable (config edits headSha o) in
theorem reviewGate_open (hm : pr.mergeable) :
    ((reviewGate config edits pr headSha o).2 ↔
      (config.requireCi → pr.ci ≠ "failing" ∧ pr.ci ≠ "pending")) ∧
    ((reviewGate config edits pr headSha o).2 → (reviewGate config edits pr headSha o).1 = o) := by
  unfold reviewGate
  split
  case isTrue hp  =>
    simp only [Bool.and_eq_true, decide_eq_true_eq] at hp
    simp [hp]
  case isFalse hp =>
    simp only [Bool.and_eq_true, decide_eq_true_eq, not_and] at hp
    dsimp only
    by_cases hf : config.requireCi && pr.ci = "failing"
    case pos =>
      rw [if_pos hf]
      simp only [Bool.and_eq_true, decide_eq_true_eq] at hf
      simp [hf]
    case neg =>
      rw [if_neg hf]
      simp only [Bool.and_eq_true, decide_eq_true_eq, not_and] at hf
      simp only [hm, Bool.not_true, Bool.false_eq_true, if_false, true_iff]
      exact ⟨fun hc => ⟨hf hc, hp hc⟩, fun _ => trivial⟩

theorem landOverdue_verifies (he : needsHumanEyes diff config.maxChangedLines = none) {age : Nat} :
    verifications pr.number (landOverdue config edits io pr diff age o) ≠ [] ↔
      verifications pr.number o ≠ [] ∨ fixOnFixHold io pr o.state = none := by
  unfold landOverdue personHold verifyPr
  rw [he, Option.none_or]
  cases hf : fixOnFixHold io pr o.state with
  | some why => simp
  | none     =>
    dsimp only
    cases verifyMergedResult io.verify pr.head config.flowBase with
    | error why => simp [ForgeCall.verifies]
    | ok _      => cases io.merge <;> simp [ForgeCall.verifies]

theorem reviewDeadline_overdue (h : Overdue config prs s pr io) (hu : Unjudged pr.number io.anyReview) :
    ∃ age, reviewDeadline config edits io pr diff o =
      (clearSkips edits pr (landOverdue config edits io pr diff age o), false) := by
  have ⟨age, hage, hlate⟩ := h.age
  have hno : (io.anyReview.any fun r => r.number = pr.number && r.decision ≠ "parked_no_verdict") = false := by
    rw [List.any_eq_false]
    intro r hr
    simpa using hu r hr
  unfold reviewDeadline
  dsimp only
  rw [hno, h.autoMerge, h.mergeable, decide_eq_true h.bound, hage]
  exact ⟨age, if_pos hlate⟩

-- What has passed the guards is verified at its deadline, if its ticket has no fresh merge.
theorem reviewDiff_overdue (h : Overdue config prs s pr io) (hu : Unjudged pr.number io.anyReview)
    (hv : verifications pr.number o = []) :
    verifications pr.number (reviewDiff config edits prs io pr headSha o) ≠ [] ↔
      io.diff.isOk ∧ fixOnFixHold io pr o.state = none := by
  unfold reviewDiff
  dsimp only
  cases hd : io.diff with
  | error e => simp [hv, ForgeCall.verifies, Except.isOk, Except.toBool]
  | ok diff =>
    have hv' : verifications pr.number (o.act (.prDiff pr.number (.ok diff))) = [] := by
      simp [hv, ForgeCall.verifies]
    obtain ⟨age, hdl⟩ : ∃ age, reviewDeadline config edits io pr diff (o.act (.prDiff pr.number (.ok diff))) =
        (clearSkips edits pr (landOverdue config edits io pr diff age _), false) :=
      reviewDeadline_overdue h hu
    have hl : verifications pr.number (landOverdue config edits io pr diff age
        (o.act (.prDiff pr.number (.ok diff)))) ≠ [] ↔ _ := landOverdue_verifies (h.eyes diff hd)
    unfold reviewCompeting ReviewPhase.andThen
    rw [h.alone]
    dsimp only
    rw [if_neg (h.clean diff hd), if_pos rfl, hdl]
    simpa [hv', Except.isOk, Except.toBool] using hl

theorem ReviewPhase.andThen_fst {p : ReviewPhase} {f : ForgeRun → ReviewPhase} (h : p.2) :
    (p.andThen f).1 = (f p.1).1 := by
  unfold ReviewPhase.andThen
  rw [if_pos h]

variable (edits merged headSha) in
-- What the guards of the review do to an overdue pull request.
theorem guards_overdue (h : Overdue config prs o.state pr io) (hu : Unjudged pr.number io.reviewed) :
    let p := (reviewHolds config edits merged pr io.toHoldIo headSha o).andThen (reviewScratch edits io pr)
      |>.andThen (reviewClaim io pr headSha) |>.andThen (reviewGate config edits pr headSha)
    (p.2 ↔ (∀ tid, ticketIdIn pr.title = some tid →
        ¬endsElsewhere config merged o.state pr io.toHoldIo headSha tid) ∧
      (¬decidedAt pr headSha io.parked "parked_no_verdict" ∧ io.claimed.toOption.getD true) ∧
      (config.requireCi → pr.ci ≠ "failing" ∧ pr.ci ≠ "pending")) ∧
    (p.2 → SameBoard o.state p.1.state) := by
  dsimp only
  have ⟨hh, hb⟩ := reviewHolds_open config edits merged io.toHoldIo headSha h.ticket
  generalize reviewHolds config edits merged pr io.toHoldIo headSha o = p₀ at hh hb ⊢
  have hs (o) : reviewScratch edits io pr o = (o.act (.prDiff pr.number io.diffScratch), true) :=
    reviewScratch_clean h.scratch
  have hc (o) := reviewClaim_open headSha o hu
  have hg (o) := reviewGate_open config edits headSha o h.mergeable
  rw [ReviewPhase.andThen_snd, ReviewPhase.andThen_snd, ReviewPhase.andThen_snd, hs, (hc _).left,
    (hg _).left, hh]
  refine ⟨by simp [and_assoc], ?_⟩
  rintro ⟨⟨⟨hp₀, -⟩, hp₁⟩, hp₂⟩
  have h₀ : p₀.2 := hh.mpr hp₀
  have h₁ : (p₀.andThen (reviewScratch edits io pr)).2 := ReviewPhase.andThen_snd.mpr ⟨h₀, by rw [hs]⟩
  have h₂ : ((p₀.andThen (reviewScratch edits io pr)).andThen (reviewClaim io pr headSha)).2 :=
    ReviewPhase.andThen_snd.mpr ⟨h₁, (hc _).left.mpr hp₁⟩
  rw [ReviewPhase.andThen_fst h₂, (hg _).right ((hg _).left.mpr hp₂), ReviewPhase.andThen_fst h₁,
    (hc _).right, ReviewPhase.andThen_fst h₀, hs]
  exact hb h₀

-- The review of an overdue pull request verifies it if and only if no guard stands before the deadline.
theorem reviewPr_overdue (h : Overdue config prs o.state pr io) (hu : HubUnjudged pr.number io)
    (hv : verifications pr.number o = []) :
    verifications pr.number (reviewPr config edits prs io pr merged o) ≠ [] ↔
      Reaches config merged o.state pr io := by
  unfold reviewPr
  by_cases hb : pr.base = config.flowBase
  case neg =>
    rw [if_pos hb, hv]
    exact ⟨fun hn => absurd rfl hn, fun hr => absurd hr.base hb⟩
  case pos =>
    rw [if_neg (not_not_intro hb)]
    have ⟨hgo, hsame⟩ := guards_overdue edits merged (prHeadSha io.lsRemote) h hu.reviewed
    dsimp only at hgo hsame ⊢
    have hv₃ : verifications pr.number ((reviewHolds config edits merged pr io.toHoldIo
        (prHeadSha io.lsRemote) o).andThen (reviewScratch edits io pr)
      |>.andThen (reviewClaim io pr (prHeadSha io.lsRemote))
      |>.andThen (reviewGate config edits pr (prHeadSha io.lsRemote))).1 = [] := by
      simp [verifications_andThen, hv]
    generalize ReviewPhase.andThen _ (reviewGate config edits pr (prHeadSha io.lsRemote)) = p
      at hgo hsame hv₃ ⊢
    split
    case isFalse hp =>
      rw [hgo] at hp
      rw [hv₃]
      exact ⟨fun hn => absurd rfl hn, fun hr => absurd ⟨hr.elsewhere, ⟨hr.unparked, hr.lease⟩, hr.ci⟩ hp⟩
    case isTrue hp  =>
      have ⟨he, ⟨hpk, hl⟩, hci⟩ := hgo.mp hp
      have h' : Overdue config prs p.1.state pr io :=
        { h with ticket := fun tid ht => (settledStatus_congr (hsame hp).tickets).trans (h.ticket tid ht) }
      rw [reviewDiff_overdue h' hu.anyReview hv₃, (hsame hp).fresh]
      exact ⟨fun ⟨hr, hf⟩ => ⟨hb, he, hpk, hl, hci, hr, hf⟩, fun hr => ⟨hr.read, hr.fresh⟩⟩

end Review

section Pass

variable {config : GitConfig} {edits : Nat → EditIo} {prs : List PullRequest} {merged : List (Nat × String)}
variable {review : Nat → ReviewIo} {queue : List (PullRequest × Nat)} {pass : PassIo} {pr : PullRequest}
variable {o : ForgeRun} {s : ProjectState} {n i : Nat}

-- What a pass has done when the turn of the pull request at the place comes.
def passTurn (config : GitConfig) (pass : PassIo) (i : Nat) (s : ProjectState) : ForgeRun :=
  ((reviewQueue config pass).take i).foldl
    (fun o at' => reviewPr config pass.edits (pass.openPrs.toOption.getD []) (pass.review at'.2) at'.1
      pass.merged o)
    (PortRun.act { state := s } (.report "SA" "reviewing PRs"))

variable (review) in
theorem foldl_verifications (hq : ∀ at' ∈ queue, at'.1.number ≠ n) :
    verifications n (queue.foldl (fun o at' => reviewPr config edits prs (review at'.2) at'.1 merged o) o) =
      verifications n o := by
  induction queue generalizing o
  case nil               => rfl
  case cons at' queue hi =>
    have ⟨hn, hq⟩ := List.forall_mem_cons.mp hq
    rw [List.foldl_cons, hi hq, verifications_reviewPr hn]

-- The pull request is the only one with its number.
theorem queue_eq {b : Nat} (hn : (prs.map (·.number)).Nodup) (hi : prs.reverse[i]? = some pr) (hb : i < b) :
    ∃ after, (prs.reverse.take b).zipIdx = (prs.reverse.take b).zipIdx.take i ++ (pr, i) :: after ∧
      (∀ at' ∈ (prs.reverse.take b).zipIdx.take i, at'.1.number ≠ pr.number) ∧
      ∀ at' ∈ after, at'.1.number ≠ pr.number := by
  have hq : (prs.reverse.take b).zipIdx[i]? = some (pr, i) := by
    simp [List.getElem?_zipIdx, hb, hi]
  have hnd : ((prs.reverse.take b).zipIdx.map fun at' => at'.1.number).Nodup := by
    have hm : (fun at' : PullRequest × Nat => at'.1.number) = (·.number) ∘ Prod.fst := rfl
    rw [hm, ← List.map_map, List.zipIdx_map_fst]
    apply List.Nodup.sublist ((List.take_sublist _ _).map _)
    rw [List.map_reverse]
    exact List.nodup_reverse.mpr hn
  generalize (prs.reverse.take b).zipIdx = q at hq hnd ⊢
  obtain ⟨hlt, hget⟩ := List.getElem?_eq_some_iff.mp hq
  have hsplit : q = q.take i ++ (pr, i) :: q.drop (i + 1) := by
    rw [← hget, List.getElem_cons_drop, List.take_append_drop]
  refine ⟨_, hsplit, ?_⟩
  rw [hsplit, List.map_append, List.map_cons, List.nodup_middle, List.nodup_cons, List.mem_append] at hnd
  constructor
  case left  => exact fun at' hm he => hnd.left (.inl (List.mem_map.mpr ⟨at', hm, he⟩))
  case right => exact fun at' hm he => hnd.left (.inr (List.mem_map.mpr ⟨at', hm, he⟩))

theorem not_mem_queue {b : Nat} (hn : (prs.map (·.number)).Nodup) (hi : prs.reverse[i]? = some pr)
    (hb : b ≤ i) : ∀ at' ∈ (prs.reverse.take b).zipIdx, at'.1.number ≠ pr.number := by
  intro at' hm he
  have hn : (prs.reverse.map (·.number)).Nodup := by
    rw [List.map_reverse]
    exact List.nodup_reverse.mpr hn
  have hm := List.fst_mem_of_mem_zipIdx hm
  have hd : pr ∈ prs.reverse.drop b := by
    apply List.mem_of_getElem? (i := i - b)
    rw [List.getElem?_drop, Nat.add_sub_cancel' hb, hi]
  rw [← List.take_append_drop b prs.reverse, List.map_append] at hn
  exact (List.disjoint_of_nodup_append hn) (List.mem_map_of_mem hm) (he ▸ List.mem_map_of_mem hd)

-- A pass verifies an overdue pull request if and only if it reviews it and no guard stands before the
-- deadline.
theorem reviewOpenPrs_overdue (hl : pass.openPrs = .ok prs) (hn : (prs.map (·.number)).Nodup)
    (hi : prs.reverse[i]? = some pr)
    (h : Overdue config prs (passTurn config pass i s).state pr (pass.review i))
    (hu : HubUnjudged pr.number (pass.review i)) :
    verifications pr.number (reviewOpenPrs config pass { state := s }) ≠ [] ↔
      (config.enabled ∧ pass.forge ∧ i < reviewBatch config) ∧
        Reaches config pass.merged (passTurn config pass i s).state pr (pass.review i) := by
  have hmem : pr ∈ prs := List.mem_reverse.mp (List.mem_of_getElem? hi)
  unfold reviewOpenPrs
  split
  case isTrue hoff =>
    simp only [h.autoMerge, Bool.or_true, Bool.not_true, Bool.or_false, Bool.or_eq_true,
      Bool.not_eq_true'] at hoff
    refine ⟨fun hv => absurd rfl hv, fun hr => ?_⟩
    simp [hr.left.left, hr.left.right.left] at hoff
  case isFalse hon =>
    simp only [h.autoMerge, Bool.or_true, Bool.not_true, Bool.or_false, Bool.or_eq_true,
      Bool.not_eq_true', not_or, Bool.not_eq_false] at hon
    rw [hl]
    dsimp only
    split
    case isTrue ha  =>
      have hb : pr.base ≠ config.flowBase := by simpa using List.all_eq_true.mp ha pr hmem
      exact ⟨fun hv => absurd rfl hv, fun hr => absurd hr.right.base hb⟩
    case isFalse =>
      by_cases hb : i < reviewBatch config
      case neg =>
        rw [foldl_verifications pass.review (not_mem_queue hn hi (Nat.le_of_not_lt hb))]
        exact ⟨fun hv => absurd rfl hv, fun hr => absurd hr.left.right.right hb⟩
      case pos =>
        have ⟨after, hq, hbe, haf⟩ := queue_eq hn hi hb
        have hturn : passTurn config pass i s = ((prs.reverse.take (reviewBatch config)).zipIdx.take i).foldl
            (fun o at' => reviewPr config pass.edits prs (pass.review at'.2) at'.1 pass.merged o)
            (PortRun.act { state := s } (.report "SA" "reviewing PRs")) := by
          unfold passTurn reviewQueue
          rw [hl]
          rfl
        have hv : verifications pr.number (passTurn config pass i s) = [] := by
          rw [hturn, foldl_verifications pass.review hbe]
          rfl
        rw [hq, List.foldl_append, List.foldl_cons, foldl_verifications pass.review haf]
        rw [hturn] at h hv ⊢
        rw [← PassIo.merged, reviewPr_overdue h hu hv]
        simp [hon, hb]

end Pass

-- The reviews that are reported.
def reportsOf (calls : List ForgeCall) : List PrReview :=
  calls.filterMap fun
    | .reportReview number decision _ headSha => some { number, decision, headSha }
    | _                                       => none

def toldBy (config : GitConfig) (l : ReviewLane) : LaneEvent → List PrReview
  | .pass pass _ => reportsOf (reviewOpenPrs config pass { state := l.state }).actions
  | .review r    => [r]
  | .others _    => []

-- The hub answers with the reviews that it keeps, or cannot be asked.
structure HubAnswers (hub : List PrReview) (io : ReviewIo) : Prop where
  reviewed  : io.reviewed = hub ∨ io.reviewed = []
  parked    : io.parked = hub ∨ io.parked = []
  anyReview : io.anyReview = hub ∨ io.anyReview = []

section Hub

variable {config : GitConfig} {lost : Nat → Bool} {reviews : List PrReview} {r r' : PrReview} {n : Nat}
variable {calls : List ForgeCall} {l : ReviewLane} {e : LaneEvent} {es : List LaneEvent} {io : ReviewIo}

theorem mem_upsertReview (h : r' ∈ upsertReview r reviews) : r' = r ∨ r' ∈ reviews := by
  unfold upsertReview at h
  have h := List.mem_of_mem_drop h
  split at h
  case h_1 => exact (List.mem_or_eq_of_mem_set h).symm
  case h_2 => exact (List.mem_append.mp h).symm.imp_left List.mem_singleton.mp

theorem Unjudged.upsert (h : Unjudged n reviews) (hr : Unjudged n [r]) :
    Unjudged n (upsertReview r reviews) := by
  intro r' hr'
  obtain rfl | hr' := mem_upsertReview hr'
  case inl => exact hr r' (List.mem_singleton_self _)
  case inr => exact h r' hr'

theorem Unjudged.kept (h : Unjudged n reviews) (hc : Unjudged n (reportsOf calls)) :
    Unjudged n (hubAfter lost reviews calls) := by
  have hcalls : ∀ c ∈ calls.zipIdx, Unjudged n (reportsOf [c.1]) := by
    intro c hm r hr
    apply hc r
    have hsub : [c.1].Sublist calls := List.singleton_sublist.mpr (List.fst_mem_of_mem_zipIdx hm)
    exact (hsub.filterMap _).subset hr
  unfold hubAfter
  generalize calls.zipIdx = cs at hcalls
  induction cs generalizing reviews
  case nil          => exact h
  case cons c cs hi =>
    have ⟨hc, hcs⟩ := List.forall_mem_cons.mp hcalls
    refine hi ?_ hcs
    unfold reported
    split
    case h_1 number decision _ headSha hd =>
      split
      case isTrue  => exact h
      case isFalse => exact h.upsert (by simpa [reportsOf, hd] using hc)
    case h_2 => exact h

theorem laneStep_unjudged (he : Unjudged n (toldBy config l e)) (h : Unjudged n l.reviews) :
    Unjudged n (laneStep config l e).reviews := by
  cases e with
  | pass pass lost => exact h.kept he
  | review r       => exact h.upsert he
  | others s'      => exact h

theorem HubAnswers.unjudged {hub : List PrReview} (ha : HubAnswers hub io) (h : Unjudged n hub) :
    HubUnjudged n io where
  reviewed  := by obtain hr | hr := ha.reviewed <;> rw [hr] <;> first | exact h | nofun
  anyReview := by obtain hr | hr := ha.anyReview <;> rw [hr] <;> first | exact h | nofun

end Hub

section Runs

variable (config : GitConfig) (l₀ : ReviewLane) (es : List LaneEvent) (pass : PassIo) (i : Nat)

-- What the pass after a run has done when the turn of the pull request comes.
def runTurn : ForgeRun :=
  passTurn config pass i (es.foldl (laneStep config) l₀).state

-- The pull request has never received a verdict.
structure NeverJudged (n : Nat) : Prop where
  before : Unjudged n l₀.reviews
  run    : Run.Meets (laneStep config) (fun l e => Unjudged n (toldBy config l e)) l₀ es
  turn   : Unjudged n (reportsOf (runTurn config l₀ es pass i).actions)

-- A run of passes, and a pass after it to which the hub answers. It is past the deadline of a pull request
-- that the forge lists.
structure OverdueRun (lost : Nat → Bool) (prs : List PullRequest) (pr : PullRequest) : Prop where
  listed  : pass.openPrs = .ok prs
  once    : (prs.map (·.number)).Nodup
  place   : prs.reverse[i]? = some pr
  judged  : NeverJudged config l₀ es pass i pr.number
  answers : HubAnswers (hubAfter lost (es.foldl (laneStep config) l₀).reviews
              (runTurn config l₀ es pass i).actions) (pass.review i)
  overdue : Overdue config prs (runTurn config l₀ es pass i).state pr (pass.review i)

variable {config l₀ es pass i} {lost : Nat → Bool} {prs : List PullRequest} {pr : PullRequest}

-- The deadline owns a pull request if and only if the pass reviews it and no guard stands before the
-- deadline, of which one is the mark of a pull request that was parked.
theorem overdue_verified_iff (h : OverdueRun config l₀ es pass i lost prs pr) :
    (∃ answer, .verifyMergedResult pr.number answer ∈
      (reviewOpenPrs config pass { state := (es.foldl (laneStep config) l₀).state }).actions) ↔
    (config.enabled ∧ pass.forge ∧ i < reviewBatch config) ∧
      Reaches config pass.merged (runTurn config l₀ es pass i).state pr (pass.review i) := by
  have hhub : Unjudged pr.number (es.foldl (laneStep config) l₀).reviews :=
    Run.inv (J := fun l => Unjudged pr.number l.reviews) (fun _ _ he hl => laneStep_unjudged he hl)
      h.judged.run h.judged.before
  have hu := h.answers.unjudged (hhub.kept h.judged.turn)
  rw [← mem_verifications]
  exact reviewOpenPrs_overdue h.listed h.once h.place h.overdue hu

-- A pass whose reviewer fails, so many hours after the pull request was opened.
def stalls (hours : Nat) (hub : List PrReview) : PassIo :=
  reviewsFix { approves "+fixed" with
    verdict   := none
    prAge     := some (hours * 3600)
    reviewed  := hub
    parked    := hub
    anyReview := hub
  }

def stalledPasses (k : Nat) : List LaneEvent :=
  (List.range k).map fun hours => .pass (stalls hours []) fun _ => false

def parkedFix : PrReview where
  number   := 7
  decision := "parked_no_verdict"
  headSha  := "a1"

theorem overdueRun_stalls (k : Nat) (hub : List PrReview)
    (hm : Run.Meets (laneStep landsFixes) (fun l e => Unjudged 7 (toldBy landsFixes l e)) { state := {} }
      (stalledPasses k))
    (ht : ((stalledPasses k).foldl (laneStep landsFixes) { state := {} }).state.tickets = [])
    (hh : ((stalledPasses k).foldl (laneStep landsFixes) { state := {} }).reviews = hub) :
    OverdueRun landsFixes { state := {} } (stalledPasses k) (stalls 13 hub) 0 (fun _ => false) [fixPr]
      fixPr := by
  have hd {d : String} (hd : Except.ok (ε := PortError) "+fixed" = .ok d) : d = "+fixed" :=
    (Except.ok.inj hd).symm
  refine ⟨rfl, by decide, rfl, ⟨nofun, hm, nofun⟩, ⟨.inl hh.symm, .inl hh.symm, .inl hh.symm⟩, ?_⟩
  exact {
    autoMerge := rfl
    bound     := by decide
    mergeable := rfl
    scratch   := fun d h => hd h ▸ by decide +kernel
    clean     := fun d h => hd h ▸ by decide +kernel
    eyes      := fun d h => hd h ▸ by decide +kernel
    alone     := by decide +kernel
    ticket    := fun tid _ => by
      have ht : (runTurn landsFixes { state := {} } (stalledPasses k) (stalls 13 hub) 0).state.tickets = [] := ht
      simp [settledStatus, ht]
    age       := ⟨_, rfl, by decide⟩
  }

-- Nothing but the mark stands before the deadline.
theorem reaches_stalls {s : ProjectState} (hub : List PrReview) :
    Reaches landsFixes [] s fixPr { (stalls 13 hub).review 0 with parked := [] } where
  base      := by decide
  elsewhere := fun _ _ => Bool.false_ne_true
  unparked  := by simp [decidedAt]
  lease     := rfl
  ci        := nofun
  read      := rfl
  fresh     := by
    have ht : ticketIdIn fixPr.title = some "COX-B015" := by decide +kernel
    simp [fixOnFixHold, ht, stalls, reviewsFix, approves]

-- A pull request that the reviewer has failed on once is verified at its deadline.
theorem overdue_verified_stalled :
    ∃ answer, .verifyMergedResult 7 answer ∈ (reviewOpenPrs landsFixes (stalls 13 [])
      { state := ((stalledPasses 1).foldl (laneStep landsFixes) { state := {} }).state }).actions :=
  (overdue_verified_iff (overdueRun_stalls 1 [] (by decide +kernel) (by rfl) (by decide +kernel))).mpr
    ⟨by decide, reaches_stalls []⟩

-- The reviewer fails on it as often as it may, for which the pull request is parked. No pass after that
-- comes to its deadline, although nothing else stands before that.
theorem not_overdue_verified :
    OverdueRun landsFixes { state := {} } (stalledPasses 4) (stalls 13 [parkedFix]) 0 (fun _ => false) [fixPr]
      fixPr ∧
    Reaches landsFixes [] (runTurn landsFixes { state := {} } (stalledPasses 4) (stalls 13 [parkedFix]) 0).state
      fixPr { (stalls 13 [parkedFix]).review 0 with parked := [] } ∧
    ¬∃ answer, .verifyMergedResult 7 answer ∈ (reviewOpenPrs landsFixes (stalls 13 [parkedFix])
      { state := ((stalledPasses 4).foldl (laneStep landsFixes) { state := {} }).state }).actions := by
  refine ⟨overdueRun_stalls _ _ (by decide +kernel) (by rfl) (by decide +kernel), ?_, ?_⟩
  case refine_1 => exact reaches_stalls [parkedFix]
  case refine_2 =>
    rw [← mem_verifications, not_not]
    exact List.isEmpty_iff.mp (by decide +kernel)

end Runs
