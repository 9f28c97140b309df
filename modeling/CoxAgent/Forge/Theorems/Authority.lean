import CoxAgent.Forge.Theorems.Holds

variable {config : GitConfig} {edits : Nat → EditIo} {prs : List PullRequest} {io : ReviewIo}
variable {pr : PullRequest} {merged : List (Nat × String)} {s s' : ProjectState} {o : ForgeRun}
variable {past : List ForgeCall}

-- A merge is for a pull request that is open, that goes to the target branch and can be merged, and it
-- has a reason.
def Justified (config : GitConfig) (prs : List PullRequest) (merged : List (Nat × String))
    (s : ProjectState) (past : List ForgeCall) : ForgeCall → Prop
  | .mergePr n _ => ∃ pr ∈ prs, pr.number = n ∧ pr.base = config.flowBase ∧ pr.mergeable ∧
      MergeReason config merged pr s past
  | _            => True

-- So far every merge was justified, and the board is the one of the start.
structure Authorized (config : GitConfig) (prs : List PullRequest) (merged : List (Nat × String))
    (s : ProjectState) (o : ForgeRun) : Prop where
  merges  : Guarded (Justified config prs merged s) [] o.actions
  tickets : o.state.tickets = s.tickets

theorem MergeReason.congr (h : MergeReason config merged pr s past) (ht : s.tickets = s'.tickets) :
    MergeReason config merged pr s' past := by
  cases h
  case reviewed h    => exact .reviewed h
  case expired h hd  => exact .expired h hd
  case settled h hd  =>
    refine .settled ?_ hd
    unfold Settled settledStatus at *
    rwa [← ht]

theorem Authorized.act {c : ForgeCall} (h : Authorized config prs merged s o)
    (hc : Justified config prs merged s o.actions c) : Authorized config prs merged s (o.act c) where
  merges  := Guarded.append.mpr ⟨h.merges, by simpa using hc, trivial⟩
  tickets := h.tickets

theorem Authorized.save {f : EditIo → ProjectState → ProjectState}
    (h : Authorized config prs merged s o) (hf : ∀ e s, (f e s).tickets = s.tickets) :
    Authorized config prs merged s (o.save edits f) where
  merges  := h.merges
  tickets := by
    unfold PortRun.save
    rw [PortRun.state_edit]
    split
    case isTrue  => exact h.tickets
    case isFalse => exact (hf _ _).trans h.tickets

theorem authorized_closed : Closed edits (Authorized config prs merged s) where
  call hc ho := ho.act (by unfold Justified; split <;> simp_all)
  save hf ho := ho.save fun e s => (hf e s).tickets

theorem authorized_closedSlot {n : Nat} : ClosedSlot edits n (Authorized config prs merged s) :=
  fun hf ho => ho.save fun e s => (hf e s).left

theorem authorized_closedMerge (hmem : pr ∈ prs) (hb : pr.base = config.flowBase) :
    ClosedMerge config merged pr (Authorized config prs merged s) :=
  fun _ _ ho hp hr => ho.act ⟨pr, hmem, rfl, hb, hp, hr.congr ho.tickets⟩

theorem reviewPr_authorized (hmem : pr ∈ prs) (ho : Authorized config prs merged s o) :
    Authorized config prs merged s (reviewPr config edits prs io pr merged o) := by
  by_cases hb : pr.base = config.flowBase
  case neg =>
    unfold reviewPr
    rwa [if_pos hb]
  case pos =>
    have hm : ClosedMerge config merged pr (Authorized config prs merged s) :=
      authorized_closedMerge hmem hb
    refine authorized_closed.afterHolds hm (fun _ => ho) ?_
    exact authorized_closed.holds authorized_closedSlot hm ho

variable (edits) in
theorem foldl_reviewPr_authorized (review : Nat → ReviewIo) {queue : List (PullRequest × Nat)}
    (hq : ∀ at' ∈ queue, at'.1 ∈ prs) (ho : Authorized config prs merged s o) :
    Authorized config prs merged s
      (queue.foldl (fun o at' => reviewPr config edits prs (review at'.2) at'.1 merged o) o) := by
  induction queue generalizing o
  case nil               => exact ho
  case cons at' queue hi =>
    have ⟨ha, hq⟩ := List.forall_mem_cons.mp hq
    rw [List.foldl_cons]
    exact hi hq (reviewPr_authorized ha ho)

-- The status that the board has for the ticket that the title names.
def titleStatus (pr : PullRequest) (s : ProjectState) : Option Status :=
  (ticketIdIn pr.title).bind fun tid => (s.tickets.find? (·.id.asStr = tid)).map (·.status)

-- A merge rests on a review, on a hold that has expired, or on a ticket whose work was accepted.
inductive Authority (config : GitConfig) (merged : List (Nat × String)) (pr : PullRequest)
    (s : ProjectState) (past : List ForgeCall) : Prop
  | reviewed (h : Reviewed config pr past)
  | expired (h : Expired config merged pr past) (hd : SafeDiff pr past)
  | accepted (h : titleStatus pr s ∈ [some .verified, some .done, some .documented])
      (hd : SafeDiff pr past)

theorem Settled.status_mem (h : Settled pr s) :
    titleStatus pr s ∈ [some .verified, some .done, some .documented, some .rejected] := by
  obtain ⟨tid, ht, hs⟩ := h
  unfold titleStatus
  rw [ht, Option.bind_some]
  unfold settledStatus at hs
  cases hf : (s.tickets.find? (·.id.asStr = tid)).map (·.status) with
  | none        => simp [hf] at hs
  | some status => cases status <;> simp_all [Status.settled]

theorem MergeReason.authority (h : MergeReason config merged pr s past)
    (hr : titleStatus pr s ≠ some .rejected) : Authority config merged pr s past := by
  cases h
  case reviewed h   => exact .reviewed h
  case expired h hd => exact .expired h hd
  case settled h hd =>
    have hs := h.status_mem
    exact .accepted (by simp_all) hd

-- The merges of a pass, with what has happened before each.
theorem reviewOpenPrs_authority {pass : PassIo} {pre post : List ForgeCall} {n : Nat}
    {r : Except PortError Unit}
    (h : (reviewOpenPrs config pass { state := s }).actions = pre ++ .mergePr n r :: post) :
    config.enabled ∧ (config.autoReview ∨ config.autoMerge) ∧
      ∃ prs, pass.openPrs = .ok prs ∧ ∃ pr ∈ prs, pr.number = n ∧ pr.base = config.flowBase ∧
        pr.mergeable ∧ (titleStatus pr s ≠ some .rejected →
          Authority config (pass.recentlyMerged.toOption.getD []) pr s pre) := by
  unfold reviewOpenPrs at h
  split at h
  case isTrue     => simp at h
  case isFalse he =>
    have he : config.enabled ∧ (config.autoReview ∨ config.autoMerge) := by grind
    refine ⟨he.left, he.right, ?_⟩
    cases hp : pass.openPrs with
    | error e => simp [hp, PortRun.log, PortRun.logGit] at h
    | ok prs  =>
      rw [hp] at h
      dsimp only at h
      split at h
      case isTrue  => simp at h
      case isFalse =>
        refine ⟨prs, rfl, ?_⟩
        have ho : Authorized config prs (pass.recentlyMerged.toOption.getD []) s
            (PortRun.act { state := s } (.report "SA" "reviewing PRs")) := ⟨⟨trivial, trivial⟩, rfl⟩
        have hq : ∀ at' ∈ (prs.reverse.take (reviewBatch config)).zipIdx, at'.1 ∈ prs := by
          intro at' hmem
          have hmem := List.mem_of_mem_take (List.fst_mem_of_mem_zipIdx hmem)
          exact List.mem_reverse.mp hmem
        have hf : Authorized config prs (pass.recentlyMerged.toOption.getD []) s _ :=
          foldl_reviewPr_authorized pass.edits pass.review hq ho
        have hg := hf.merges
        rw [h] at hg
        have hj : Justified config prs (pass.recentlyMerged.toOption.getD []) s pre (.mergePr n r) :=
          Guarded.iff_split.mp hg pre _ post rfl
        obtain ⟨pr, hmem, hn, hb, hpm, hmr⟩ := hj
        exact ⟨pr, hmem, hn, hb, hpm, hmr.authority⟩

def fixPr : PullRequest where
  number    := 7
  title     := "fix(COX-B015): crash on start"
  base      := "main"
  ci        := "failing"
  mergeable := true

-- Every diff is read, and the reviewer approves.
def approves (diff : String) : ReviewIo where
  lsRemote      := some (true, "a1 refs/heads/fix")
  diffElsewhere := .ok diff
  diffSettled   := .ok diff
  diffLand      := .ok diff
  diffScratch   := .ok diff
  diff          := .ok diff
  otherDiff     := .ok diff
  verify        := { wired := false, tests := .error (.backend "none"), e2e := .error (.backend "none") }
  verdict       := some (true, "fine")

def reviewsFix (io : ReviewIo) : PassIo where
  openPrs  := .ok [fixPr]
  review _ := io

def landsFixes : GitConfig where
  enabled   := true
  autoMerge := true
  requireCi := false

def approvedCalls : List ForgeCall :=
  (reviewOpenPrs landsFixes (reviewsFix (approves "+fixed")) { state := {} }).actions

theorem reviewOpenPrs_authority_approved :
    landsFixes.enabled ∧ (landsFixes.autoReview ∨ landsFixes.autoMerge) ∧
      ∃ prs, (reviewsFix (approves "+fixed")).openPrs = .ok prs ∧
        ∃ pr ∈ prs, pr.number = 7 ∧ pr.base = landsFixes.flowBase ∧ pr.mergeable ∧
          (titleStatus pr {} ≠ some .rejected →
            Authority landsFixes [] pr {} (approvedCalls.take 6)) :=
  reviewOpenPrs_authority
    (show approvedCalls = approvedCalls.take 6 ++ .mergePr 7 (.ok ()) :: approvedCalls.drop 7 from rfl)

def ForgeCall.isVerification : ForgeCall → Bool
  | .verifyMergedResult _ _ => true
  | _                       => false

def verifiedFix : Ticket where
  id     := ⟨"COX-B015"⟩
  kind   := .bug
  title  := "Crash on start"
  status := .verified

def cautious : GitConfig where
  enabled   := true
  autoMerge := true
  requireCi := true

def verifiedCalls : List ForgeCall :=
  (reviewOpenPrs cautious (reviewsFix (approves "+fixed")) { state := { tickets := [verifiedFix] } }).actions

-- The pull request of a verified ticket is landed without waiting for CI, a review or a verification.
theorem merges_not_authorized :
    .mergePr 7 (.ok ()) ∈ verifiedCalls ∧ cautious.requireCi ∧ fixPr.ci = "failing" ∧
      ¬verifiedCalls.any (·.isVerification) ∧
      titleStatus fixPr { tickets := [verifiedFix] } = some .verified := by
  refine ⟨?_, by decide, by decide, by decide +kernel, by decide +kernel⟩
  exact List.mem_of_getElem? (i := 3) rfl
