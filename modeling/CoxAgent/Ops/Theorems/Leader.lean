import CoxAgent.Lib.Run
import CoxAgent.Ops.Leader
import CoxAgent.Ops.Rollback

section

variable {setup : OpsSetup} {io : RevertIo} {r : Reverting} {o : OpsRun} {s : ProjectState}
variable {reason summary sha : String} {failedSha : Option String} {tree : Option String}

-- Nothing is deployed when the outcome of a rollback is recorded.
@[simp]
theorem deploy_mem_postMortem {e : EditIo} {rolledForward : Bool} {failureSummary : Option String} :
    .deploy tree ∈ (postMortem e r rolledForward summary failureSummary o).actions ↔
      .deploy tree ∈ o.actions := by
  simp [postMortem]

@[simp]
theorem deploy_mem_finishRollback {ok : Bool} {failureSummary : Option String} {b : Option Record} :
    .deploy tree ∈ (finishRollback io r ok summary failureSummary b o).actions ↔
      .deploy tree ∈ o.actions := by
  unfold finishRollback
  cases ok <;> simp

@[simp]
theorem deploy_mem_recordRollbackSkipped {stale migrationBlocked : Bool} :
    .deploy tree ∈ (recordRollbackSkipped io r summary stale migrationBlocked o).actions ↔
      .deploy tree ∈ o.actions := by
  simp [recordRollbackSkipped]

-- The known-good tree is deployed if it can be checked out.
theorem deploy_mem_rollBack :
    .deploy (some sha) ∈ (rollBack setup io r o).actions ↔
      .deploy (some sha) ∈ o.actions ∨ io.worktreeAdd.isOk ∧ sha = r.goodSha := by
  unfold rollBack
  cases io.worktreeAdd
  case error e => simp [Except.isOk, Except.toBool]
  case ok      => simp [Except.isOk, Except.toBool]

-- The ports are there and answer, and there is a known-good deploy that is not the broken one, that is
-- young enough and that can be checked out.
def ReachesRollback (setup : OpsSetup) (io : RevertIo) (failedSha : Option String)
    (s : ProjectState) : Prop :=
  setup.deploy ∧ setup.git ∧ io.loads ∧ io.worktreeAdd.isOk ∧ tooOld setup io = false ∧
    ∃ good, s.lastGoodDeploy = some good ∧ failedSha ≠ some good.sha

theorem deploy_mem_revertToKnownGood :
    (∃ sha, .deploy (some sha) ∈ (revertToKnownGood setup io reason failedSha { state := s }).actions) ↔
      ReachesRollback setup io failedSha s ∧
        ¬(failedSha.isSome ∧ migrationShippedSince setup io) := by
  unfold revertToKnownGood ReachesRollback
  by_cases hp : setup.deploy ∧ setup.git ∧ io.loads
  case neg =>
    have hp : (!setup.deploy || !setup.git || !io.loads) = true := by grind
    rw [if_pos hp]
    grind
  case pos =>
    obtain ⟨hd, hg, hl⟩ := hp
    cases h : s.lastGoodDeploy with
    | none      => simp [hd, hg, hl]
    | some good =>
      by_cases hs : failedSha = some good.sha
      case pos => simp [hd, hg, hl, hs]
      by_cases ho : tooOld setup io
      case pos => simp [hd, hg, hl, hs, ho]
      by_cases hm : failedSha.isSome ∧ migrationShippedSince setup io
      case pos => simp [hd, hg, hl, hs, ho, hm]
      case neg =>
        have hm' : (failedSha.isSome && migrationShippedSince setup io) = false := by grind
        simp [hd, hg, hl, hs, ho, hm, hm', deploy_mem_rollBack]

-- The changed paths have been obtained, none of them is a migration, and the known-good deploy is young
-- enough.
structure CrossesNoMigration (setup : OpsSetup) (io : RevertIo) (failedSha : Option String) : Prop where
  known : failedSha.isSome
  paths : ∃ paths, io.changedPaths = .ok paths ∧
    ∀ p ∈ paths, ∀ pre ∈ setup.config.migrationDetectionPaths, ¬pre.isPrefixOf p
  young : ∃ age, io.age = some age ∧ age ≤ setup.config.maxRollbackAgeSecs

theorem tooOld_eq_false_iff :
    tooOld setup io = false ↔ ∃ age, io.age = some age ∧ age ≤ setup.config.maxRollbackAgeSecs := by
  unfold tooOld
  cases io.age <;> simp

-- Only paths that have been obtained can speak against a rollback.
theorem migrationShippedSince_iff :
    migrationShippedSince setup io ↔ ∃ paths, io.changedPaths = .ok paths ∧
      ∃ p ∈ paths, ∃ pre ∈ setup.config.migrationDetectionPaths, pre.isPrefixOf p := by
  unfold migrationShippedSince
  cases io.changedPaths <;> simp [Except.toOption]

-- A rollback crosses no migration as long as those that get to the check can make it.
theorem crossesNoMigration_iff :
    (∀ sha, .deploy (some sha) ∈ (revertToKnownGood setup io reason failedSha { state := s }).actions →
      CrossesNoMigration setup io failedSha) ↔
      (ReachesRollback setup io failedSha s → failedSha.isSome ∧ io.changedPaths.isOk) := by
  rw [← forall_exists_index (q := fun _ => CrossesNoMigration setup io failedSha),
    deploy_mem_revertToKnownGood, migrationShippedSince_iff]
  constructor
  case mp =>
    intro h hr
    by_contra hc
    have hn : ¬(failedSha.isSome ∧ ∃ paths, io.changedPaths = .ok paths ∧
        ∃ p ∈ paths, ∃ pre ∈ setup.config.migrationDetectionPaths, pre.isPrefixOf p) := by
      rintro ⟨hk, paths, hp, -⟩
      exact hc ⟨hk, by simp [hp, Except.isOk, Except.toBool]⟩
    obtain ⟨hk, ⟨paths, hp, -⟩, -⟩ := h ⟨hr, hn⟩
    exact hc ⟨hk, by simp [hp, Except.isOk, Except.toBool]⟩
  case mpr =>
    rintro h ⟨hr, hm⟩
    obtain ⟨hk, ho⟩ := h hr
    obtain ⟨-, -, -, -, hy, -⟩ := hr
    cases hp : io.changedPaths with
    | error e  => simp [hp, Except.isOk, Except.toBool] at ho
    | ok paths =>
      refine ⟨hk, ⟨paths, hp, ?_⟩, tooOld_eq_false_iff.mp hy⟩
      intro p hmem pre hpre hprefix
      exact hm ⟨hk, paths, hp, p, hmem, pre, hpre, hprefix⟩

-- Git may not say what has changed, and nobody may know what has failed.
theorem deployed_across_migrations :
    let good : KnownGoodDeploy := { sha := "a1", deployedAt := "", deployIndex := 1, summary := "" }
    let report : DeployReport := { success := true, deployed := true, summary := "up" }
    let unread : RevertIo := { changedPaths := .error (.backend "git"), deploy := .ok report }
    let unknown : RevertIo := { changedPaths := .ok ["migrations/1.sql"], deploy := .ok report }
    let o : OpsRun := { state := { lastGoodDeploy := some good } }
    (.deploy (some "a1") ∈ (revertToKnownGood {} unread "deploy failed" (some "b2") o).actions ∧
      ¬CrossesNoMigration {} unread (some "b2")) ∧
    (.deploy (some "a1") ∈ (revertToKnownGood {} unknown "deploy failed" none o).actions ∧
      ¬CrossesNoMigration {} unknown none) := by
  refine ⟨⟨?_, ?_⟩, ?_, ?_⟩
  case refine_1 => decide
  case refine_2 =>
    rintro ⟨-, ⟨paths, h, -⟩, -⟩
    simp at h
  case refine_3 => decide
  case refine_4 =>
    rintro ⟨h, -, -⟩
    simp at h

end

-- What is remembered of revisions stays the same.
structure Kept (s s' : ProjectState) : Prop where
  good      : s'.lastGoodDeploy = s.lastGoodDeploy
  broken    : s'.rolledBackCommits = s.rolledBackCommits
  incidents : s'.incidents = s.incidents

-- A revision becomes the known-good one.
structure Promoted (sha : String) (s s' : ProjectState) : Prop where
  good      : ∃ good, s'.lastGoodDeploy = some good ∧ good.sha = sha
  broken    : s'.rolledBackCommits = s.rolledBackCommits
  incidents : s'.incidents = s.incidents

-- A revision is written down as broken.
structure Recorded (failed : String) (s s' : ProjectState) : Prop where
  good      : s'.lastGoodDeploy = s.lastGoodDeploy
  broken    : s'.rolledBackCommits =
                if failed = "" then s.rolledBackCommits else s.rolledBackCommits.insert failed ()
  incidents : ∃ i, i.failedSha = failed ∧
                s'.incidents = (s.incidents ++ [i]).drop ((s.incidents ++ [i]).length - maxIncidents)

variable {s s' s'' : ProjectState} {sha failed : String}

theorem Kept.refl : Kept s s :=
  ⟨rfl, rfl, rfl⟩

theorem Kept.trans (h : Kept s s') (h' : Kept s' s'') : Kept s s'' :=
  ⟨h'.good.trans h.good, h'.broken.trans h.broken, h'.incidents.trans h.incidents⟩

theorem Kept.promoted (h : Kept s s') (h' : Promoted sha s' s'') : Promoted sha s s'' :=
  ⟨h'.good, h'.broken.trans h.broken, h'.incidents.trans h.incidents⟩

theorem Kept.recorded (h : Kept s s') (h' : Recorded failed s' s'') : Recorded failed s s'' where
  good      := h'.good.trans h.good
  broken    := h.broken ▸ h'.broken
  incidents := h.incidents ▸ h'.incidents

theorem Recorded.kept (h : Recorded failed s s') (h' : Kept s' s'') : Recorded failed s s'' where
  good      := h'.good.trans h.good
  broken    := h'.broken.trans h.broken
  incidents := h'.incidents ▸ h.incidents

variable {o : OpsRun} {e : EditIo} {f : ProjectState → ProjectState}

theorem kept_edit (h : Kept o.state (f o.state)) : Kept o.state (o.edit e f).state := by
  rw [PortRun.state_edit]
  split
  case isTrue  => exact .refl
  case isFalse => exact h

variable {setup : OpsSetup} {io : RevertIo} {r : Reverting}
variable {reason summary : String} {failedSha : Option String}

theorem kept_recordDeploy {loads : Bool} {e : EditIo} {status : DeployStatus} :
    Kept o.state (recordDeploy loads e status o).state := by
  unfold recordDeploy
  split
  case isTrue  => exact .refl
  case isFalse => exact kept_edit ⟨rfl, rfl, rfl⟩

-- What a post-mortem writes is written at once.
theorem postMortem_cases {e : EditIo} {rolledForward : Bool} {failureSummary : Option String} :
    (¬e.fails ∧ Recorded (r.failedSha.getD "") o.state
        (postMortem e r rolledForward summary failureSummary o).state) ∨
      e.fails ∧ Kept o.state (postMortem e r rolledForward summary failureSummary o).state := by
  unfold postMortem
  simp only [PortRun.state_act, PortRun.state_edit, ProjectState.postChatIn]
  cases e.fails
  case false =>
    rw [if_neg Bool.false_ne_true]
    refine .inl ⟨Bool.false_ne_true, rfl, rfl, ?_⟩
    exact ⟨_, rfl, rfl⟩
  case true  => exact .inr ⟨rfl, .refl⟩

variable (o io r) in
theorem finishRollback_cases (ok : Bool) {failureSummary : Option String} {b : Option Record} :
    ((ok ∧ ¬io.incident.fails) ∧ Recorded (r.failedSha.getD "") o.state
        (finishRollback io r ok summary failureSummary b o).state) ∨
      ¬(ok ∧ ¬io.incident.fails) ∧ Kept o.state
        (finishRollback io r ok summary failureSummary b o).state := by
  unfold finishRollback
  dsimp only
  generalize ho : o.edit io.record _ = o'
  have hk : Kept o.state o'.state := by
    rw [← ho]
    apply kept_edit
    split <;> exact ⟨rfl, rfl, rfl⟩
  cases ok
  case false => exact .inr ⟨by simp, hk⟩
  case true  =>
    rw [if_pos rfl]
    cases postMortem_cases (e := io.incident) (r := r) (o := o'.act _)
    case inl h => exact .inl ⟨⟨rfl, h.left⟩, hk.recorded h.right⟩
    case inr h => exact .inr ⟨by simp [h.left], hk.trans h.right⟩

-- A rollback that is skipped leaves an incident, and so does one that comes up.
def LeavesIncident (setup : OpsSetup) (io : RevertIo) (failedSha : Option String)
    (s : ProjectState) : Prop :=
  setup.deploy ∧ setup.git ∧ io.loads ∧ ¬io.incident.fails ∧
    ∃ good, s.lastGoodDeploy = some good ∧ failedSha ≠ some good.sha ∧
      (tooOld setup io ∨ failedSha.isSome ∧ migrationShippedSince setup io ∨
        io.worktreeAdd.isOk ∧ (redeploy setup io).1)

variable (io) in
theorem recordRollbackSkipped_cases {stale migrationBlocked : Bool} :
    (¬io.incident.fails ∧ Recorded (r.failedSha.getD "") o.state
        (recordRollbackSkipped io r summary stale migrationBlocked o).state) ∨
      io.incident.fails ∧ Kept o.state
        (recordRollbackSkipped io r summary stale migrationBlocked o).state := by
  unfold recordRollbackSkipped
  dsimp only
  generalize ho : o.edit io.record _ = o'
  have hk : Kept o.state o'.state := by
    rw [← ho]
    exact kept_edit ⟨rfl, rfl, rfl⟩
  cases postMortem_cases (e := io.incident) (r := r) (o := o'.act _)
  case inl h => exact .inl ⟨h.left, hk.recorded h.right⟩
  case inr h => exact .inr ⟨h.left, hk.trans h.right⟩

variable (io) in
theorem rollBack_cases :
    ((io.worktreeAdd.isOk ∧ (redeploy setup io).1 ∧ ¬io.incident.fails) ∧
        Recorded (r.failedSha.getD "") o.state (rollBack setup io r o).state) ∨
      ¬(io.worktreeAdd.isOk ∧ (redeploy setup io).1 ∧ ¬io.incident.fails) ∧
        Kept o.state (rollBack setup io r o).state := by
  unfold rollBack
  cases io.worktreeAdd with
  | error e =>
    dsimp only
    cases finishRollback_cases o io r false
    case inl h => simp at h
    case inr h => exact .inr ⟨by simp [Except.isOk, Except.toBool], h.right⟩
  | ok _    =>
    dsimp only
    cases finishRollback_cases (o.act (.deploy (some r.goodSha))) io r (redeploy setup io).1
    case inl h => exact .inl ⟨⟨rfl, h.left⟩, h.right⟩
    case inr h => exact .inr ⟨fun hc => h.left hc.right, h.right⟩

variable (o setup io reason failedSha) in
theorem revertToKnownGood_cases :
    (LeavesIncident setup io failedSha o.state ∧ Recorded (failedSha.getD "") o.state
        (revertToKnownGood setup io reason failedSha o).state) ∨
      ¬LeavesIncident setup io failedSha o.state ∧ Kept o.state
        (revertToKnownGood setup io reason failedSha o).state := by
  unfold revertToKnownGood LeavesIncident
  by_cases hp : setup.deploy ∧ setup.git ∧ io.loads
  case neg =>
    have hp' : (!setup.deploy || !setup.git || !io.loads) = true := by grind
    rw [if_pos hp']
    exact .inr ⟨fun h => hp ⟨h.left, h.right.left, h.right.right.left⟩, .refl⟩
  case pos =>
    obtain ⟨hd, hg, hl⟩ := hp
    simp only [hd, hg, hl, Bool.not_true, Bool.or_self, Bool.false_eq_true, if_false, true_and]
    cases o.state.lastGoodDeploy with
    | none      => exact .inr ⟨by simp, .refl⟩
    | some good =>
      by_cases hs : failedSha = some good.sha
      case pos => exact .inr ⟨by simp [hs], by simpa [hs] using Kept.refl⟩
      by_cases ho : tooOld setup io
      case pos =>
        simp only [hs, ho, if_true, if_false]
        refine (recordRollbackSkipped_cases io).imp (fun h => ⟨?_, h.right⟩)
          fun h => ⟨fun hc => hc.left h.left, h.right⟩
        exact ⟨h.left, good, rfl, hs, .inl trivial⟩
      by_cases hm : failedSha.isSome ∧ migrationShippedSince setup io
      case pos =>
        simp only [hs, ho, hm, Bool.and_self, if_true, if_false]
        refine (recordRollbackSkipped_cases io).imp (fun h => ⟨?_, h.right⟩)
          fun h => ⟨fun hc => hc.left h.left, h.right⟩
        exact ⟨h.left, good, rfl, hs, .inr (.inl ⟨trivial, trivial⟩)⟩
      case neg =>
        have hm' : (failedSha.isSome && migrationShippedSince setup io) = false := by grind
        simp only [hs, ho, hm', if_false]
        refine (rollBack_cases io).imp (fun h => ⟨?_, h.right⟩) fun h => ⟨?_, h.right⟩
        case refine_1 => exact ⟨h.left.right.right, good, rfl, hs, .inr (.inr ⟨h.left.1, h.left.2.1⟩)⟩
        case refine_2 =>
          rintro ⟨hf, _, -, -, hc | hc | hc⟩
          case inl => contradiction
          case inr.inl => exact hm hc
          case inr.inr => exact h.left ⟨hc.left, hc.right, hf⟩

section Cycle

variable (setup : OpsSetup)

-- The deploy of the cycle came up healthy.
def cameUp (io : DeployIo) : Bool :=
  match io.deploy with
  | .ok r    => r.deployed && (r.success && (runHealthCheck setup io.health).1)
  | .error _ => false

-- It failed.
def deployBad (io : DeployIo) : Bool :=
  match io.deploy with
  | .ok r    => r.deployed && !(r.success && (runHealthCheck setup io.health).1)
  | .error _ => true

-- The test suite is red.
def testsBad (io : DeployIo) : Bool :=
  match io.tests with
  | .ok r    => r.deployed && !r.success
  | .error _ => false

-- The event makes its revision the known-good one.
def Promotes (s : ProjectState) : LeaderEvent → Prop
  | .deploy io => deployDue setup io s ∧ cameUp setup io ∧ ¬testsBad io ∧
      (attemptSha setup io).isSome ∧ ¬io.knownGood.fails
  | _          => False

-- The revision that the event is about.
def revision (s : ProjectState) : LeaderEvent → Option String
  | .monitor _ => s.deploy >>= (·.commitSha)
  | .deploy io => attemptSha setup io
  | .others _  => none

-- The app has not answered often enough for a rollback.
def liveHealthFailed (io : MonitorIo) (s : ProjectState) : Prop :=
  setup.config.hostPort.isSome ∧ setup.opsMonitor ∧ setup.deploy ∧ io.loads ∧ ¬s.history.isEmpty ∧
    ¬io.health.toOption.getD true ∧
    min (s.opsDownStreak + 1) u32Max = max setup.config.liveHealthFailChecks 1

-- The event writes its revision down as broken.
def Breaks (s : ProjectState) : LeaderEvent → Prop
  | .monitor io => liveHealthFailed setup io s ∧ setup.config.liveHealthAutoRollback ∧
      LeavesIncident setup io.revert (revision setup s (.monitor io)) s
  | .deploy io  => deployDue setup io s ∧ (deployBad setup io ∨ testsBad io) ∧
      setup.config.autoRollback ∧ LeavesIncident setup io.revert (attemptSha setup io) s
  | .others _   => False

instance (io : RevertIo) (failedSha : Option String) (s : ProjectState) :
    Decidable (LeavesIncident setup io failedSha s) :=
  inferInstanceAs (Decidable (_ ∧ _ ∧ _ ∧ _ ∧ ∃ good ∈ s.lastGoodDeploy, failedSha ≠ some good.sha ∧
    (tooOld setup io ∨ failedSha.isSome ∧ migrationShippedSince setup io ∨
      io.worktreeAdd.isOk ∧ (redeploy setup io).1)))

instance (s : ProjectState) : (e : LeaderEvent) → Decidable (Breaks setup s e)
  | .monitor _ => inferInstanceAs (Decidable ((_ ∧ _ ∧ _ ∧ _ ∧ _ ∧ _ ∧ _) ∧ _ ∧ _))
  | .deploy _  => inferInstanceAs (Decidable (_ ∧ (_ ∨ _) ∧ _ ∧ _))
  | .others _  => instDecidableFalse

end Cycle

variable {dio : DeployIo}

theorem kept_deployStep : Kept o.state (deployStep setup dio o).1.state := by
  unfold deployStep deployFailed
  dsimp only
  cases dio.deploy with
  | error e => exact kept_recordDeploy (o := o.act _)
  | ok r    =>
    dsimp only
    split
    case isFalse => exact .refl
    case isTrue  =>
      -- With the health check and without it, for a deploy that came up and for one that did not.
      split
      all_goals
        split
        case isTrue  => exact kept_recordDeploy (o := o.act _)
        case isFalse => exact kept_recordDeploy (o := o.act _)

theorem deployStep_snd : (deployStep setup dio o).2 = (deployBad setup dio, cameUp setup dio) := by
  unfold deployStep deployBad cameUp
  dsimp only
  cases dio.deploy with
  | error e => rfl
  | ok r    =>
    cases hd : r.deployed
    case false => simp [hd]
    case true  =>
      cases hr : r.success
      case false => simp [hd, hr]
      case true  => cases hh : (runHealthCheck setup dio.health).1 <;> simp [hd, hr, hh]

theorem state_testStep : (testStep dio o).1.state = o.state := by
  unfold testStep
  cases dio.tests with
  | error e => rfl
  | ok r    =>
    dsimp only
    split <;> rfl

theorem testStep_snd : (testStep dio o).2 = testsBad dio := by
  unfold testStep testsBad
  cases dio.tests with
  | error e => rfl
  | ok r    =>
    dsimp only
    split
    case isTrue h  => exact h.symm
    case isFalse h => exact (Bool.eq_false_iff.mpr h).symm

variable (o setup io reason failedSha) in
theorem attemptRollback_cases :
    ((setup.config.autoRollback ∧ LeavesIncident setup io failedSha o.state) ∧
        Recorded (failedSha.getD "") o.state (attemptRollback setup io reason failedSha o).state) ∨
      ¬(setup.config.autoRollback ∧ LeavesIncident setup io failedSha o.state) ∧
        Kept o.state (attemptRollback setup io reason failedSha o).state := by
  unfold attemptRollback
  cases setup.config.autoRollback
  case false => exact .inr ⟨by simp, .refl⟩
  case true  =>
    cases revertToKnownGood_cases o setup io reason failedSha
    case inl h => exact .inl ⟨⟨rfl, h.left⟩, h.right⟩
    case inr h => exact .inr ⟨fun hc => h.left hc.right, h.right⟩

variable (o setup io failedSha) in
theorem attemptLiveHealthRollback_cases :
    ((setup.config.liveHealthAutoRollback ∧ LeavesIncident setup io failedSha o.state) ∧
        Recorded (failedSha.getD "") o.state (attemptLiveHealthRollback setup io failedSha o).state) ∨
      ¬(setup.config.liveHealthAutoRollback ∧ LeavesIncident setup io failedSha o.state) ∧
        Kept o.state (attemptLiveHealthRollback setup io failedSha o).state := by
  unfold attemptLiveHealthRollback
  cases setup.config.liveHealthAutoRollback
  case false => exact .inr ⟨by simp, .refl⟩
  case true  =>
    cases revertToKnownGood_cases o setup io "live health failed" failedSha
    case inl h => exact .inl ⟨⟨rfl, h.left⟩, h.right⟩
    case inr h => exact .inr ⟨fun hc => h.left hc.right, h.right⟩

variable (o setup failedSha summary) in
theorem recordKnownGood_cases (e : EditIo) :
    (∃ sha, failedSha = some sha ∧ ¬e.fails ∧
        Promoted sha o.state (recordKnownGood setup e failedSha summary o).state) ∨
      (failedSha = none ∨ e.fails) ∧
        Kept o.state (recordKnownGood setup e failedSha summary o).state := by
  unfold recordKnownGood
  cases failedSha with
  | none     => exact .inr ⟨.inl rfl, .refl⟩
  | some sha =>
    dsimp only
    generalize ho : (if setup.git then o.act (.updateRef sha) else o) = o'
    have hs : o'.state = o.state := by
      rw [← ho]
      split <;> rfl
    rw [PortRun.state_edit, hs]
    cases e.fails
    case false => exact .inl ⟨sha, rfl, nofun, ⟨_, rfl, rfl⟩, rfl, rfl⟩
    case true  => exact .inr ⟨.inr rfl, .refl⟩

-- What a rollback leaves depends on the known-good deploy only.
theorem LeavesIncident.congr (h : Kept s s') :
    LeavesIncident setup io failedSha s ↔ LeavesIncident setup io failedSha s' := by
  unfold LeavesIncident
  rw [h.good]

theorem not_deployBad_of_cameUp (h : cameUp setup dio) : ¬deployBad setup dio := by
  unfold cameUp at h
  unfold deployBad
  cases hd : dio.deploy with
  | error e => simp [hd] at h
  | ok r    => simp_all

-- What an event does to what is remembered of revisions.
inductive Effect (setup : OpsSetup) (s : ProjectState) (e : LeaderEvent) (s' : ProjectState) : Prop
  | promotes (sha : String) (h : Promotes setup s e) (hr : revision setup s e = some sha)
      (hp : Promoted sha s s')
  | breaks (h : Breaks setup s e) (hr : Recorded ((revision setup s e).getD "") s s')
  | keeps (hp : ¬Promotes setup s e) (hb : ¬Breaks setup s e) (hk : Kept s s')

theorem deployTail_effect :
    Effect setup o.state (.deploy dio) (deployTail setup dio o).state := by
  unfold deployTail
  cases hd : deployDue setup dio o.state
  case false => exact .keeps (by simp [Promotes, hd]) (by simp [Breaks, hd]) .refl
  case true  =>
    -- The state that the end of the cycle starts from remembers the same.
    simp only [Bool.not_true, Bool.false_eq_true, if_false, deployStep_snd, testStep_snd]
    generalize ho : (testStep dio (deployStep setup dio o).1).1 = o'
    have hk : Kept o.state o'.state := by
      rw [← ho, state_testStep]
      exact kept_deployStep
    by_cases hb : deployBad setup dio ∨ testsBad dio
    case pos =>
      have hb' : (deployBad setup dio || testsBad dio) = true := by grind
      have hp : ¬Promotes setup o.state (.deploy dio) := by
        rintro ⟨-, hc, ht, -⟩
        exact hb.elim (not_deployBad_of_cameUp hc) ht
      rw [if_pos hb']
      cases attemptRollback_cases o' setup dio.revert _ (attemptSha setup dio)
      case inl h =>
        have hl := (LeavesIncident.congr hk).mpr h.left.right
        exact .breaks ⟨hd, hb, h.left.left, hl⟩ (hk.recorded h.right)
      case inr h =>
        refine .keeps hp (fun hc => h.left ⟨hc.2.2.1, ?_⟩) (hk.trans h.right)
        exact (LeavesIncident.congr hk).mp hc.2.2.2
    case neg =>
      have hb' : (deployBad setup dio || testsBad dio) = false := by grind
      have hn : ¬Breaks setup o.state (.deploy dio) := fun hc => hb hc.2.1
      rw [hb', if_neg Bool.false_ne_true]
      cases hc : cameUp setup dio
      case false => exact .keeps (by simp [Promotes, hc]) hn hk
      case true  =>
        rw [if_pos rfl]
        cases recordKnownGood_cases o' setup _ (attemptSha setup dio) dio.knownGood
        case inl h =>
          obtain ⟨sha, hs, hf, hp⟩ := h
          have ht : ¬testsBad dio := fun ht => hb (.inr ht)
          exact .promotes sha ⟨hd, hc, ht, by simp [hs], hf⟩ hs (hk.promoted hp)
        case inr h =>
          refine .keeps ?_ hn (hk.trans h.right)
          rintro ⟨-, -, -, hs, hf⟩
          cases h.left
          case inl hs' => simp [hs'] at hs
          case inr hf' => exact hf hf'

theorem opsMonitor_effect {mio : MonitorIo} :
    Effect setup o.state (.monitor mio) (opsMonitor setup mio o).state := by
  have hp : ¬Promotes setup o.state (.monitor mio) := id
  unfold opsMonitor
  cases hh : setup.config.hostPort with
  | none      => exact .keeps hp (by simp [Breaks, liveHealthFailed, hh]) .refl
  | some port =>
    dsimp only
    by_cases hg : setup.opsMonitor ∧ setup.deploy ∧ mio.loads ∧ ¬o.state.history.isEmpty
    case neg =>
      have hg' : (!setup.opsMonitor || !setup.deploy || !mio.loads || o.state.history.isEmpty) = true := by
        grind
      rw [if_pos hg']
      refine .keeps hp ?_ .refl
      rintro ⟨⟨-, hm, hd, hl, hi, -⟩, -⟩
      exact hg ⟨hm, hd, hl, hi⟩
    case pos =>
      obtain ⟨hm, hd, hl, hi⟩ := hg
      simp only [hm, hd, hl, hi, Bool.not_true, Bool.or_self, Bool.false_eq_true, if_false]
      cases hu : mio.health.toOption.getD true
      case true =>
        refine .keeps hp (fun hc => hc.left.2.2.2.2.2.1 hu) ?_
        rw [if_neg (by simp)]
        split
        case isTrue  =>
          rw [PortRun.state_act]
          exact kept_edit ⟨rfl, rfl, rfl⟩
        case isFalse => exact .refl
      case false =>
        rw [if_pos (by simp)]
        generalize ho : (if o.state.opsDown then _ else _ : OpsRun) = o'
        have hk : Kept o.state o'.state := by
          rw [← ho]
          split
          case isTrue  => exact kept_edit ⟨rfl, rfl, rfl⟩
          case isFalse =>
            simp only [PortRun.state_act]
            exact kept_edit ⟨rfl, rfl, rfl⟩
        split
        case isFalse hs => exact .keeps hp (fun hc => hs hc.left.2.2.2.2.2.2) hk
        case isTrue hs  =>
          have hf : liveHealthFailed setup mio o.state :=
            ⟨by simp [hh], hm, hd, hl, by simp [hi], by simp [hu], hs⟩
          cases attemptLiveHealthRollback_cases o' setup mio.revert (o.state.deploy >>= (·.commitSha))
          case inl h =>
            have hl := (LeavesIncident.congr hk).mpr h.left.right
            exact .breaks ⟨hf, h.left.left, hl⟩ (hk.recorded h.right)
          case inr h =>
            refine .keeps hp (fun hc => h.left ⟨hc.2.1, ?_⟩) (hk.trans h.right)
            exact (LeavesIncident.congr hk).mp hc.2.2

variable (setup s) in
theorem leaderStep_effect (e : LeaderEvent) : Effect setup s e (leaderStep setup s e) := by
  cases e
  case monitor io => exact opsMonitor_effect (o := { state := s })
  case deploy io  => exact deployTail_effect (o := { state := s })
  case others s'  => exact .keeps id id ⟨rfl, rfl, rfl⟩
