import CoxAgent.State.Basic

-- The bounded contexts that the fields of the aggregate are divided among.
inductive ShardKind
  | work
  | social
  | docs
  | governance
  | ops
deriving DecidableEq, Repr

-- The defaults are those of a fresh aggregate, so that a missing work shard never reads as
-- version 0 of the schema.
structure WorkShard where
  schemaVersion        : Nat                                   := schemaVersionSupported
  «alias»              : String                                := ""
  displayName          : Option String                         := none
  currentVersion       : SemVer                                := {}
  tickets              : List Ticket                           := []
  activity             : List ActivityEntry                    := []
  sprint               : Option Sprint                         := none
  sprints              : List SprintRecord                     := []
  sprintQueue          : List PlannedSprint                    := []
  holdReasons          : BTreeMap String String                := ∅
  roleHealth           : BTreeMap String Record                := ∅
  reviews              : List Record                           := []
  openPrs              : List PrOpen                           := []
  ticketAttachments    : BTreeMap String (List Record)         := ∅
  milestones           : List Milestone                        := []
  cycleScores          : List Record                           := []
  sprintCycle          : Nat                                   := 0
  cycle                : Nat                                   := 0
  sprintGoal           : String                                := ""
  lastDigestDay        : String                                := ""
  prFixAttempts        : BTreeMap Nat Nat                      := ∅
  prReviewSkips        : BTreeMap Nat Nat                      := ∅
  prOpenHolds          : BTreeMap Nat PrOpenHold               := ∅
  prSessions           : BTreeMap Nat String                   := ∅
  ticketSessions       : BTreeMap String String                := ∅
  costHolds            : BTreeMap String Usd                   := ∅
  clippyBaseline       : Option Nat                            := none
  debtSignals          : List Record                           := []
  sweepsDone           : List Nat                              := []
  seenMergedPrs        : BTreeSet Nat                          := ∅
  ticketLastMerge      : BTreeMap String String                := ∅
  seenClosedPrs        : BTreeSet Nat                          := ∅
  sweptTickets         : BTreeSet String                       := ∅
  costApproved         : BTreeSet String                       := ∅
  tuning               : Tuning                                := {}
  tuningOverrides      : BTreeMap String Record                := ∅
  tuningHistory        : List Record                           := []
  ticketEvidence       : BTreeMap String (List Record)         := ∅
  ticketStepProvenance : BTreeMap String (List Record)         := ∅
  reproUrls            : BTreeMap String String                := ∅
  queueRecovery        : Bool                                  := false
  lastMemoryHygieneDay : String                                := ""
  lastImpedimentDay    : String                                := ""
  prRescues            : BTreeMap Nat Nat                      := ∅
  ticketRedesigns      : BTreeMap String Nat                   := ∅
  drainNoticeSprint    : Nat                                   := 0
  ticketFailAttempts   : BTreeMap String Nat                   := ∅
  prRescueAttempts     : BTreeMap String Nat                   := ∅
  ticketJournal        : BTreeMap String (List String)         := ∅
  ticketFailures       : BTreeMap String (List AttemptFailure) := ∅
  dailyJobs            : BTreeMap String String                := ∅
  bugSnapshots         : BTreeMap String Record                := ∅
  spend                : Spend                                 := {}
  spendTodayUsd        : Usd                                   := 0
  spendDay             : String                                := ""
  spendHistory         : List Record                           := []
  budgetWarnedLifetime : Bool                                  := false
  budgetWarnedDaily    : Bool                                  := false

structure SocialShard where
  comments  : List Comment       := []
  chat      : List ChatMsg       := []
  channels  : List Channel       := []
  questions : List AgentQuestion := []

structure DocsShard where
  designSystem : Option Record                  := none
  docs         : List DocPage                   := []
  docFolders   : List String                    := []
  docRefresh   : BTreeMap String DocRefreshMark := ∅

structure GovernanceShard where
  goals                   : List Goal                     := []
  outcomeLedger           : List Record                   := []
  humanHolds              : BTreeMap Nat String           := ∅
  lessons                 : List String                   := []
  lessonRecords           : List LessonRecord             := []
  dismissedMatches        : List Record                   := []
  lessonSweepDay          : String                        := ""
  decisions               : List String                   := []
  refactorMode            : Bool                          := false
  approvalSamples         : List ApprovalSample           := []
  autoApprovedAt          : BTreeMap String String        := ∅
  askAgainShapes          : List String                   := []
  governanceInterventions : List Record                   := []
  driftAlerts             : List Record                   := []
  memberServices          : BTreeMap String (List String) := ∅

structure OpsShard where
  history           : List DeployRecord      := []
  revertedWork      : List RevertEvent       := []
  deploy            : Option DeployStatus    := none
  jobs              : List Record            := []
  engineIncidents   : List EngineIncident    := []
  opsDown           : Bool                   := false
  workspaceRun      : WorkspaceRun           := {}
  opsDownStreak     : Nat                    := 0
  deployIndex       : Nat                    := 0
  inRollback        : Bool                   := false
  lastGoodDeploy    : Option KnownGoodDeploy := none
  lastRollback      : Option RollbackStatus  := none
  incidents         : List IncidentRecord    := []
  rolledBackCommits : BTreeSet String        := ∅
  liveness          : Option Record          := none

@[ext]
structure ShardedState where
  work       : WorkShard       := {}
  social     : SocialShard     := {}
  docs       : DocsShard       := {}
  governance : GovernanceShard := {}
  ops        : OpsShard        := {}

inductive ShardData
  | work (data : WorkShard)
  | social (data : SocialShard)
  | docs (data : DocsShard)
  | governance (data : GovernanceShard)
  | ops (data : OpsShard)

def ShardData.kind : ShardData → ShardKind
  | work _       => .work
  | social _     => .social
  | docs _       => .docs
  | governance _ => .governance
  | ops _        => .ops

-- A payload with its label. The label is a field of its own, so only the constructor `new` makes the
-- two agree.
structure StateShard where
  kind : ShardKind
  data : ShardData

def StateShard.new (data : ShardData) : StateShard where
  kind := data.kind
  data := data

def ShardedState.take (shards : ShardedState) : ShardKind → StateShard
  | .work       => .new (.work shards.work)
  | .social     => .new (.social shards.social)
  | .docs       => .new (.docs shards.docs)
  | .governance => .new (.governance shards.governance)
  | .ops        => .new (.ops shards.ops)

namespace ProjectState

def intoShards (s : ProjectState) : ShardedState where
  work := {
    schemaVersion        := s.schemaVersion
    «alias»              := s.«alias»
    displayName          := s.displayName
    currentVersion       := s.currentVersion
    tickets              := s.tickets
    activity             := s.activity
    sprint               := s.sprint
    sprints              := s.sprints
    sprintQueue          := s.sprintQueue
    holdReasons          := s.holdReasons
    roleHealth           := s.roleHealth
    reviews              := s.reviews
    openPrs              := s.openPrs
    ticketAttachments    := s.ticketAttachments
    milestones           := s.milestones
    cycleScores          := s.cycleScores
    sprintCycle          := s.sprintCycle
    cycle                := s.cycle
    sprintGoal           := s.sprintGoal
    lastDigestDay        := s.lastDigestDay
    prFixAttempts        := s.prFixAttempts
    prReviewSkips        := s.prReviewSkips
    prOpenHolds          := s.prOpenHolds
    prSessions           := s.prSessions
    ticketSessions       := s.ticketSessions
    costHolds            := s.costHolds
    clippyBaseline       := s.clippyBaseline
    debtSignals          := s.debtSignals
    sweepsDone           := s.sweepsDone
    seenMergedPrs        := s.seenMergedPrs
    ticketLastMerge      := s.ticketLastMerge
    seenClosedPrs        := s.seenClosedPrs
    sweptTickets         := s.sweptTickets
    costApproved         := s.costApproved
    tuning               := s.tuning
    tuningOverrides      := s.tuningOverrides
    tuningHistory        := s.tuningHistory
    ticketEvidence       := s.ticketEvidence
    ticketStepProvenance := s.ticketStepProvenance
    reproUrls            := s.reproUrls
    queueRecovery        := s.queueRecovery
    lastMemoryHygieneDay := s.lastMemoryHygieneDay
    lastImpedimentDay    := s.lastImpedimentDay
    prRescues            := s.prRescues
    ticketRedesigns      := s.ticketRedesigns
    drainNoticeSprint    := s.drainNoticeSprint
    ticketFailAttempts   := s.ticketFailAttempts
    prRescueAttempts     := s.prRescueAttempts
    ticketJournal        := s.ticketJournal
    ticketFailures       := s.ticketFailures
    dailyJobs            := s.dailyJobs
    bugSnapshots         := s.bugSnapshots
    spend                := s.spend
    spendTodayUsd        := s.spendTodayUsd
    spendDay             := s.spendDay
    spendHistory         := s.spendHistory
    budgetWarnedLifetime := s.budgetWarnedLifetime
    budgetWarnedDaily    := s.budgetWarnedDaily
  }
  social := {
    comments  := s.comments
    chat      := s.chat
    channels  := s.channels
    questions := s.questions
  }
  docs := {
    designSystem := s.designSystem
    docs         := s.docs
    docFolders   := s.docFolders
    docRefresh   := s.docRefresh
  }
  governance := {
    goals                   := s.goals
    outcomeLedger           := s.outcomeLedger
    humanHolds              := s.humanHolds
    lessons                 := s.lessons
    lessonRecords           := s.lessonRecords
    dismissedMatches        := s.dismissedMatches
    lessonSweepDay          := s.lessonSweepDay
    decisions               := s.decisions
    refactorMode            := s.refactorMode
    approvalSamples         := s.approvalSamples
    autoApprovedAt          := s.autoApprovedAt
    askAgainShapes          := s.askAgainShapes
    governanceInterventions := s.governanceInterventions
    driftAlerts             := s.driftAlerts
    memberServices          := s.memberServices
  }
  ops := {
    history           := s.history
    revertedWork      := s.revertedWork
    deploy            := s.deploy
    jobs              := s.jobs
    engineIncidents   := s.engineIncidents
    opsDown           := s.opsDown
    workspaceRun      := s.workspaceRun
    opsDownStreak     := s.opsDownStreak
    deployIndex       := s.deployIndex
    inRollback        := s.inRollback
    lastGoodDeploy    := s.lastGoodDeploy
    lastRollback      := s.lastRollback
    incidents         := s.incidents
    rolledBackCommits := s.rolledBackCommits
    liveness          := s.liveness
  }

def fromShards (shards : ShardedState) : ProjectState where
  schemaVersion           := shards.work.schemaVersion
  «alias»                 := shards.work.«alias»
  displayName             := shards.work.displayName
  currentVersion          := shards.work.currentVersion
  tickets                 := shards.work.tickets
  history                 := shards.ops.history
  revertedWork            := shards.ops.revertedWork
  activity                := shards.work.activity
  spend                   := shards.work.spend
  sprint                  := shards.work.sprint
  sprints                 := shards.work.sprints
  sprintQueue             := shards.work.sprintQueue
  holdReasons             := shards.work.holdReasons
  roleHealth              := shards.work.roleHealth
  deploy                  := shards.ops.deploy
  comments                := shards.social.comments
  reviews                 := shards.work.reviews
  openPrs                 := shards.work.openPrs
  humanHolds              := shards.governance.humanHolds
  ticketAttachments       := shards.work.ticketAttachments
  chat                    := shards.social.chat
  channels                := shards.social.channels
  designSystem            := shards.docs.designSystem
  milestones              := shards.work.milestones
  goals                   := shards.governance.goals
  outcomeLedger           := shards.governance.outcomeLedger
  docs                    := shards.docs.docs
  docFolders              := shards.docs.docFolders
  docRefresh              := shards.docs.docRefresh
  cycleScores             := shards.work.cycleScores
  lessons                 := shards.governance.lessons
  lessonRecords           := shards.governance.lessonRecords
  dismissedMatches        := shards.governance.dismissedMatches
  lessonSweepDay          := shards.governance.lessonSweepDay
  decisions               := shards.governance.decisions
  refactorMode            := shards.governance.refactorMode
  sprintCycle             := shards.work.sprintCycle
  cycle                   := shards.work.cycle
  sprintGoal              := shards.work.sprintGoal
  lastDigestDay           := shards.work.lastDigestDay
  prFixAttempts           := shards.work.prFixAttempts
  prReviewSkips           := shards.work.prReviewSkips
  prOpenHolds             := shards.work.prOpenHolds
  prSessions              := shards.work.prSessions
  ticketSessions          := shards.work.ticketSessions
  costHolds               := shards.work.costHolds
  clippyBaseline          := shards.work.clippyBaseline
  debtSignals             := shards.work.debtSignals
  sweepsDone              := shards.work.sweepsDone
  seenMergedPrs           := shards.work.seenMergedPrs
  ticketLastMerge         := shards.work.ticketLastMerge
  seenClosedPrs           := shards.work.seenClosedPrs
  sweptTickets            := shards.work.sweptTickets
  costApproved            := shards.work.costApproved
  tuning                  := shards.work.tuning
  tuningOverrides         := shards.work.tuningOverrides
  tuningHistory           := shards.work.tuningHistory
  ticketEvidence          := shards.work.ticketEvidence
  ticketStepProvenance    := shards.work.ticketStepProvenance
  reproUrls               := shards.work.reproUrls
  queueRecovery           := shards.work.queueRecovery
  lastMemoryHygieneDay    := shards.work.lastMemoryHygieneDay
  jobs                    := shards.ops.jobs
  lastImpedimentDay       := shards.work.lastImpedimentDay
  prRescues               := shards.work.prRescues
  ticketRedesigns         := shards.work.ticketRedesigns
  drainNoticeSprint       := shards.work.drainNoticeSprint
  ticketFailAttempts      := shards.work.ticketFailAttempts
  prRescueAttempts        := shards.work.prRescueAttempts
  approvalSamples         := shards.governance.approvalSamples
  autoApprovedAt          := shards.governance.autoApprovedAt
  askAgainShapes          := shards.governance.askAgainShapes
  ticketJournal           := shards.work.ticketJournal
  ticketFailures          := shards.work.ticketFailures
  questions               := shards.social.questions
  engineIncidents         := shards.ops.engineIncidents
  dailyJobs               := shards.work.dailyJobs
  memberServices          := shards.governance.memberServices
  opsDown                 := shards.ops.opsDown
  workspaceRun            := shards.ops.workspaceRun
  opsDownStreak           := shards.ops.opsDownStreak
  spendTodayUsd           := shards.work.spendTodayUsd
  spendDay                := shards.work.spendDay
  spendHistory            := shards.work.spendHistory
  budgetWarnedLifetime    := shards.work.budgetWarnedLifetime
  budgetWarnedDaily       := shards.work.budgetWarnedDaily
  deployIndex             := shards.ops.deployIndex
  inRollback              := shards.ops.inRollback
  lastGoodDeploy          := shards.ops.lastGoodDeploy
  lastRollback            := shards.ops.lastRollback
  incidents               := shards.ops.incidents
  rolledBackCommits       := shards.ops.rolledBackCommits
  bugSnapshots            := shards.work.bugSnapshots
  governanceInterventions := shards.governance.governanceInterventions
  driftAlerts             := shards.governance.driftAlerts
  liveness                := shards.ops.liveness

-- The fields of one context.
def shard (s : ProjectState) (kind : ShardKind) : StateShard :=
  s.intoShards.take kind

-- The payload decides which context is replaced. That the label agrees with it is only a debug
-- assertion.
def withShard (s : ProjectState) (shard : StateShard) : ProjectState :=
  let all := s.intoShards
  fromShards <|
    match shard.data with
    | .work data       => { all with work := data }
    | .social data     => { all with social := data }
    | .docs data       => { all with docs := data }
    | .governance data => { all with governance := data }
    | .ops data        => { all with ops := data }

@[simp]
theorem fromShards_intoShards (s : ProjectState) : fromShards s.intoShards = s :=
  rfl

@[simp]
theorem intoShards_fromShards (shards : ShardedState) : (fromShards shards).intoShards = shards :=
  rfl

@[simp]
theorem shard_data_kind (s : ProjectState) (kind : ShardKind) : (s.shard kind).data.kind = kind := by
  cases kind <;> rfl

-- Merging a context's own payload changes nothing.
theorem withShard_shard (s : ProjectState) (kind : ShardKind) : s.withShard (s.shard kind) = s := by
  cases kind <;> rfl

-- What is merged is what is read back.
theorem shard_withShard {s : ProjectState} {shard : StateShard} (h : shard.data.kind = kind) :
    ((s.withShard shard).shard kind).data = shard.data := by
  rcases shard with ⟨_, data⟩
  cases data <;> subst h <;> rfl

-- A merge is invisible to the other contexts.
theorem shard_withShard_ne {s : ProjectState} {shard : StateShard} (h : shard.data.kind ≠ kind) :
    (s.withShard shard).shard kind = s.shard kind := by
  rcases shard with ⟨_, data⟩
  cases data <;> cases kind <;> first | rfl | exact absurd rfl h

theorem shard_eq_of_data {s₁ s₂ : ProjectState} (h : (s₁.shard kind).data = (s₂.shard kind).data) :
    s₁.shard kind = s₂.shard kind := by
  cases kind <;> exact congrArg StateShard.new h

-- The contexts cover the aggregate.
theorem ext_shard {s₁ s₂ : ProjectState} (h : ∀ kind, s₁.shard kind = s₂.shard kind) : s₁ = s₂ := by
  suffices s₁.intoShards = s₂.intoShards by
    rw [← fromShards_intoShards s₁, this, fromShards_intoShards]
  have hw := h .work
  have hs := h .social
  have hd := h .docs
  have hg := h .governance
  have ho := h .ops
  simp only [shard, ShardedState.take, StateShard.new, StateShard.mk.injEq, ShardData.work.injEq,
    ShardData.social.injEq, ShardData.docs.injEq, ShardData.governance.injEq,
    ShardData.ops.injEq] at hw hs hd hg ho
  exact ShardedState.ext hw.right hs.right hd.right hg.right ho.right

end ProjectState

-- A payload of one context under the label of that context, as `StateShard.new` builds it.
structure StateShard.OfKind (shard : StateShard) (kind : ShardKind) : Prop where
  label : shard.kind = kind
  data  : shard.data.kind = kind

namespace ProjectState

variable {s : ProjectState} {shard₁ shard₂ : StateShard}

theorem shard_ofKind (s : ProjectState) (kind : ShardKind) : (s.shard kind).OfKind kind := by
  cases kind <;> exact ⟨rfl, rfl⟩

theorem shard_withShard_self (h : shard₁.OfKind kind) : (s.withShard shard₁).shard kind = shard₁ := by
  rcases shard₁ with ⟨label, data⟩
  have hl : label = kind := h.label
  have hd : data.kind = kind := h.data
  subst hl
  cases data <;> cases hd <;> rfl

-- Only the payload of a merge counts.
theorem withShard_withShard (h₁ : shard₁.OfKind kind) (h₂ : shard₂.OfKind kind) :
    (s.withShard shard₁).withShard shard₂ = s.withShard shard₂ := by
  refine ext_shard fun kind' => ?_
  by_cases hk : kind = kind'
  case pos =>
    subst hk
    rw [shard_withShard_self h₂, shard_withShard_self h₂]
  case neg =>
    have hk₁ : shard₁.data.kind ≠ kind' := h₁.data ▸ hk
    have hk₂ : shard₂.data.kind ≠ kind' := h₂.data ▸ hk
    rw [shard_withShard_ne hk₂, shard_withShard_ne hk₁, shard_withShard_ne hk₂]

theorem withShard_comm (h₁ : shard₁.OfKind kind₁) (h₂ : shard₂.OfKind kind₂) (hne : kind₁ ≠ kind₂) :
    (s.withShard shard₁).withShard shard₂ = (s.withShard shard₂).withShard shard₁ := by
  refine ext_shard fun kind => ?_
  by_cases hk₁ : kind = kind₁
  case pos =>
    subst hk₁
    have hk₂ : shard₂.data.kind ≠ kind := h₂.data ▸ hne.symm
    rw [shard_withShard_ne hk₂, shard_withShard_self h₁, shard_withShard_self h₁]
  case neg =>
    have hk₁ : shard₁.data.kind ≠ kind := h₁.data ▸ Ne.symm hk₁
    rw [shard_withShard_ne (s := s.withShard shard₂) hk₁]
    by_cases hk₂ : kind = kind₂
    case pos =>
      subst hk₂
      rw [shard_withShard_self h₂, shard_withShard_self h₂]
    case neg =>
      have hk₂ : shard₂.data.kind ≠ kind := h₂.data ▸ Ne.symm hk₂
      rw [shard_withShard_ne hk₂, shard_withShard_ne hk₁, shard_withShard_ne hk₂]

-- The division into contexts is a bijection, and each context is a field of the aggregate: what is
-- merged is read back, the last merge of a context counts, and merges of different contexts do not
-- see each other.
theorem shard_laws :
    (∀ s, fromShards (intoShards s) = s) ∧ (∀ shards, intoShards (fromShards shards) = shards) ∧
    ∀ (s : ProjectState) kind,
      (s.shard kind).OfKind kind ∧ s.withShard (s.shard kind) = s ∧
      ∀ shard₁ : StateShard, shard₁.OfKind kind →
        (s.withShard shard₁).shard kind = shard₁ ∧
        (∀ shard₂ : StateShard, shard₂.OfKind kind →
          (s.withShard shard₁).withShard shard₂ = s.withShard shard₂) ∧
        (∀ kind', kind' ≠ kind → (s.withShard shard₁).shard kind' = s.shard kind') ∧
        ∀ kind' (shard₂ : StateShard), kind' ≠ kind → shard₂.OfKind kind' →
          (s.withShard shard₁).withShard shard₂ = (s.withShard shard₂).withShard shard₁ := by
  refine ⟨fromShards_intoShards, intoShards_fromShards, fun s kind => ?_⟩
  refine ⟨shard_ofKind s kind, withShard_shard s kind, fun shard₁ h₁ => ?_⟩
  refine ⟨shard_withShard_self h₁, fun shard₂ h₂ => withShard_withShard h₁ h₂, ?_, ?_⟩
  · intro kind' hne
    exact shard_withShard_ne (h₁.data ▸ hne.symm)
  · intro kind' shard₂ hne h₂
    exact withShard_comm h₁ h₂ hne.symm

-- A fresh project that takes over channels and folders in either order.
theorem shard_laws_fresh :
    let channel : Channel := { id := "c1", name := "ops", owner := "ana" }
    let social := StateShard.new (.social { channels := [channel] })
    let docs := StateShard.new (.docs { docFolders := ["guides"] })
    (withShard {} social).shard .social = social ∧
    (withShard {} social).withShard docs = (withShard {} docs).withShard social := by
  intro channel social docs
  have h := (shard_laws.right.right {} .social).right.right social ⟨rfl, rfl⟩
  exact ⟨h.left, h.right.right.right .docs docs (by decide) ⟨rfl, rfl⟩⟩

end ProjectState
