import CoxAgent.State.Records

-- The newest layout of the document this build understands (`SCHEMA_VERSION`).
def schemaVersionSupported : Nat := 1

-- The aggregate that the store loads and saves as a unit. The defaults are those of a fresh project.
structure ProjectState where
  schemaVersion           : Nat                                   := schemaVersionSupported
  «alias»                 : String                                := ""
  displayName             : Option String                         := none
  currentVersion          : SemVer                                := {}
  tickets                 : List Ticket                           := []
  history                 : List DeployRecord                     := []
  revertedWork            : List RevertEvent                      := []
  activity                : List ActivityEntry                    := []
  spend                   : Spend                                 := {}
  sprint                  : Option Sprint                         := none
  sprints                 : List SprintRecord                     := []
  sprintQueue             : List PlannedSprint                    := []
  holdReasons             : BTreeMap String String                := ∅
  roleHealth              : BTreeMap String Record                := ∅
  deploy                  : Option DeployStatus                   := none
  comments                : List Comment                          := []
  reviews                 : List Record                           := []
  openPrs                 : List PrOpen                           := []
  humanHolds              : BTreeMap Nat String                   := ∅
  ticketAttachments       : BTreeMap String (List Record)         := ∅
  chat                    : List ChatMsg                          := []
  channels                : List Channel                          := []
  designSystem            : Option Record                         := none
  milestones              : List Milestone                        := []
  goals                   : List Goal                             := []
  outcomeLedger           : List Record                           := []
  docs                    : List DocPage                          := []
  docFolders              : List String                           := []
  docRefresh              : BTreeMap String DocRefreshMark        := ∅
  cycleScores             : List Record                           := []
  lessons                 : List String                           := []
  lessonRecords           : List LessonRecord                     := []
  dismissedMatches        : List Record                           := []
  lessonSweepDay          : String                                := ""
  decisions               : List String                           := []
  refactorMode            : Bool                                  := false
  sprintCycle             : Nat                                   := 0
  cycle                   : Nat                                   := 0
  sprintGoal              : String                                := ""
  lastDigestDay           : String                                := ""
  prFixAttempts           : BTreeMap Nat Nat                      := ∅
  prReviewSkips           : BTreeMap Nat Nat                      := ∅
  prOpenHolds             : BTreeMap Nat PrOpenHold               := ∅
  prSessions              : BTreeMap Nat String                   := ∅
  ticketSessions          : BTreeMap String String                := ∅
  costHolds               : BTreeMap String Usd                   := ∅
  clippyBaseline          : Option Nat                            := none
  debtSignals             : List Record                           := []
  sweepsDone              : List Nat                              := []
  seenMergedPrs           : BTreeSet Nat                          := ∅
  ticketLastMerge         : BTreeMap String String                := ∅
  seenClosedPrs           : BTreeSet Nat                          := ∅
  sweptTickets            : BTreeSet String                       := ∅
  costApproved            : BTreeSet String                       := ∅
  tuning                  : Tuning                                := {}
  tuningOverrides         : BTreeMap String Record                := ∅
  tuningHistory           : List Record                           := []
  ticketEvidence          : BTreeMap String (List Record)         := ∅
  ticketStepProvenance    : BTreeMap String (List Record)         := ∅
  reproUrls               : BTreeMap String String                := ∅
  queueRecovery           : Bool                                  := false
  lastMemoryHygieneDay    : String                                := ""
  jobs                    : List Record                           := []
  lastImpedimentDay       : String                                := ""
  prRescues               : BTreeMap Nat Nat                      := ∅
  ticketRedesigns         : BTreeMap String Nat                   := ∅
  drainNoticeSprint       : Nat                                   := 0
  ticketFailAttempts      : BTreeMap String Nat                   := ∅
  prRescueAttempts        : BTreeMap String Nat                   := ∅
  approvalSamples         : List ApprovalSample                   := []
  autoApprovedAt          : BTreeMap String String                := ∅
  askAgainShapes          : List String                           := []
  ticketJournal           : BTreeMap String (List String)         := ∅
  ticketFailures          : BTreeMap String (List AttemptFailure) := ∅
  questions               : List AgentQuestion                    := []
  engineIncidents         : List EngineIncident                   := []
  dailyJobs               : BTreeMap String String                := ∅
  memberServices          : BTreeMap String (List String)         := ∅
  opsDown                 : Bool                                  := false
  workspaceRun            : WorkspaceRun                          := {}
  opsDownStreak           : Nat                                   := 0
  spendTodayUsd           : Usd                                   := 0
  spendDay                : String                                := ""
  spendHistory            : List Record                           := []
  budgetWarnedLifetime    : Bool                                  := false
  budgetWarnedDaily       : Bool                                  := false
  deployIndex             : Nat                                   := 0
  inRollback              : Bool                                  := false
  lastGoodDeploy          : Option KnownGoodDeploy                := none
  lastRollback            : Option RollbackStatus                 := none
  incidents               : List IncidentRecord                   := []
  rolledBackCommits       : BTreeSet String                       := ∅
  bugSnapshots            : BTreeMap String Record                := ∅
  governanceInterventions : List Record                           := []
  driftAlerts             : List Record                           := []
  liveness                : Option Record                         := none

namespace ProjectState

instance : Inhabited ProjectState where
  default := {}

-- The first ticket with the given id.
def ticket (s : ProjectState) (id : TicketId) : Option Ticket :=
  s.tickets.find? (·.id = id)

theorem ticket_mem {s : ProjectState} {id : TicketId} {t : Ticket} (h : s.ticket id = some t) :
    t ∈ s.tickets ∧ t.id = id :=
  ⟨List.mem_of_find?_eq_some h, by simpa using List.find?_some h⟩

-- The ids of the tickets, as the keys of the ticket-keyed maps spell them.
def ticketIds (s : ProjectState) : List String :=
  s.tickets.map (·.id.asStr)

end ProjectState
