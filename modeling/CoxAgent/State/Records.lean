import CoxAgent.Lib.BTreeMap
import CoxAgent.Domain.Ticket
import Mathlib.Data.Rat.Defs

-- Amounts of money are `f64` in the source. Only their sign is ever looked at, so they are rationals
-- here; the values serde cannot write (NaN and the infinities) are left out.
abbrev Usd := Rat

-- A record that is moved around but never looked into, kept as the text serde writes for it.
structure Record where
  text : String
deriving DecidableEq, Repr

def u32Max : Nat := 4294967295

structure ActivityEntry where
  at'    : String
  agent  : String
  action : String
  ticket : Option String := none
deriving DecidableEq, Repr

-- The texts of a pre-release and of the build metadata, empty if there is none.
structure SemVer where
  major : Nat    := 0
  minor : Nat    := 0
  patch : Nat    := 0
  pre   : String := ""
  build : String := ""
deriving DecidableEq, Repr

structure Sprint where
  number       : Nat
  goal         : String
  startedCycle : Nat
  lengthCycles : Nat
  committed    : List TicketId
  startedAt    : String          := ""
  bugBurnFloor : Option Priority := none
deriving DecidableEq, Repr

structure PlannedSprint where
  id        : Nat
  goal      : String
  tickets   : List TicketId := []
  createdAt : String        := ""
  queuedBy  : String        := ""
deriving DecidableEq, Repr

-- What came of a sprint that is over.
structure SprintRecord where
  number    : Nat
  goal      : String
  committed : Nat
  done      : Nat
  at'       : String
deriving DecidableEq, Repr

-- What a person says about a revert that the search has found.
inductive RevertDecision
  | pending | approved | dismissed
deriving DecidableEq, Repr

structure RevertEvent where
  sha        : String
  subject    : String
  ticket     : String
  role       : String
  revertedAt : String
  detectedAt : String
  decision   : RevertDecision
  decidedAt  : Option String := none
  decidedBy  : Option String := none
deriving DecidableEq, Repr

structure Milestone where
  name          : String
  goal          : String
  targetVersion : String
  goalComplete  : Bool := false
  fulfilled     : Bool := false
deriving DecidableEq, Repr

structure OperatorSpend where
  costUsd      : Usd := 0
  inputTokens  : Nat := 0
  outputTokens : Nat := 0
  runs         : Nat := 0
deriving DecidableEq

structure Spend where
  totalCostUsd            : Usd := 0
  inputTokens             : Nat := 0
  outputTokens            : Nat := 0
  runs                    : Nat := 0
  byRole                  : BTreeMap String Usd := ∅
  runsByRole              : BTreeMap String Nat := ∅
  meteredCostByRole       : BTreeMap String Usd := ∅
  byOperator              : BTreeMap String OperatorSpend := ∅
  engineByRole            : BTreeMap String String := ∅
  operatorByRole          : BTreeMap String String := ∅
  promptCharsByRole       : BTreeMap String Nat := ∅
  confinedRuns            : Nat := 0
  unconfinedRequestedRuns : Nat := 0
  sandboxDeniedRuns       : Nat := 0
  lastSandboxStatus       : String := ""
  stepProvenance          : List Record := []
deriving DecidableEq

structure Attachment where
  name : String
  url  : String
  mime : String
  size : Nat
deriving DecidableEq, Repr

structure Reaction where
  emoji : String
  users : List String
deriving DecidableEq, Repr

structure Comment where
  id          : String
  postedAt    : String
  author      : String
  worker      : String           := ""
  body        : String
  ticket      : Option String    := none
  attachments : List Attachment  := []
  reactions   : List Reaction    := []
deriving DecidableEq, Repr

structure ChatMsg where
  id          : String
  postedAt    : String
  user        : String
  body        : String
  edited      : Option String   := none
  channel     : String          := "general"
  attachments : List Attachment := []
  reactions   : List Reaction   := []
  threadId    : Option String   := none
  replyCount  : Nat             := 0
  deleted     : Bool            := false
deriving DecidableEq, Repr

-- A question of a role to another one, or to a person as `@username`. It is deferred while it waits for
-- the digest of that person.
structure AgentQuestion where
  id         : String
  ticket     : String
  «from»     : String
  «to»       : String
  body       : String
  answer     : String := ""
  askedAt    : String
  answeredAt : String := ""
  forwarded  : Bool   := false
  escalated  : Bool   := false
  deferred   : Bool   := false
deriving DecidableEq, Repr

-- What the hub mirrors of an open pull request.
structure PrOpen where
  number    : Nat
  title     : String
  head      : String
  base      : String
  url       : String
  author    : String
  ci        : String
  mergeable : Bool
  created   : String
deriving DecidableEq, Repr

structure Channel where
  id         : String
  name       : String
  owner      : String
  members    : List String := []
  inviters   : List String := []
  createdAt  : String      := ""
  kind       : String      := "private"
  project    : String      := ""
  topic      : String      := ""
  parent     : String      := ""
  openInvite : Bool        := false
deriving DecidableEq, Repr

-- One human decision on one ticket shape.
structure ApprovalSample where
  shape    : String
  decision : String
  by'      : String
  reason   : String := ""
  at'      : String
deriving DecidableEq, Repr

structure DocPage where
  id        : String
  folder    : String := ""
  category  : String
  title     : String
  body      : String
  updatedAt : String := ""
  updatedBy : String := ""
deriving DecidableEq, Repr

structure DocRefreshMark where
  refreshedAt : String := ""
  fails       : Nat    := 0
deriving DecidableEq, Repr

-- A ticket whose work was deployed.
structure DeployRecord where
  version : SemVer
  ticket  : TicketId
  title   : String
  at'     : String
deriving DecidableEq, Repr

-- What the probe of a deployed app's health endpoint has found.
structure HealthCheckResult where
  passed         : Bool
  httpStatus     : Option Nat := none
  responseTimeMs : Option Nat := none
deriving DecidableEq, Repr

structure DeployStatus where
  at'           : String
  ok            : Bool
  summary       : String
  commitSha     : Option String            := none
  healthCheck   : Option HealthCheckResult := none
  failureBundle : Option Record            := none
deriving DecidableEq, Repr

structure RollbackStatus where
  at'              : String
  reason           : String
  toSha            : String
  ok               : Bool
  summary          : String
  stale            : Bool          := false
  migrationBlocked : Bool          := false
  failureBundle    : Option Record := none
deriving DecidableEq, Repr

-- An automatic rollback, or one that was skipped. The sha is empty if the broken commit is not known.
structure IncidentRecord where
  at'             : String
  reason          : String
  failedSha       : String
  toSha           : String        := ""
  ok              : Bool
  summary         : String
  rootCauseTicket : Option String := none
  lesson          : Option String := none
deriving DecidableEq, Repr

-- How many rounds in a row a pull request was kept open for the same reason and at the same head.
structure PrOpenHold where
  reason  : String
  rounds  : Nat
  headSha : String := ""
  firstAt : String
  lastAt  : String
deriving DecidableEq, Repr

structure KnownGoodDeploy where
  sha         : String
  deployedAt  : String
  deployIndex : Nat
  summary     : String
deriving DecidableEq, Repr

-- The workspace master run switch. It starts switched on.
structure WorkspaceRun where
  running : Bool   := true
  by'     : String := ""
  at'     : String := ""
  reason  : String := ""
deriving DecidableEq, Repr

-- The brakes of the delivery loop, all released at first.
structure Tuning where
  bugsFirst       : Bool       := false
  skipBa          : Bool       := false
  burnMode        : Bool       := false
  burnUntilBugsLe : Option Nat := none
  lastEvalDay     : String     := ""
deriving DecidableEq, Repr

-- An incident that a lesson has not prevented.
structure LessonRecurrence where
  at'            : String
  incidentAt     : String
  incidentReason : String
deriving DecidableEq, Repr

structure LessonEscalation where
  ticket : String
  at'    : String
  stage  : String
deriving DecidableEq, Repr

-- How often a lesson had to be learned again, and what came of it.
structure LessonRecord where
  text         : String
  at'          : String
  cycle        : Nat
  reRecordings : Nat                     := 0
  recurrences  : List LessonRecurrence   := []
  escalated    : Option LessonEscalation := none
  id           : Option String           := none
  source       : Option String           := none
deriving DecidableEq, Repr

-- The layer at which an attempt died.
inductive FailureLayer
  | spec | gate | design | infra
deriving DecidableEq, Repr

structure AttemptFailure where
  attempt : Nat
  layer   : FailureLayer
  gate    : String
  detail  : String
  files   : List String := []
deriving DecidableEq, Repr

-- A live problem of an engine, with the role that met it first.
structure EngineIncident where
  engine : String
  reason : String
  role   : String
  since  : String
  hits   : Nat
deriving DecidableEq, Repr
