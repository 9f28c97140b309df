import CoxAgent.Backlog.AddTicket
import CoxAgent.Domain.Ticket
import CoxAgent.State.Basic
import CoxAgent.State.Edit

-- What the gate does with a designed ticket on the strength of its risk alone.
inductive Lane
  | auto
  | ask
deriving DecidableEq, Repr

structure RiskVerdict where
  lane  : Lane
  score : Nat
  why   : String
deriving DecidableEq, Repr

-- The fragments of paths to what builds, ships or governs the product.
def sensitive : List String := [
  ".github/workflows", "Dockerfile", "docker-compose", "scripts/", "Cargo.toml", "coxagent.json",
  "deploy/"
]

def Complexity.name : Complexity → String
  | small  => "small"
  | medium => "medium"
  | large  => "large"

-- The files that the design names.
def Ticket.files (t : Ticket) : List String :=
  t.design.technical.elim [] (·.files)

def Ticket.touchesSensitive (t : Ticket) : Bool :=
  t.files.any fun f => sensitive.any (containsText f)

section

variable (u : Text.Unicode)

def titleIsTestish (title : String) : Bool :=
  (u.toLowercase title).toList.splitOnP (!u.isAlphanumeric ·) |>.any fun w =>
    w = "test".toList ∨ w = "tests".toList ∨ w = "testing".toList

def titleIsDocish (title : String) : Bool :=
  let t := u.toLowercase title
  containsText t "document" || containsText t "docs" || containsText t "readme"

def filesAreAllTests (files : List String) : Bool :=
  !files.isEmpty && files.all fun f =>
    let f := u.toLowercase f
    containsText f "/tests/" || "tests/".toList <+: f.toList || "_test.rs".toList <:+ f.toList ||
      "_tests.rs".toList <:+ f.toList || containsText f ".test." || containsText f "/e2e/"

-- The type or the kind of work, and the complexity.
def shapeKey (t : Ticket) : String :=
  let kind :=
    if titleIsTestish u t.title then
      "test"
    else if titleIsDocish u t.title then
      "docs"
    else
      match t.kind with
      | .bug     => "bug"
      | .chore   => "chore"
      | .feature => "feature"
  s!"{kind}/{t.complexity.name}"

-- The signals in the order of the source, each with its weight and the note it leaves.
def riskSignals (t : Ticket) (shippedSimilar : Nat) (previouslyParked : Bool) :
    List (Int × Option String) := [
  match t.complexity with
    | .large  => (60, some "large")
    | .medium => (15, none)
    | .small  => (-5, none),
  if t.touchesSensitive then (60, some "touches build/deploy config") else (0, none),
  if t.files.length > 8 then (20, some s!"{t.files.length} files") else (0, none),
  if t.acceptanceCriteria.isEmpty then (25, some "no acceptance criteria") else (0, none),
  if t.kind = .chore || titleIsTestish u t.title || titleIsDocish u t.title then
    (-25, some "test/docs/chore")
  else
    (0, none),
  if filesAreAllTests u t.files then (-20, some "test files only") else (0, none),
  if previouslyParked then (30, some "previously parked") else (0, none),
  (-5 * (min shippedSimilar 6 : Nat),
    if shippedSimilar ≥ 2 then some s!"{shippedSimilar} similar shipped" else none)
]

-- Large or sensitive work is for a person, whatever the score.
def hardAsk (t : Ticket) : Bool :=
  t.complexity = .large || t.touchesSensitive

def clamp (score : Int) : Nat :=
  if score > 100 then 100 else score.toNat

def assess (t : Ticket) (shippedSimilar : Nat) (previouslyParked : Bool) : RiskVerdict :=
  let signals := riskSignals u t shippedSimilar previouslyParked
  let notes   := signals.filterMap (·.2)
  let score   := clamp (signals.foldl (fun score signal => score + signal.1) 20)
  {
    lane  := if !hardAsk t && score ≤ 35 then .auto else .ask
    score := score
    why   := if notes.isEmpty then "ordinary change" else ", ".intercalate notes
  }

variable {u}

theorem assess_lane_of_hardAsk {t : Ticket} (h : hardAsk t) (similar : Nat) (parked : Bool) :
    (assess u t similar parked).lane = .ask := by
  simp [assess, h]

end

namespace Approval

-- What the decisions on a shape have taught.
inductive Rule
  | autoApprove (by' : String) (samples : Nat)
  | preflightFix (reason : String) (samples : Nat)
  | keepAsking
deriving DecidableEq, Repr

-- One undo outweighs all approvals, two rejections retire the shape.
def ruleFor (shape : String) (samples : List ApprovalSample) (learnAfter : Nat) : Rule :=
  let mine      := samples.filter (·.shape = shape)
  let approvals := mine.filter (·.decision = "approve")
  let rejects   := mine.filter (·.decision = "reject")
  if mine.any (·.decision = "undo") then
    .keepAsking
  else if rejects.length ≥ 2 then
    let reason := rejects.reverse.find? (¬Text.Blank ·.reason) |>.elim "" (·.reason)
    if reason ≠ "" then .preflightFix reason rejects.length else .keepAsking
  else if rejects.isEmpty && approvals.length ≥ max learnAfter 1 then
    .autoApprove (approvals.getLast?.elim "the team" (·.by')) approvals.length
  else
    .keepAsking

def announce (shape : String) : Rule → Option String
  | .autoApprove who samples => some <|
    s!"🤖 Learned: @{who} approved {samples}/{samples} `{shape}` tickets — I will " ++
    "auto-approve that shape from now on and post a notice instead of asking. " ++
    s!"Reply `ask again: {shape}` to reverse."
  | .preflightFix reason samples => some <|
    s!"🤖 Learned: `{shape}` tickets were rejected {samples}× for the same reason " ++
    s!"(\"{reason}\") — the BA will fix that BEFORE the ticket reaches anyone's inbox."
  | .keepAsking => none

-- The risk and the rule vote. An auto-approve rule outvotes the risk.
def gateAllows : Lane → Rule → Bool → Bool
  | .auto, .keepAsking,       _           => true
  | .auto, .autoApprove _ _,  _           => true
  | .ask,  .autoApprove _ _,  _           => true
  | .auto, .preflightFix _ _, hasCriteria => hasCriteria
  | .ask,  .preflightFix _ _, _           => false
  | .ask,  .keepAsking,       _           => false

structure AdaptiveConfig where
  enabled           : Bool := false
  undoWindowMinutes : Nat  := 0
  learnAfterSamples : Nat  := 0
  maxAutoPerCycle   : Nat  := 0

namespace AdaptiveConfig

-- Zero stands for the default.
def undoWindow (cfg : AdaptiveConfig) : Nat :=
  if cfg.undoWindowMinutes = 0 then 30 else cfg.undoWindowMinutes

def learnAfter (cfg : AdaptiveConfig) : Nat :=
  if cfg.learnAfterSamples = 0 then 8 else cfg.learnAfterSamples

def cap (cfg : AdaptiveConfig) : Nat :=
  if cfg.maxAutoPerCycle = 0 then 3 else cfg.maxAutoPerCycle

end AdaptiveConfig

-- A row of the panel: what the gate makes of a ticket, and why.
structure GateDecision where
  ticket            : String
  title             : String
  shape             : String
  willAuto          : Bool
  driver            : String
  riskScore         : Nat
  riskWhy           : String
  blockedByOverride : Bool

structure PolicyOverview where
  enabled           : Bool
  gateReady         : Bool
  undoWindowMinutes : Nat
  learnAfterSamples : Nat
  maxAutoPerCycle   : Nat
  gateOff           : Bool
  deciding          : List GateDecision := []

section

variable (u : Text.Unicode)

-- Prior art: the tickets of the shape that reached a good end.
def shipped (s : ProjectState) (shape : String) : Nat :=
  s.tickets.countP fun t =>
    t.status ∈ [Status.done, .documented, .verified] ∧ shapeKey u t = shape

-- A designed ticket behind the ready gate.
def isCandidate (t : Ticket) : Bool :=
  t.status = .pending ∧ t.design.technical.isSome

def verdict (s : ProjectState) (t : Ticket) : RiskVerdict :=
  assess u t (shipped u s (shapeKey u t)) (t.id.asStr ∈ s.ticketFailAttempts.keys)

def learned (s : ProjectState) (learnAfter : Nat) (t : Ticket) : Rule :=
  ruleFor (shapeKey u t) s.approvalSamples learnAfter

-- A person has forced the shape back to being asked about.
def overridden (s : ProjectState) (t : Ticket) : Bool :=
  shapeKey u t ∈ s.askAgainShapes

def allow (s : ProjectState) (learnAfter : Nat) (t : Ticket) : Bool :=
  gateAllows (verdict u s t).lane (learned u s learnAfter t) !t.acceptanceCriteria.isEmpty

def willAuto (s : ProjectState) (learnAfter : Nat) (t : Ticket) : Bool :=
  !overridden u s t && allow u s learnAfter t

def driver (s : ProjectState) (learnAfter : Nat) (t : Ticket) : String :=
  if overridden u s t then
    "override"
  else
    match learned u s learnAfter t with
    | .autoApprove _ _  => "learned"
    | .preflightFix _ _ => if willAuto u s learnAfter t then "preflight" else "risk"
    | .keepAsking       => "risk"

def decidingRows (s : ProjectState) (learnAfter : Nat) : List GateDecision :=
  s.tickets.filter isCandidate |>.map fun t => {
    ticket            := t.id.asStr
    title             := t.title
    shape             := shapeKey u t
    willAuto          := willAuto u s learnAfter t
    driver            := driver u s learnAfter t
    riskScore         := (verdict u s t).score
    riskWhy           := (verdict u s t).why
    blockedByOverride := overridden u s t
  }

-- Off means off: no rows are listed.
def policyOverview (s : ProjectState) (adaptive : AdaptiveConfig) (gateReady : Bool) :
    PolicyOverview :=
  let gateOff := !adaptive.enabled || !gateReady
  {
    enabled           := adaptive.enabled
    gateReady
    undoWindowMinutes := adaptive.undoWindow
    learnAfterSamples := adaptive.learnAfter
    maxAutoPerCycle   := adaptive.cap
    gateOff
    deciding          := if gateOff then [] else decidingRows u s adaptive.learnAfter
  }

end

end Approval

namespace Approval

-- The part of the workflow configuration that the pass reads.
structure HumanConfig where
  gateReady : Bool           := false
  adaptive  : AdaptiveConfig := {}

-- The undo window that the announcement names, whatever the configuration says.
def cfgUndoMinutes : Nat := 30

-- The pass between two candidates.
structure Pass where
  state     : ProjectState
  announced : List String := []
  promoted  : Nat         := 0

section

-- The readings of the clock and the ids of new messages, in the order in which they are taken.
variable (u : Text.Unicode) (now mint : Nat → String)

def notice (v : RiskVerdict) (t : Ticket) : String :=
  s!"🤖 {t.id.asStr} auto-approved — {v.why} (risk {v.score}). {t.title}. Undo within " ++
  s!"{cfgUndoMinutes} minutes if this needed a person."

-- A rule is announced when it takes effect for the first time.
def announceRule (t : Ticket) (rule : Rule) (p : Pass) : Pass :=
  match announce (shapeKey u t) rule with
  | none     => p
  | some msg =>
    if msg ∈ p.state.decisions then
      p
    else
      { p with
        state     := { p.state with decisions := p.state.decisions ++ [msg] }
        announced := p.announced ++ [msg] }

-- The effects of a promotion besides the move itself.
def record (s₀ : ProjectState) (learnAfter : Nat) (t : Ticket) (p : Pass) : Pass :=
  announceRule u t (learned u s₀ learnAfter t) { p with
    state     := { p.state with
      autoApprovedAt := p.state.autoApprovedAt.insert t.id.asStr (now p.promoted) }
    announced := p.announced ++ [notice (verdict u s₀ t) t]
    promoted  := p.promoted + 1 }

-- One candidate. The evidence is that of the state `s₀` before the pass.
def consider (s₀ : ProjectState) (learnAfter : Nat) (p : Pass) (id : TicketId) : Pass :=
  match p.state.ticket id with
  | none   => p
  | some t =>
    if overridden u s₀ t then
      p
    else if !allow u s₀ learnAfter t then
      p
    else
      match p.state.ticketMut id (·.transitionTo .system .ready) with
      | some (.ok s) => record u now s₀ learnAfter t { p with state := s }
      | _            => p

def considerAll (s₀ : ProjectState) (learnAfter cap : Nat) : List TicketId → Pass → Pass
  | [],        p => p
  | id :: ids, p =>
    if p.promoted ≥ cap then
      p
    else
      considerAll s₀ learnAfter cap ids (consider u now s₀ learnAfter p id)

-- The messages follow the promotions, and so do their times.
def postAll (promoted : Nat) (s : ProjectState) (msgs : List String) : ProjectState :=
  msgs.zipIdx.foldl (fun s msg => s.postChatIn (mint msg.2) (now (promoted + msg.2)) "SYSTEM" msg.1
    ProjectState.approvalsChannel []) s

def candidates (s : ProjectState) : List TicketId :=
  s.tickets.filter isCandidate |>.map (·.id)

-- The change that the pass makes to the state it loads, if it runs at all.
def adaptiveApprovalPass (cfg : HumanConfig) (s : ProjectState) : ProjectState :=
  if !cfg.gateReady || !cfg.adaptive.enabled then
    s
  else
    let p := considerAll u now s cfg.adaptive.learnAfter cfg.adaptive.cap (candidates s) { state := s }
    postAll now mint p.promoted p.state p.announced

end

-- The tickets that are `ready` afterwards and were not before.
def movedToReady (s s' : ProjectState) : List Ticket :=
  s.tickets.zip s'.tickets |>.filter (fun (t, t') => t.status ≠ .ready ∧ t'.status = .ready) |>.map
    (·.1)

end Approval
