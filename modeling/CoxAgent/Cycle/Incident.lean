import CoxAgent.Cycle.Runner
import CoxAgent.Domain.Kinds
import CoxAgent.Forge.Calls
import CoxAgent.Lib.Text

section

variable (l : Text.Lowercase)

-- Revoked or expired credentials, which do not heal on their own.
def authDeaths : List String :=
  ["oauth", "authenticate", "401", "unauthorized", "revoked", "invalid api key", "api key not"]

def infraFaults : List String := [
  -- The account.
  "401", "authenticate", "revoked", "unauthorized",
  -- The capacity.
  "quota", "spend limit", "usage limit", "spending cap", "rate limit", "overloaded", "529",
  -- The network.
  "connection refused", "connection reset", "connection closed", "econnrefused", "econnreset",
  "etimedout", "enotfound", "dns", "network is unreachable", "network error", "fetch failed",
  "socket hang up", "no route to host", "temporary failure in name resolution",
  -- The host.
  "sandbox_apply",
  -- The engine itself.
  "timed out", "unknownerror", "unavailable"
]

def isAuthDeath (why : String) : Bool :=
  let low := l.toLowercase why
  authDeaths.any (Text.contains low ·)

-- An empty text counts too, since outages were seen that left none.
def isInfraFault (why : String) : Bool :=
  if Text.Blank why then
    true
  else
    let low := l.toLowercase why
    infraFaults.any (Text.contains low ·)

variable {l} {why : String}

-- A fault stays one whatever is written around its text.
theorem isInfraFault_append (pre post : String) (hb : ¬Text.Blank why) (h : isInfraFault l why) :
    isInfraFault l (pre ++ why ++ post) := by
  rw [isInfraFault, if_neg hb, List.any_eq_true] at h
  obtain ⟨p, hp, hc⟩ := h
  have plain : ∀ p ∈ infraFaults, 'σ' ∉ p.toList ∧ 'ς' ∉ p.toList := by decide
  unfold isInfraFault
  split
  case isTrue  => rfl
  case isFalse =>
    rw [List.any_eq_true]
    exact ⟨p, hp, Text.Lowercase.contains_append (plain p hp).left (plain p hp).right hc⟩

end

namespace ProjectState

def hasEngineIncident (s : ProjectState) (engine : String) : Bool :=
  s.engineIncidents.any (·.engine = engine)

-- An engine has one incident, which counts how often it was met.
def openEngineIncident (s : ProjectState) (now engine role reason : String) : ProjectState :=
  let reason := .ofList <| (Text.trim reason).toList.take 300
  { s with engineIncidents := go reason s.engineIncidents }
where
  maxHits : Nat := 4294967295
  go (reason : String) : List EngineIncident → List EngineIncident
    | []      => [{ engine, reason, role, since := now, hits := 1 }]
    | i :: is =>
      if i.engine = engine then
        { i with hits := min (i.hits + 1) maxHits, reason } :: is
      else
        i :: go reason is

def closeEngineIncident (s : ProjectState) (engine : String) :
    Option (EngineIncident × ProjectState) :=
  s.engineIncidents.find? (·.engine = engine) |>.map fun i =>
    (i, { s with engineIncidents := s.engineIncidents.eraseP (·.engine = engine) })

-- An edit of anything but the incidents.
def elsewhere (f : ProjectState → ProjectState) (s : ProjectState) : ProjectState :=
  { f s with engineIncidents := s.engineIncidents }

end ProjectState

-- What an engine prints and how it exits.
structure AgentOutcome where
  stdout   : String     := ""
  stderr   : String     := ""
  exitCode : Option Int := none
deriving DecidableEq, Repr

namespace AgentOutcome

def succeeded (o : AgentOutcome) : Bool :=
  o.exitCode = some 0

-- The error output, or else the last lines of the output.
def failureDetail (o : AgentOutcome) : String :=
  let err := Text.trim o.stderr
  let out := Text.trim o.stdout
  if err ≠ "" then
    err
  else if out = "" then
    ""
  else
    let tail := (Text.lines out).reverse.take 6 |>.reverse
    Text.trim <| .ofList <| (" | ".intercalate tail).toList.take 400

end AgentOutcome

abbrev EngineResult := Except PortError AgentOutcome

namespace EngineResult

def succeeded : EngineResult → Bool
  | .ok o    => o.succeeded
  | .error _ => false

-- The run failed and left no text.
def silent : EngineResult → Bool
  | .ok o    => !o.succeeded && Text.Blank o.failureDetail
  | .error _ => false

def isFault (l : Text.Lowercase) : EngineResult → Bool
  | .ok o    => !o.succeeded && isInfraFault l o.failureDetail
  | .error e => isInfraFault l e.display

end EngineResult

-- What a cycle asks of the engine, with the answers, and what it tells the notifier.
inductive CycleCall
  | engine (answer : EngineResult)
  | notify (kind message : String)

abbrev CycleRun := PortRun CycleCall

inductive DevMode
  | bug
  | feature
deriving DecidableEq, Repr

namespace DevMode

def debug : DevMode → String
  | bug     => "Bug"
  | feature => "Feature"

def role : DevMode → Role
  | bug     => .devBug
  | feature => .devFeature

def roleName : DevMode → String
  | bug     => "DEV-BUG"
  | feature => "DEV-FEATURE"

end DevMode

-- What the boot check finds: nothing to repair, a suite that cannot be run, or one that fails. Then the
-- engine is asked to repair the tree. After each attempt the suite passes or fails, or cannot be run.
inductive BootCheck
  | passed
  | stopped
  | red (attempts : List (EngineResult × Option Bool))

-- What the developer does with an answer: the gates, the commit and the handing over.
structure DevRest where
  calls  : List CycleCall                   := []
  state  : ProjectState → ProjectState      := id
  result : Except String (Option TicketId)  := .ok none

-- What the ports answer to one developer pass. The candidates come with the outcome of their claims.
structure DevPass where
  boot       : BootCheck                                := .passed
  load       : Option PortError                         := none
  claims     : List (TicketId × Except PortError Bool)  := []
  started    : EditIo                                   := {}
  hold       : ProjectState → ProjectState              := id
  reload     : Option PortError                         := none
  tdd        : Option EngineResult                      := none
  resume     : Option EngineResult                      := none
  run        : EngineResult                             := .ok {}
  answered   : EditIo                                   := {}
  rest       : DevRest                                  := {}
  failed     : EditIo                                   := {}
  count      : ProjectState → ProjectState              := id
  release    : ProjectState → ProjectState              := id
  checkpoint : Option String                            := none

namespace DevPass

def healAttempts : Nat := 3

def selfHealCompile (o : CycleRun) : Nat → List (EngineResult × Option Bool) → CycleRun
  | n + 1, (answer, suite) :: attempts =>
    let o := o.act (.engine answer)
    if EngineResult.succeeded answer ∧ suite = some false then
      selfHealCompile o n attempts
    else
      o
  | _, _ => o

-- The first candidate that nobody else holds.
def claimFirst : List (TicketId × Except PortError Bool) → Except PortError (Option TicketId)
  | []                       => .ok none
  | (_, .error e) :: _       => .error e
  | (id, .ok true) :: _      => .ok (some id)
  | (_, .ok false) :: claims => claimFirst claims

variable (l : Text.Lowercase) (engine : String) (mode : DevMode) (p : DevPass)

-- A fault of the infrastructure is raised, and not counted against the ticket.
def recordFailure (id : TicketId) (why : String) (o : CycleRun) : CycleRun :=
  let short := .ofList <| why.toList.take 300
  if isInfraFault l why then
    o.edit p.failed fun s =>
      let s := s.logActivity p.failed.now "SYSTEM" "engine infrastructure fault — attempt not counted"
        (some id.asStr)
      let first := !s.hasEngineIncident engine
      let s := s.openEngineIncident p.failed.now engine mode.role.debug short
      if first then
        s.postChatIn p.failed.mint p.failed.now "SYSTEM"
          (s!"🔌 {engine} is failing for every agent: {short}. Work is paused on this engine until it " ++
            "answers again — fix the credentials or the model, and this clears itself.")
          agentsChannel []
      else
        s
  else
    o.edit p.failed (·.elsewhere p.count)

-- A checkpoint of the work in progress that fails is added to the error of the pass.
def checkpointSuffix : String :=
  p.checkpoint.elim "" fun e => s!"; WIP checkpoint failed: {e}"

def failedOn (id : TicketId) (detail : String) : String :=
  (PortError.backend s!"{mode.debug} engine failed on {id.asStr}: {detail}{p.checkpointSuffix}").display

def failedWith (e : PortError) : String :=
  if p.checkpointSuffix = "" then
    e.display
  else
    (PortError.backend s!"{e.display}{p.checkpointSuffix}").display

-- The claim is given back whatever becomes of the checkpoint.
def giveUp (id : TicketId) (why error : String) (o : CycleRun) :
    CycleRun × Except String (Option TicketId) :=
  let o := p.recordFailure l engine mode id why o
  ({ o with state := o.state.elsewhere p.release }, .error error)

-- An earlier conversation is resumed if there is one, and the task is run if that fails.
def ask (o : CycleRun) : CycleRun × EngineResult :=
  match p.resume with
  | some answer =>
    let o := o.act (.engine answer)
    if EngineResult.succeeded answer then (o, answer) else (o.act (.engine p.run), p.run)
  | none        => (o.act (.engine p.run), p.run)

-- An answer ends the incident of the engine.
def finish (o : CycleRun) : CycleRun × Except String (Option TicketId) :=
  let o := o.edit p.answered fun s =>
    match s.closeEngineIncident engine with
    | some (incident, s) =>
      s.postChatIn p.answered.mint p.answered.now "SYSTEM"
        (s!"✅ {engine} is answering again after {incident.hits} failed run(s) — {incident.reason} is " ++
          "resolved, work resumes.")
        agentsChannel []
    | none               => s
  ({ o with state := p.rest.state o.state, actions := o.actions ++ p.rest.calls }, p.rest.result)

def work (id : TicketId) (o : CycleRun) : CycleRun × Except String (Option TicketId) :=
  let o := match mode, p.tdd with
    | .feature, some answer => o.act (.engine answer)
    | _, _                  => o
  match p.ask o with
  | (o, .ok outcome) =>
    if outcome.succeeded then
      p.finish engine o
    else
      p.giveUp l engine mode id outcome.failureDetail (p.failedOn mode id outcome.failureDetail) o
  | (o, .error e)    => p.giveUp l engine mode id e.display (p.failedWith e) o

def execute (o : CycleRun) : CycleRun × Except String (Option TicketId) :=
  match p.boot with
  | .stopped      => (o, .ok none)
  | .red attempts => (selfHealCompile o healAttempts attempts, .ok none)
  | .passed       =>
    match p.load with
    | some e => (o, .error e.display)
    | none   =>
      match claimFirst p.claims with
      | .error e      => (o, .error e.display)
      | .ok none      => ({ o with state := o.state.elsewhere p.hold }, .ok none)
      | .ok (some id) =>
        let o := o.edit p.started fun s =>
          s.logActivity p.started.now mode.roleName "started implementing" (some id.asStr)
        let o := { o with state := o.state.elsewhere p.hold }
        match p.reload with
        | some e => (o, .error e.display)
        | none   => p.work l engine mode id o

end DevPass

-- What the loop reads of what happened in a cycle.
structure CycleReport where
  baCreated   : List TicketId   := []
  saReadied   : Option TicketId := none
  bugFixed    : Option TicketId := none
  featureDone : Option TicketId := none
  documented  : Option TicketId := none
  errors      : List String     := []
  overBudget  : Bool            := false

namespace CycleReport

def fail (report : CycleReport) (e : String) : CycleReport :=
  { report with errors := report.errors ++ [e] }

def outcome (l : Text.Lowercase) (report : CycleReport) : CycleOutcome where
  overBudget  := report.overBudget
  progressed  := report.baCreated ≠ [] || report.saReadied.isSome || report.featureDone.isSome ||
                   report.bugFixed.isSome || report.documented.isSome
  infraErrors := report.errors.countP (isInfraFault l)
  errors      := report.errors.length

end CycleReport

-- A phase of a full cycle: a developer pass, or anything else, which leaves the incidents alone.
inductive CyclePhase
  | dev (mode : DevMode) (pass : DevPass)
  | other (calls : List CycleCall) (state : ProjectState → ProjectState)
      (report : CycleReport → CycleReport)

-- What the loop reads of the store at the end of a cycle, and its edit there.
structure NoteIo where
  sees : Bool   := true
  edit : EditIo := {}

structure CycleIo where
  allowlist : List String := []
  model     : String      := ""
  blocked   : EditIo      := {}
  quiet     : Bool        := false
  sees      : Bool        := true
  pass      : DevPass     := {}
  ping      : EngineResult
  phases    : List CyclePhase := []
  note      : NoteIo          := {}

section Cycle

variable (l : Text.Lowercase) (engine : String)

def CyclePhase.run (r : CycleRun × CycleReport) : CyclePhase → CycleRun × CycleReport
  | dev mode pass            =>
    match pass.execute l engine mode r.1 with
    | (o, .error e) => (o, r.2.fail s!"{mode.roleName}: {e}")
    | (o, .ok id)   =>
      match mode with
      | .bug     => (o, { r.2 with bugFixed := id })
      | .feature => (o, { r.2 with featureDone := id })
  | other calls state report =>
    ({ r.1 with state := r.1.state.elsewhere state, actions := r.1.actions ++ calls }, report r.2)

def modelAllowed (allowlist : List String) (model : String) : Bool :=
  allowlist.isEmpty || model ∈ allowlist

def pingReport : EngineResult → CycleReport
  | .ok outcome =>
    if outcome.succeeded then
      ({} : CycleReport).fail "canary: engine answered — recovering"
    else
      ({} : CycleReport).fail s!"canary probe: {outcome.failureDetail}"
  | .error e    => ({} : CycleReport).fail s!"canary probe: {e.display}"

-- The one probe of a cycle that starts with an incident: a developer pass, and a ping if it claims
-- nothing.
def runCanaryProbe (io : CycleIo) (o : CycleRun) : CycleRun × CycleReport :=
  match io.pass.execute l engine .bug o with
  | (o, .ok (some done)) => (o, { bugFixed := some done })
  | (o, .ok none)        => (o.act (.engine io.ping), pingReport io.ping)
  | (o, .error e)        => (o, ({} : CycleReport).fail s!"canary probe: {e}")

-- A store that does not load shows no incident.
def runCycle (io : CycleIo) (o : CycleRun) : CycleRun × CycleReport :=
  if !modelAllowed io.allowlist io.model then
    let o := o.edit io.blocked fun s =>
      s.logActivity io.blocked.now "POLICY" s!"blocked model '{io.model}'" none
    let o := o.act <| .notify "policy_blocked"
      s!"model '{io.model}' is not in the allowlist — loop paused"
    (o, { errors := [s!"POLICY: model '{io.model}' is not in the allowlist"], overBudget := true })
  else if io.quiet then
    (o, {})
  else if io.sees && o.state.hasEngineIncident engine then
    runCanaryProbe l engine io o
  else
    io.phases.foldl (CyclePhase.run l engine) (o, {})

-- A cycle that shipped something or whose failures were those of its tasks shows that the engine lives.
-- A silent one shows nothing.
def CycleOutcome.engineAlive (r : CycleOutcome) : Bool :=
  r.progressed || r.infraErrors = 0 && r.errors ≠ 0

-- The first fault of the cycle. It is announced when the whole cycle went down only.
def noteFault (now mint detail : String) (faults : Nat) (s : ProjectState) : ProjectState :=
  let already := s.hasEngineIncident engine
  let s := s.openEngineIncident now engine "CYCLE" detail
  if !already && (2 ≤ faults || isAuthDeath l detail) then
    s.postChatIn mint now "SYSTEM"
      (s!"🔌 {engine} failed {faults} run(s) this cycle: {detail}. If it keeps up, the loop pauses " ++
        "itself — fix the credentials or the model and this clears.")
      agentsChannel []
  else
    s

def noteAlive (now mint : String) (s : ProjectState) : ProjectState :=
  match s.closeEngineIncident engine with
  | some (incident, s) =>
    s.postChatIn mint now "SYSTEM"
      (s!"✅ {engine} is answering again after {incident.hits} failed run(s) — resolved, work " ++
        "resumes.")
      agentsChannel []
  | none               => s

-- What the notifier is told of the incident. The hint is for credentials that are dead.
def announce (wasOpen : Bool) (outcome : CycleOutcome) (fault : Option String) (o : CycleRun) :
    CycleRun :=
  match fault with
  | some detail =>
    let urgent := isAuthDeath l detail
    let hint := if urgent then
      " — credentials are dead; re-login the engine CLI (e.g. `claude login`) and the loop resumes"
    else
      ""
    if !wasOpen && (2 ≤ outcome.infraErrors || urgent) then
      o.act <| .notify "engine_incident"
        s!"{engine} failed {outcome.infraErrors} run(s) this cycle: {detail}{hint}"
    else
      o
  | none        =>
    if wasOpen && outcome.engineAlive then
      o.act <| .notify "engine_recovered" s!"{engine} is answering again — work resumes"
    else
      o

def noteCycle (io : NoteIo) (report : CycleReport) (o : CycleRun) : CycleRun :=
  if report.overBudget then
    o.act <| .notify "loop_paused" "loop paused: spend cap reached"
  else
    let outcome := report.outcome l
    let fault := report.errors.find? (isInfraFault l)
    let o := announce l engine (io.sees && o.state.hasEngineIncident engine) outcome fault o
    o.edit io.edit fun s =>
      match fault with
      | some detail => noteFault l engine io.edit.now io.edit.mint detail outcome.infraErrors s
      | none        =>
        if outcome.engineAlive then noteAlive engine io.edit.now io.edit.mint s else s

-- A cycle with the bookkeeping after it.
def cycle (s : ProjectState) (io : CycleIo) : CycleRun :=
  let (o, report) := runCycle l engine io { state := s }
  noteCycle l engine io.note report o

def afterCycle (s : ProjectState) (io : CycleIo) : ProjectState :=
  (cycle l engine s io).state

end Cycle

-- A cycle as the loop sees it at its end: its errors, whether the budget stops the loop before they are
-- reported, what else has become of the state, and the edit that posts the report.
structure CycleEnd where
  errors     : List String                  := []
  overBudget : Bool                         := false
  between    : ProjectState → ProjectState  := id
  edit       : EditIo                       := {}

-- What the loop keeps from one cycle to the next.
structure ErrorFeed where
  lastLogicErrors : String := ""
  state           : ProjectState

namespace ErrorFeed

def messageBytes : Nat := 600

def post (edit : EditIo) (msg : String) (s : ProjectState) : ProjectState :=
  if edit.fails then s else s.postChatIn edit.mint edit.now "SYSTEM" msg agentsChannel []

def reportHead : String :=
  "⚠️ cycle errors: "

def fullReport (joined : String) : String :=
  reportHead ++ joined

variable (l : Text.Lowercase)

-- The errors that are no faults of the infrastructure.
def joined (errors : List String) : String :=
  " · ".intercalate (errors.filter (!isInfraFault l ·))

-- The same failure in every cycle is one message.
def report (errors : List String) (edit : EditIo) (o : ErrorFeed) : Option ErrorFeed :=
  let joined := joined l errors
  if joined ≠ "" ∧ joined ≠ o.lastLogicErrors then do
    let msg ← Text.truncate messageBytes (fullReport joined)
    return { lastLogicErrors := joined, state := post edit msg o.state }
  else if joined = "" then
    some { o with lastLogicErrors := "" }
  else
    some o

def cycle (o : ErrorFeed) (c : CycleEnd) : Option ErrorFeed :=
  let o := { o with state := c.between o.state }
  if c.overBudget then some o else report l c.errors c.edit o

-- The loop over the cycles, which ends with a panic.
def runForever (o : Option ErrorFeed) (c : CycleEnd) : Option ErrorFeed :=
  o.bind (cycle l · c)

end ErrorFeed
