import CoxAgent.Forge.Calls
import CoxAgent.Json.Store
import CoxAgent.Lib.Text
import CoxAgent.State.Edit

section

structure DeployReport where
  success       : Bool
  deployed      : Bool
  summary       : String
  failureBundle : Option Record := none
deriving DecidableEq, Repr

-- The part of the configuration that the deploys read.
structure DeployConfig where
  enabled                 : Bool        := true
  hostPort                : Option Nat  := none
  autoRollback            : Bool        := false
  liveHealthAutoRollback  : Bool        := false
  liveHealthFailChecks    : Nat         := 3
  maxRollbackAgeSecs      : Nat         := 3600
  migrationDetectionPaths : List String := ["migrations"]
deriving DecidableEq, Repr

-- The configuration with the ports that are wired up. The probe is `error` if the port that is
-- configured is none.
structure OpsSetup where
  config        : DeployConfig               := {}
  deploy        : Bool                       := true
  git           : Bool                       := true
  hostPortProbe : Except Unit (Option Nat)   := .ok none
  opsMonitor    : Bool                       := true

-- What the leader does to the outside. The live tree is deployed, or the worktree of a sha.
inductive OpsAction
  | updateRef (sha : String)
  | deploy (tree : Option String)
  | runTests
  | notify (kind message : String)
  | collectEvidence
  | fileDeployBug (summary : String)
  | fileTestFailure (summary : String)
  | fileRollbackFailedBug (summary : String)
  | fileAppDown (port : Nat)
  | addLesson (text : String)
  | matchLesson (text reason incidentAt : String)
deriving DecidableEq, Repr

abbrev OpsRun := PortRun OpsAction

-- The first seven bytes.
def shortSha (sha : String) : String :=
  .ofList (Text.takeBytes 7 sha.toList)

def describeHealthFailure (result : HealthCheckResult) : String :=
  let status := result.httpStatus.elim "no response" fun code => s!"HTTP {code}"
  let timing := result.responseTimeMs.elim "" fun ms => s!" after {ms}ms"
  "(containers started but the app never answered healthily on its port — " ++
    s!"health check failed: {status}{timing})"

variable (setup : OpsSetup)

-- The probe after a deploy with its detail. The adapter answers within the bound, or is given up.
def runHealthCheck (answer : Option HealthCheckResult) : Bool × Option HealthCheckResult :=
  if !setup.deploy then
    (true, none)
  else
    match setup.hostPortProbe with
    | .error _     => (false, none)
    | .ok none     => (true, none)
    | .ok (some _) =>
      let result := answer.getD { passed := false }
      (result.passed, some result)

def healthAttempts : Nat := 15

-- The first answer that says the app is up ends the polling. A probe that fails says it is not.
def verifyHealthAfterDeploy (probes : Nat → Except PortError Bool) : Bool :=
  if !setup.deploy then
    true
  else
    match setup.hostPortProbe with
    | .error _     => false
    | .ok none     => true
    | .ok (some 0) => false
    | .ok (some _) => (List.range healthAttempts).any fun i =>
      match probes i with
      | .ok up   => up
      | .error _ => false

def recordDeploy (loads : Bool) (e : EditIo) (status : DeployStatus) (o : OpsRun) : OpsRun :=
  if !loads then
    o
  else
    o.edit e fun s =>
      let s := s.logActivity e.now "DEPLOY" status.summary none
      let verb := if status.ok then "shipped" else "deploy failed"
      let s := s.postComment e.mint e.now "SM" s!"{verb}: {status.summary}" none
      { s with deploy := some status }

-- The deploy becomes the target of the rollbacks.
def recordKnownGood (e : EditIo) (sha : Option String) (summary : String) (o : OpsRun) : OpsRun :=
  match sha with
  | none     => o
  | some sha =>
    let o := if setup.git then o.act (.updateRef sha) else o
    o.edit e fun s => { s with
      deployIndex    := s.deployIndex + 1
      inRollback     := false
      lastGoodDeploy := some { sha, deployedAt := e.now, deployIndex := s.deployIndex + 1, summary }
    }

end

def incidentsChannel : String := "incidents"
def maxIncidents     : Nat    := 12

-- What the ports answer during a rollback: whether the state can be loaded, the age of the known-good
-- deploy in seconds if its time can be read, the paths that have changed since, whether its tree can be
-- checked out, its deploy and the probes after that.
structure RevertIo where
  loads        : Bool                                := true
  age          : Option Nat                          := some 0
  changedPaths : Except PortError (List String)      := .ok []
  worktreeAdd  : Except PortError Unit               := .ok ()
  deploy       : Except PortError DeployReport
  probes       : Nat → Except PortError Bool         := fun _ => .ok true
  record       : EditIo                             := {}
  incident     : EditIo                             := {}

-- What is written about the trigger of a rollback and its target.
structure Reverting where
  reason    : String
  failedSha : Option String
  goodSha   : String
deriving DecidableEq, Repr

variable (setup : OpsSetup)

-- An incident is recorded for every rollback, and for every one that is skipped.
def postMortem (e : EditIo) (r : Reverting) (rolledForward : Bool) (summary : String)
    (failureSummary : Option String) (o : OpsRun) : OpsRun :=
  let failed := r.failedSha.getD ""
  let mood := if rolledForward then "rolled-forward/stale" else "rolled-back"
  let body := s!"🩺 Post-mortem ({r.reason}): {summary} → {mood} to {shortSha r.goodSha} " ++
    s!"[{failed}] — root cause filed as tracked work."
  let o := o.edit e fun s =>
    let s := s.postChatIn e.mint e.now "SM" body incidentsChannel []
    let incident : IncidentRecord := {
      at'       := e.now
      reason    := r.reason
      failedSha := failed
      toSha     := r.goodSha
      ok        := !rolledForward
      summary
    }
    let incidents := s.incidents ++ [incident]
    { s with
      rolledBackCommits := if failed = "" then s.rolledBackCommits else s.rolledBackCommits.insert failed ()
      incidents         := incidents.drop (incidents.length - maxIncidents)
    }
  let matchText := (failureSummary.filter (Text.trim · ≠ "")).getD summary
  o.act (.notify "incident_post_mortem" body)
    |>.act (.addLesson (s!"{r.reason} triggered an auto-rollback to {shortSha r.goodSha}; " ++
      "fix shipped as tracked work."))
    |>.act (.matchLesson matchText r.reason e.now)

-- A rollback that succeeds takes the place of the last deploy, but for the probe of that.
def finishRollback (io : RevertIo) (r : Reverting) (ok : Bool) (summary : String)
    (failureSummary : Option String) (failureBundle : Option Record) (o : OpsRun) : OpsRun :=
  let short := shortSha r.goodSha
  let now := io.record.now
  let o := o.edit io.record fun s =>
    let s := s.logActivity now "ROLLBACK" summary none
    let s := s.postComment io.record.mint now "SM"
      s!"🔙 auto-rollback ({r.reason}) to {short}: {summary}" none
    let s := { s with
      lastRollback := some { at' := now, reason := r.reason, toSha := r.goodSha, ok, summary, failureBundle }
    }
    if ok then
      { s with
        inRollback := true
        deploy     := some {
          at'         := now
          ok          := true
          summary     := s!"rolled back to {short}: {summary}"
          commitSha   := some r.goodSha
          healthCheck := s.deploy >>= (·.healthCheck)
        }
      }
    else
      s
  let o := o.act (.notify (if ok then "rollback_ok" else "rollback_failed")
    s!"auto-rollback ({r.reason}) to {short}: {summary}")
  if ok then
    postMortem io.incident r false summary failureSummary o
  else
    o.act (.fileRollbackFailedBug summary)

def recordRollbackSkipped (io : RevertIo) (r : Reverting) (summary : String)
    (stale migrationBlocked : Bool) (o : OpsRun) : OpsRun :=
  let o := o.edit io.record fun s => { s with
    lastRollback := some {
      at'    := io.record.now
      reason := r.reason
      toSha  := r.goodSha
      ok     := false
      summary, stale, migrationBlocked
    }
  }
  let o := o.act (.notify "rollback_blocked" s!"Rollback skipped for `{r.reason}`: {summary}")
  postMortem io.incident r true summary none o

-- Paths that cannot be read are taken for none.
def migrationShippedSince (io : RevertIo) : Bool :=
  let changed := io.changedPaths.toOption.getD []
  changed.any fun p => setup.config.migrationDetectionPaths.any fun pre => pre.isPrefixOf p

-- The redeploy of the known-good tree: whether it came up, a summary and the forensics of a failure.
def redeploy (io : RevertIo) : Bool × String × Option Record :=
  match io.deploy with
  | .error e => (false, s!"rollback deploy failed: {e.display}", none)
  | .ok r    =>
    if r.success then
      if verifyHealthAfterDeploy setup io.probes then
        (true, r.summary, none)
      else
        (false, s!"{r.summary} (containers started but the app never bound its port — " ++
          "health check failed)", none)
    else
      (false, r.summary, r.failureBundle)

-- The rollback itself, once nothing speaks against it.
def rollBack (io : RevertIo) (r : Reverting) (o : OpsRun) : OpsRun :=
  let trigger := o.state.deploy
  match io.worktreeAdd with
  | .error e =>
    finishRollback io r false s!"rollback worktree failed: {e.display}" (trigger.map (·.summary)) none o
  | .ok _    =>
    let o := o.act (.deploy (some r.goodSha))
    let (ok, summary, ownBundle) := redeploy setup io
    let bundle := if ok then trigger >>= (·.failureBundle) else ownBundle
    finishRollback io r ok summary (trigger.map (·.summary)) bundle o

-- An age that is not known is too old.
def tooOld (io : RevertIo) : Bool :=
  match io.age with
  | some age => age > setup.config.maxRollbackAgeSecs
  | none     => true

def revertToKnownGood (io : RevertIo) (reason : String) (failedSha : Option String) (o : OpsRun) :
    OpsRun :=
  if !setup.deploy || !setup.git || !io.loads then
    o
  else
    match o.state.lastGoodDeploy with
    | none      => o
    | some good =>
      let r : Reverting := { reason, failedSha, goodSha := good.sha }
      if failedSha = some good.sha then
        o
      else if tooOld setup io then
        recordRollbackSkipped io r "known-good deploy is stale" true false o
      else if failedSha.isSome && migrationShippedSince setup io then
        recordRollbackSkipped io r ("a migration shipped since the known-good deploy — rolling back " ++
          "the app code alone would be unsafe") false true o
      else
        rollBack setup io r o

def attemptRollback (io : RevertIo) (reason : String) (failedSha : Option String) (o : OpsRun) :
    OpsRun :=
  if setup.config.autoRollback then
    revertToKnownGood setup io reason failedSha o
  else
    o

def attemptLiveHealthRollback (io : RevertIo) (failedSha : Option String) (o : OpsRun) : OpsRun :=
  if setup.config.liveHealthAutoRollback then
    revertToKnownGood setup io "live health failed" failedSha o
  else
    o
