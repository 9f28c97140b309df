import CoxAgent.Ops.Rollback

-- What a cycle has shipped, and what the ports answer to the deploy at its end. The probe of the app's
-- health may hang.
structure DeployIo where
  shipped       : Bool                            := false
  loads         : Bool                            := true
  head          : Except PortError String
  deploy        : Except PortError DeployReport
  health        : Option HealthCheckResult        := none
  tests         : Except PortError DeployReport
  recordLoads   : Bool                            := true
  record        : EditIo                         := {}
  knownGood     : EditIo                         := {}
  revert        : RevertIo

-- What the ports answer to the monitor of the app that is live.
structure MonitorIo where
  loads  : Bool                   := true
  health : Except PortError Bool
  streak : EditIo                := {}
  revert : RevertIo

variable (setup : OpsSetup)

-- After something has shipped, and as long as the last deploy has failed or is a rollback.
def deployDue (io : DeployIo) (s : ProjectState) : Bool :=
  (io.shipped || io.loads && (s.deploy.any (!·.ok) || s.inRollback)) && setup.deploy &&
    setup.config.enabled

def attemptSha (io : DeployIo) : Option String :=
  if setup.git then io.head.toOption else none

-- A deploy that has failed becomes work.
def deployFailed (io : DeployIo) (status : DeployStatus) (o : OpsRun) : OpsRun :=
  recordDeploy io.recordLoads io.record status o
    |>.act (.notify "deploy_failed" status.summary)
    |>.act (.fileDeployBug status.summary)

-- The deploy with whether it is bad, and whether it came up.
def deployStep (io : DeployIo) (o : OpsRun) : OpsRun × Bool × Bool :=
  let sha := attemptSha setup io
  let o := o.act (.deploy none)
  match io.deploy with
  | .ok r    =>
    if r.deployed then
      let (healthOk, healthCheck) := if r.success then runHealthCheck setup io.health else (true, none)
      let summary :=
        match healthCheck with
        | some h => if healthOk then r.summary else s!"{r.summary} {describeHealthFailure h}"
        | none   => r.summary
      let status : DeployStatus := {
        at'           := io.record.now
        ok            := r.success && healthOk
        summary
        commitSha     := sha
        healthCheck
        failureBundle := r.failureBundle
      }
      if status.ok then
        let o := recordDeploy io.recordLoads io.record status o
        (o.act (.notify "deploy_ok" summary) |>.act .collectEvidence, false, true)
      else
        (deployFailed io status o, true, false)
    else
      (o, false, false)
  | .error e =>
    let summary := s!"deploy failed: {e.display}"
    let o := deployFailed io { at' := io.record.now, ok := false, summary, commitSha := sha } o
    (o.fail s!"DEPLOY: {e.display}", true, false)

-- The test suite with whether it is red. One that does not run is an error of the cycle.
def testStep (io : DeployIo) (o : OpsRun) : OpsRun × Bool :=
  let o := o.act .runTests
  match io.tests with
  | .ok r    => if r.deployed && !r.success then (o.act (.fileTestFailure r.summary), true) else (o, false)
  | .error e => (o.fail s!"TESTS: {e.display}", false)

-- The deploy at the end of a leader's cycle.
def deployTail (io : DeployIo) (o : OpsRun) : OpsRun :=
  if !deployDue setup io o.state then
    o
  else
    let (o, deployBad, deployRanOk) := deployStep setup io o
    let (o, testsBad) := testStep io o
    if deployBad || testsBad then
      let reason := if deployBad then "deploy failed" else "tests failed"
      attemptRollback setup io.revert reason (attemptSha setup io) o
    else if deployRanOk then
      recordKnownGood setup io.knownGood (attemptSha setup io) "deploy + tests passed" o
    else
      o

-- Ping the app that is live, and roll back when it has not answered so many times in a row. A probe
-- that fails counts as an answer.
def opsMonitor (io : MonitorIo) (o : OpsRun) : OpsRun :=
  match setup.config.hostPort with
  | none      => o
  | some port =>
    if !setup.opsMonitor || !setup.deploy || !io.loads || o.state.history.isEmpty then
      o
    else
      let s := o.state
      let healthy := io.health.toOption.getD true
      if !healthy then
        let o := o.edit io.streak fun s => { s with
          opsDown       := true
          opsDownStreak := min (s.opsDownStreak + 1) u32Max
        }
        let o :=
          if s.opsDown then
            o
          else
            o.act (.fileAppDown port) |>.act (.notify "ops_down"
              s!"App is DOWN — nothing responding on port {port}. Filed a high-priority bug.")
        if min (s.opsDownStreak + 1) u32Max = max setup.config.liveHealthFailChecks 1 then
          attemptLiveHealthRollback setup io.revert (s.deploy >>= (·.commitSha)) o
        else
          o
      else if s.opsDown then
        o.edit io.streak (fun s => { s with opsDown := false, opsDownStreak := 0 })
          |>.act (.notify "ops_up" s!"App recovered — responding on port {port} again.")
      else
        o

-- What happens to the stored state: the monitor and the deploy of a leader's cycle, and what everybody
-- else makes of it. Only the leader writes the known-good deploy, the commits that are rolled back and
-- the incidents.
inductive LeaderEvent
  | monitor (io : MonitorIo)
  | deploy (io : DeployIo)
  | others (s : ProjectState)

def leaderStep (s : ProjectState) : LeaderEvent → ProjectState
  | .monitor io => (opsMonitor setup io { state := s }).state
  | .deploy io  => (deployTail setup io { state := s }).state
  | .others s'  => { s' with
      lastGoodDeploy    := s.lastGoodDeploy
      rolledBackCommits := s.rolledBackCommits
      incidents         := s.incidents
    }
