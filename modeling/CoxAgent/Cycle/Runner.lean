import CoxAgent.Json.Coord
import CoxAgent.Lib.Run

inductive RunMode
  | paused
  | running
  | stopped
deriving DecidableEq, Repr

-- What the loop reads of the report of a cycle.
structure CycleOutcome where
  overBudget  : Bool := false
  progressed  : Bool := false
  infraErrors : Nat  := 0
  errors      : Nat  := 0
deriving DecidableEq, Repr

-- Where the loop is. From `parked` on it is registered with the notifier, and `woken` if that has been
-- notified since.
inductive LoopAt
  | gate
  | swap
  | register
  | parked (woken : Bool)
  | workspace
  | starting (stepping : Bool)
  | inCycle (stepping : Bool)
  | pausing
  | sleeping
  | returned
deriving DecidableEq, Repr

-- The handle and the loop, with the ghost records of whether the loop was stopped and whether a cycle
-- has started after that.
structure Runner where
  mode         : RunMode := .paused
  step         : Bool    := false
  loop         : LoopAt  := .gate
  infraStreak  : Nat     := 0
  cycle        : Nat     := 0
  wasStopped   : Bool    := false
  startedAfter : Bool    := false
deriving DecidableEq, Repr

-- What the store and the cycle answer to the loop. The store may fail to load.
structure LoopIo where
  workspaceRun : Option Bool  := some true
  report       : CycleOutcome := {}
deriving DecidableEq, Repr

inductive RunnerCall
  | resume
  | pause
  | step
  | stop
  | advance (io : LoopIo)
deriving DecidableEq, Repr

def cycleMayRun (workspaceRunning : Bool) (desired : Option Bool) (waitForStart : Bool) : Bool :=
  workspaceRunning && desired.getD !waitForStart

namespace Runner

-- Only a waiter that is registered is woken. One that sleeps between two cycles goes on by itself too.
def notifyWaiters (r : Runner) : Runner :=
  match r.loop with
  | .parked _ => { r with loop := .parked true }
  | _         => r

def resume (r : Runner) : Runner :=
  { r with mode := .running }.notifyWaiters

def pause (r : Runner) : Runner :=
  { r with mode := .paused }

def requestStep (r : Runner) : Runner :=
  { r with step := true }.notifyWaiters

def stop (r : Runner) : Runner :=
  { r with mode := .stopped, wasStopped := true }.notifyWaiters

def infraStreakAfter (streak : Nat) (report : CycleOutcome) : Nat :=
  if !report.progressed && report.infraErrors ≥ 1 then
    streak + 1
  else if report.progressed || report.infraErrors = 0 && report.errors ≠ 0 then
    0
  else
    streak

-- After three cycles in a row without progress that look like an outage the loop backs off.
def endCycle (r : Runner) (stepping : Bool) (report : CycleOutcome) : Runner :=
  if report.overBudget then
    { r with loop := .pausing }
  else
    let streak := infraStreakAfter r.infraStreak report
    if streak ≥ 3 then
      { r with loop := .sleeping, infraStreak := 0 }
    else if stepping then
      { r with loop := .pausing, infraStreak := streak }
    else
      { r with loop := .sleeping, infraStreak := streak }

-- The next step of the loop. A loop that is parked waits for its wake-up.
def advance (r : Runner) (io : LoopIo) : Runner :=
  match r.loop with
  | .gate =>
    match r.mode with
    | .stopped => { r with loop := .returned }
    | .running => { r with loop := .workspace }
    | .paused  => { r with loop := .swap }
  | .swap =>
    if r.step then
      { r with step := false, loop := .starting true }
    else
      { r with loop := .register }
  | .register     => { r with loop := .parked false }
  | .parked true  => { r with loop := .gate }
  | .parked false => r
  | .workspace =>
    if cycleMayRun (io.workspaceRun.getD true) (some true) false then
      { r with loop := .starting false }
    else
      { r with loop := .sleeping }
  | .starting stepping => { r with
      loop         := .inCycle stepping
      cycle        := r.cycle + 1
      startedAfter := r.startedAfter || r.wasStopped
    }
  | .inCycle stepping => r.endCycle stepping io.report
  | .pausing          => { r.pause with loop := .gate }
  | .sleeping         => { r with loop := .gate }
  | .returned         => r

def handle (r : Runner) : RunnerCall → Runner
  | .resume     => r.resume
  | .pause      => r.pause
  | .step       => r.requestStep
  | .stop       => r.stop
  | .advance io => r.advance io

-- Parked at the gate although there is something to do, and without a wake-up.
def Lost (r : Runner) : Prop :=
  r.loop = .parked false ∧ (r.mode = .running ∨ r.step)

instance (r : Runner) : Decidable r.Lost :=
  inferInstanceAs (Decidable (_ ∧ _))

end Runner

-- What a runner does. In `starting` it has read the clock for its cycle. In `leading` it runs the cycle
-- with the parts that are for the leader, since the time that it has read: the store has answered that it
-- leads, or has failed.
inductive RunnerPhase
  | idle
  | starting (now : String)
  | leading (since : String) (answered : Bool)
  | following
deriving DecidableEq, Repr

-- The runners `ι` with the coordination file that they share, and the time.
structure Runners (ι : Type) where
  file  : Option Coord     := none
  clock : String
  phase : ι → RunnerPhase  := fun _ => .idle

inductive RunnerEvent (ι : Type)
  | tick (now : String)
  | start (i : ι)
  | elect (i : ι) (io : CoordIo)
  | finish (i : ι)
  | call (c : CoordCall) (io : CoordIo)
deriving DecidableEq, Repr

namespace Runners

-- `worker` is the worker id of a runner. The slots of a machine take no part in the election.
variable {ι : Type} [DecidableEq ι] (parse : String → Option Int) (worker : ι → String)
variable (leaderElection : ι → Bool)

-- If the backend fails then the runner takes itself for the leader.
def elected (now : String) : Except PortError Bool → RunnerPhase
  | .ok true  => .leading now true
  | .ok false => .following
  | .error _  => .leading now false

-- Events that do not fit to where the runner is do nothing.
def start (s : Runners ι) (i : ι) : Runners ι :=
  match s.phase i with
  | .idle => { s with phase := Function.update s.phase i (.starting s.clock) }
  | _     => s

def elect (s : Runners ι) (i : ι) (io : CoordIo) : Runners ι :=
  match s.phase i with
  | .starting now =>
    if leaderElection i then
      let (r, file) := JsonStateStore.acquireLeader parse io (worker i) now s.file
      { s with file, phase := Function.update s.phase i (elected now r) }
    else
      { s with phase := Function.update s.phase i .following }
  | _ => s

def step (s : Runners ι) : RunnerEvent ι → Runners ι
  | .tick now   => { s with clock := now }
  | .start i    => s.start i
  | .elect i io => s.elect parse worker leaderElection i io
  | .finish i   => { s with phase := Function.update s.phase i .idle }
  | .call c io  => { s with file := ({ file := s.file : CoordRun }.call parse io c).file }

end Runners
