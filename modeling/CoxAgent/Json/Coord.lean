import CoxAgent.Lib.Run
import CoxAgent.Store.Db

-- The agents that a worker reports as its own.
structure WorkerCaps where
  engines : List String   := []
  models  : List String   := []
  git     : Option Record := none
  tooling : Option Record := none
  version : String        := ""
deriving DecidableEq, Repr

structure WorkerEntry extends WorkerCaps where
  worker : String
  role   : String
  ticket : String := ""
  at'    : String
deriving DecidableEq, Repr

structure Lease where
  worker : String
  at'    : String
deriving DecidableEq, Repr

structure StageLease where
  ticket : String
  stage  : String
  worker : String
  at'    : String
deriving DecidableEq, Repr

def StageLease.isFor (ticket stage : String) (l : StageLease) : Bool :=
  l.ticket = ticket && l.stage = stage

-- Who leads, which stages of the tickets are claimed, and who is online.
structure Coord where
  leader  : Option Lease     := none
  leases  : List StageLease  := []
  workers : List WorkerEntry := []
deriving DecidableEq, Repr

-- In seconds.
def leaderTtlSecs : Int := 90
def stageTtlSecs  : Int := 1800
def workerTtlSecs : Int := 600

-- What the file system does during a call: the lock cannot be taken, the file that is there cannot be
-- read, or it cannot be replaced.
structure CoordIo where
  lock  : Option String := none
  reads : Bool          := true
  write : Option String := none
deriving DecidableEq, Repr

namespace JsonStateStore

-- The parser of RFC 3339 texts, which gives instants in nanoseconds.
variable (parse : String → Option Int)

-- In whole seconds, rounded towards zero. Leases with unreadable times count as run out.
def ageSecs (at' now : String) : Int :=
  match parse at', parse now with
  | some a, some n => (n - a).tdiv 1000000000
  | _, _           => 9223372036854775807

variable (io : CoordIo)

-- No file, and one that is no coordination file, read as an empty one.
def readCoord (file : Option Coord) : Coord :=
  if io.reads then file.getD {} else {}

def writeCoord (coord : Coord) (file : Option Coord) : Except PortError Unit × Option Coord :=
  match io.write with
  | none   => (.ok (), some coord)
  | some e => (.error (.backend e), file)

-- The lock is held for the rest of the call.
def locked {α : Type} (file : Option Coord)
    (f : Coord → Except PortError α × Option Coord) : Except PortError α × Option Coord :=
  match io.lock with
  | none   => f (readCoord io file)
  | some e => (.error (.backend e), file)

-- A worker can lead if nobody does, if it does so already or if the leader is stale.
def canLead (worker now : String) (coord : Coord) : Bool :=
  match coord.leader with
  | none   => true
  | some l => l.worker = worker || ageSecs parse l.at' now > leaderTtlSecs

def acquireLeader (worker now : String) (file : Option Coord) :
    Except PortError Bool × Option Coord :=
  locked io file fun coord =>
    if canLead parse worker now coord then
      match writeCoord io { coord with leader := some { worker, at' := now } } file with
      | (.error e, file) => (.error e, file)
      | (.ok _, file)    => (.ok true, file)
    else
      (.ok false, file)

def pruned (now : String) (coord : Coord) : List StageLease :=
  coord.leases.filter fun l => ageSecs parse l.at' now ≤ stageTtlSecs

def heldByOther (id : TicketId) (stage worker : String) (leases : List StageLease) : Bool :=
  leases.find? (StageLease.isFor id.asStr stage) |>.any (·.worker ≠ worker)

-- The leases of the others, and that of the worker.
def claimed (id : TicketId) (stage worker now : String) (leases : List StageLease) :
    List StageLease :=
  leases.filter (fun l => !StageLease.isFor id.asStr stage l) ++
    [{ ticket := id.asStr, stage, worker, at' := now }]

-- A claim that is lost leaves the file alone, the leases that have run out included.
def claimStage (id : TicketId) (stage worker now : String) (file : Option Coord) :
    Except PortError Bool × Option Coord :=
  locked io file fun coord =>
    let leases := pruned parse now coord
    if heldByOther id stage worker leases then
      (.ok false, file)
    else
      let leases := claimed id stage worker now leases
      match writeCoord io { coord with leases } file with
      | (.error e, file) => (.error e, file)
      | (.ok _, file)    => (.ok true, file)

-- The store has no release of its own, and that of the port does nothing.
def releaseStage (_id : TicketId) (_stage _worker : String) (file : Option Coord) :
    Except PortError Unit × Option Coord :=
  (.ok (), file)

def heartbeatWorker (worker role ticket : String) (caps : WorkerCaps) (now : String)
    (file : Option Coord) : Except PortError Unit × Option Coord :=
  locked io file fun coord =>
    let workers := coord.workers.filter fun w =>
      w.worker ≠ worker && ageSecs parse w.at' now ≤ workerTtlSecs
    let workers := workers ++ [{ caps with worker, role, ticket, at' := now }]
    writeCoord io { coord with workers } file

end JsonStateStore

-- The calls of the workers.
inductive CoordCall
  | acquireLeader (worker now : String)
  | claimStage (id : TicketId) (stage worker now : String)
  | releaseStage (id : TicketId) (stage worker : String)
  | heartbeat (worker role ticket : String) (caps : WorkerCaps) (now : String)
deriving DecidableEq, Repr

def CoordCall.time : CoordCall → Option String
  | acquireLeader _ now   => some now
  | claimStage _ _ _ now  => some now
  | releaseStage _ _ _    => none
  | heartbeat _ _ _ _ now => some now

-- The coordination file with what the workers know: when each of them was told last that it leads, when
-- that it has the stage of a ticket, as long as it does not release it, and the time of the last call.
structure CoordRun where
  file   : Option Coord
  leads  : String → Option String                     := fun _ => none
  stages : TicketId × String → String → Option String := fun _ _ => none
  clock  : Option String                              := none

namespace CoordRun

variable (parse : String → Option Int)

def told (worker now : String) (r : Except PortError Bool) (known : String → Option String) :
    String → Option String :=
  match r with
  | .ok true => Function.update known worker (some now)
  | _        => known

def call (s : CoordRun) (io : CoordIo) : CoordCall → CoordRun
  | .acquireLeader worker now =>
    let (r, file) := JsonStateStore.acquireLeader parse io worker now s.file
    { s with file, leads := told worker now r s.leads }
  | .claimStage id stage worker now =>
    let (r, file) := JsonStateStore.claimStage parse io id stage worker now s.file
    { s with
      file
      stages := Function.update s.stages (id, stage) (told worker now r (s.stages (id, stage))) }
  | .releaseStage id stage worker =>
    let (_, file) := JsonStateStore.releaseStage id stage worker s.file
    { s with
      file
      stages := Function.update s.stages (id, stage)
        (Function.update (s.stages (id, stage)) worker none) }
  | .heartbeat worker role ticket caps now =>
    let (_, file) := JsonStateStore.heartbeatWorker parse io worker role ticket caps now s.file
    { s with file }

def step (s : CoordRun) (e : CoordCall × CoordIo) : CoordRun :=
  { s.call parse e.2 e.1 with clock := e.1.time.or s.clock }

-- The one time is readable and not after the other.
def Before (a n : String) : Prop :=
  ∃ x y, parse a = some x ∧ parse n = some y ∧ x ≤ y

-- The time `now` is readable and not before that of the last call.
def Reaches (s : CoordRun) (now : String) : Prop :=
  Before parse now now ∧ ∀ c ∈ s.clock, Before parse c now

-- The worker was told that it leads, and its lease has not run out.
def Leads (s : CoordRun) (now worker : String) : Prop :=
  ∃ a, s.leads worker = some a ∧ JsonStateStore.ageSecs parse a now ≤ leaderTtlSecs

def HoldsStage (s : CoordRun) (id : TicketId) (stage now worker : String) : Prop :=
  ∃ a, s.stages (id, stage) worker = some a ∧ JsonStateStore.ageSecs parse a now ≤ stageTtlSecs

end CoordRun
