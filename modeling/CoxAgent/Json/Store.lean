import CoxAgent.Lib.Fs
import CoxAgent.Store.Db

abbrev Bytes := List UInt8

-- The files of a state directory that are replaced by `atomic_write`.
inductive Target
  | state
  | coord
  | outbox
deriving DecidableEq, Repr

namespace Target

def file : Target → String
  | state  => "state.json"
  | coord  => ".coord.json"
  | outbox => "outbox.json"

-- The state store has a lock file of its own, the outbox locks its spool.
def lockFile : Target → String
  | state | coord => ".state.lock"
  | outbox        => "outbox.json"

end Target

-- The temporary file is named after the process only.
def tmpFile (pid : Nat) : String :=
  ".state.tmp." ++ pid.repr

-- A write at the beginning of an open file.
def overlay (bytes old : Bytes) : Bytes :=
  bytes ++ old.drop bytes.length

structure Write where
  target : Target
  bytes  : Bytes
deriving DecidableEq, Repr

-- Where a thread is in a guarded write. The temporary file is open from `opened` on.
inductive Stage
  | idle
  | waiting (target : Target) (lock : Nat)
  | locked (target : Target) (lock : Nat)
  | opened (w : Write) (lock inode : Nat)
  | filled (w : Write) (lock inode : Nat)
  | renamed (lock : Nat)

-- The threads `ι` of one process that write to a state directory, with the history of the writes that
-- have begun.
structure Writers (ι : Type) where
  fs    : Fs ι Bytes
  stage : ι → Stage   := fun _ => .idle
  begun : List Write  := []

inductive WriterEvent (ι : Type)
  | start (i : ι) (target : Target)
  | lock (i : ι)
  | truncate (i : ι) (bytes : Bytes)
  | fill (i : ι)
  | rename (i : ι)
  | unlock (i : ι)

namespace Writers

variable {ι : Type} [DecidableEq ι] (pid : Nat)

-- Events that do not fit to where the thread is do nothing.
def step (d : Writers ι) : WriterEvent ι → Writers ι
  | .start i target =>
    match d.stage i with
    | .idle =>
      let (lock, fs) := d.fs.openCreate target.lockFile []
      { d with fs, stage := Function.update d.stage i (.waiting target lock) }
    | _ => d
  | .lock i =>
    match d.stage i with
    | .waiting target lock =>
      if d.fs.holder lock = none then { d with
        fs    := d.fs.lock i lock
        stage := Function.update d.stage i (.locked target lock)
      } else d
    | _ => d
  | .truncate i bytes =>
    match d.stage i with
    | .locked target lock =>
      let (inode, fs) := d.fs.openTruncate (tmpFile pid) []
      let w : Write := { target, bytes }
      { fs, stage := Function.update d.stage i (.opened w lock inode), begun := d.begun ++ [w] }
    | _ => d
  | .fill i =>
    match d.stage i with
    | .opened w lock inode => { d with
        fs    := d.fs.modify inode (overlay w.bytes)
        stage := Function.update d.stage i (.filled w lock inode)
      }
    | _ => d
  -- A rename without a temporary file fails, and the lock is released all the same.
  | .rename i =>
    match d.stage i with
    | .filled w lock _ => { d with
        fs    := (d.fs.rename (tmpFile pid) w.target.file).getD d.fs
        stage := Function.update d.stage i (.renamed lock)
      }
    | _ => d
  | .unlock i =>
    match d.stage i with
    | .renamed lock => { d with
        fs    := d.fs.unlock lock
        stage := Function.update d.stage i .idle
      }
    | _ => d

def run (fs : Fs ι Bytes) (events : List (WriterEvent ι)) : Writers ι :=
  events.foldl (step pid) { fs }

end Writers

def PortError.display : PortError → String
  | notFound msg => "not found: " ++ msg
  | conflict msg => "conflict: " ++ msg
  | corrupt msg  => "state is corrupt: " ++ msg
  | backend msg  => "backend failure: " ++ msg

-- The files of a state directory with contents `J`: the state, the files in the directory of the
-- backups by name, and the ledger of the refused writes.
structure StateDir (J : Type) where
  state   : Option J             := none
  backups : List (String × J)    := []
  ledger  : List QuarantineEntry := []

def maxBackups : Nat := 20

variable {J : Type} (c : Codec J)

-- A document of a newer schema is refused.
def parseChecked (bytes : J) : Except PortError ProjectState :=
  match c.toState bytes with
  | .error e => .error (.corrupt e)
  | .ok s    =>
    if s.schemaVersion > schemaVersionSupported then
      .error (.corrupt (s!"state schema_version {s.schemaVersion} is newer than supported " ++
        s!"{schemaVersionSupported}; upgrade coxagent"))
    else
      .ok s

namespace JsonStateStore

-- The backups from the oldest to the newest, as their names sort.
def sorted (backups : List (String × J)) : List (String × J) :=
  backups.mergeSort fun a b => a.1 ≤ b.1

-- The newest backup that parses.
def recoverFromBackup (dir : StateDir J) : Option ProjectState :=
  (sorted dir.backups).reverse.findSome? fun file => (parseChecked c file.2).toOption

def load (dir : StateDir J) : Except PortError ProjectState :=
  match dir.state with
  | none       => .ok {}
  | some bytes =>
    match parseChecked c bytes with
    | .ok s          => .ok s
    | .error primary =>
      match recoverFromBackup c dir with
      | some s => .ok s
      | none   => .error (.corrupt
          ("state.json corrupt and no usable backup: " ++ primary.display))

def pruneBackups (keep : Nat) (backups : List (String × J)) : List (String × J) :=
  (sorted backups).drop (backups.length - keep)

-- Copy the current state into a file named after the time.
def snapshotBackup (stamp : Int) (current : J) (dir : StateDir J) : StateDir J :=
  let dest := s!"state-{stamp}.json"
  let backups := dir.backups.filter (·.1 ≠ dest) ++ [(dest, current)]
  { dir with backups := pruneBackups maxBackups backups }

-- The write under the lock. The copy of the old content is made by the time the disk takes the new one, or
-- refuses it.
def writeLocked (s : ProjectState) (stamp : Int) (dir : StateDir J)
    (disk : Except String Unit := .ok ()) : Except PortError Unit × StateDir J :=
  match gateSave s with
  | .error refused =>
    let ledger := dir.ledger ++ refused.quarantined.toList
    (.error refused.error, { dir with ledger := ledger.drop (ledger.length - maxQuarantine) })
  | .ok s =>
    let dir := dir.state.elim dir fun current => snapshotBackup stamp current dir
    match disk with
    | .error e => (.error (.backend e), dir)
    | .ok _    => (.ok (), { dir with state := some (c.ofState s) })

def claimTicket (id : TicketId) (worker now : String) (stamp : Int) (dir : StateDir J)
    (disk : Except String Unit := .ok ()) : Except PortError Bool × StateDir J :=
  match load c dir with
  | .error e => (.error e, dir)
  | .ok s    =>
    match World.claimIn s id worker now with
    | none    => (.ok false, dir)
    | some s' =>
      match writeLocked c s' stamp dir disk with
      | (.error e, dir) => (.error e, dir)
      | (.ok _, dir)    => (.ok true, dir)

-- A caller that loads the state, changes it and saves it.
def loadThenSave (f : ProjectState → ProjectState) (stamp : Int) (dir : StateDir J)
    (disk : Except String Unit := .ok ()) : Except PortError Unit × StateDir J :=
  match load c dir with
  | .error e => (.error e, dir)
  | .ok s    => writeLocked c (f s) stamp dir disk

end JsonStateStore

-- What the callers of the store do, with what the disk says to the write.
inductive JsonOp
  | loadThenSave (f : ProjectState → ProjectState) (stamp : Int) (disk : Except String Unit := .ok ())
  | claimTicket (id : TicketId) (worker now : String) (stamp : Int) (disk : Except String Unit := .ok ())

def JsonOp.step (dir : StateDir J) : JsonOp → StateDir J
  | loadThenSave f stamp disk            => (JsonStateStore.loadThenSave c f stamp dir disk).2
  | claimTicket id worker now stamp disk => (JsonStateStore.claimTicket c id worker now stamp dir disk).2
