import CoxAgent.Lib.Fs
import CoxAgent.Lib.Text
import Mathlib.Logic.Function.Basic

inductive OutboxStatus
  | pending
  | delivered
  | dead
deriving DecidableEq, Repr

-- An alert that waits for delivery. While a flusher posts it, `nextAttemptAt` is the lease.
structure OutboxEntry where
  id            : Nat
  kind          : String
  project       : String
  message       : String
  status        : OutboxStatus
  attempts      : Nat
  nextAttemptAt : Int
  createdAt     : Int
deriving DecidableEq, Repr

def outboxMessageCapBytes : Nat := 4096
def outboxMaxAttempts     : Nat := 8
def outboxBaseBackoffSecs : Nat := 30
def outboxMaxBackoffSecs  : Nat := 3600

def clampMessage (message : String) : String :=
  if message.utf8ByteSize ≤ outboxMessageCapBytes then
    message
  else
    .ofList (Text.takeBytes outboxMessageCapBytes message.toList)

-- Addition of `i64` that stops at the bounds.
def saturatingAdd (a b : Int) : Int :=
  max (-9223372036854775808) (min (a + b) 9223372036854775807)

-- Failed attempts are an `u8`.
def nextAttempts (attempts : Nat) : Nat :=
  min (min (attempts + 1) 255) outboxMaxAttempts

def backoffDelaySecs (attempt : Nat) : Nat :=
  min (outboxBaseBackoffSecs * (1 <<< min (attempt - 1) 20)) outboxMaxBackoffSecs

namespace OutboxEntry

-- The store assigns the identity when the entry is enqueued.
def pending (kind project message : String) (now : Int) : OutboxEntry where
  id            := 0
  kind          := kind
  project       := project
  message       := clampMessage message
  status        := .pending
  attempts      := 0
  nextAttemptAt := 0
  createdAt     := now

-- What one failed attempt makes of an entry.
def advanceAfterFailure (now : Int) (prev : OutboxEntry) : OutboxEntry :=
  let attempts := nextAttempts prev.attempts
  if attempts ≥ outboxMaxAttempts then
    { prev with attempts, status := .dead }
  else
    { prev with
      attempts
      status        := .pending
      nextAttemptAt := max (saturatingAdd now (backoffDelaySecs attempts))
        (saturatingAdd prev.nextAttemptAt 1)
    }

-- Whether an entry may be claimed.
def due (now : Int) (e : OutboxEntry) : Bool :=
  e.status = .pending ∧ e.nextAttemptAt ≤ now

end OutboxEntry

@[ext]
structure Spool where
  nextId  : Nat              := 0
  entries : List OutboxEntry := []
deriving DecidableEq, Repr

structure FileOutboxStore where
  cap          : Nat := 500
  leaseTtlSecs : Int := 60

namespace Spool

-- Identities are an `u64`. Beyond the cap the oldest entries are dropped.
def enqueue (cap : Nat) (entry : OutboxEntry) (spool : Spool) : Spool :=
  let id := (spool.nextId + 1) % 18446744073709551616
  let entries := spool.entries ++ [{ entry with
    id
    message := clampMessage entry.message
    status  := .pending
  }]
  { nextId := id, entries := entries.drop (entries.length - cap) }

-- The claimed entries and all entries, where at most `batch` entries are claimed.
def claimDue.go (now lease : Int) : Nat → List OutboxEntry → List OutboxEntry × List OutboxEntry
  | _, [] => ([], [])
  | batch, e :: es =>
    if e.due now then
      match batch with
      | 0         => ([], e :: es)
      | batch + 1 =>
        let e := { e with nextAttemptAt := lease }
        let (claimed, es) := claimDue.go now lease batch es
        (e :: claimed, e :: es)
    else
      let (claimed, es) := claimDue.go now lease batch es
      (claimed, e :: es)

def claimDue (leaseTtl now : Int) (batch : Nat) (spool : Spool) : List OutboxEntry × Spool :=
  let (claimed, entries) := claimDue.go now (now + leaseTtl + 1) batch spool.entries
  (claimed, { spool with entries })

-- Change every entry with the given identity.
def update (id : Nat) (f : OutboxEntry → OutboxEntry) (spool : Spool) : Spool :=
  { spool with entries := spool.entries.map fun e => if e.id = id then f e else e }

def markDelivered (id : Nat) : Spool → Spool :=
  update id ({ · with status := .delivered })

def markRetry (id : Nat) (nextAttemptAt : Int) : Spool → Spool :=
  update id fun e => { e with attempts := nextAttempts e.attempts, nextAttemptAt }

def markDead (id : Nat) : Spool → Spool :=
  update id ({ · with status := .dead })

def recent (limit : Nat) (spool : Spool) : List OutboxEntry :=
  spool.entries.mergeSort (fun a b => b.id ≤ a.id) |>.take limit

-- The first dead entry with the given identity starts again.
def replay.go (id : Nat) (now : Int) : List OutboxEntry → Bool × List OutboxEntry
  | []      => (false, [])
  | e :: es =>
    if e.id = id ∧ e.status = .dead then
      (true, { e with status := .pending, attempts := 0, nextAttemptAt := now } :: es)
    else
      let (replayed, es) := replay.go id now es
      (replayed, e :: es)

def replay (id : Nat) (now : Int) (spool : Spool) : Bool × Spool :=
  let (replayed, entries) := replay.go id now spool.entries
  (replayed, { spool with entries })

end Spool

-- The operations of the outbox port.
inductive SpoolOp
  | enqueue (entry : OutboxEntry)
  | claimDue (batch : Nat)
  | markDelivered (id : Nat)
  | markRetry (id : Nat) (nextAttemptAt : Int)
  | markDead (id : Nat)
  | recent (limit : Nat)
  | replay (id : Nat)
deriving DecidableEq, Repr

inductive SpoolReply
  | done
  | entries (entries : List OutboxEntry)
  | replayed (replayed : Bool)
deriving DecidableEq, Repr

-- The operation at the time `now`.
def SpoolOp.run (store : FileOutboxStore) (now : Int) (spool : Spool) :
    SpoolOp → SpoolReply × Spool
  | enqueue entry    => (.done, spool.enqueue store.cap entry)
  | claimDue batch   =>
    let (claimed, spool) := spool.claimDue store.leaseTtlSecs now batch
    (.entries claimed, spool)
  | markDelivered id => (.done, spool.markDelivered id)
  | markRetry id at' => (.done, spool.markRetry id at')
  | markDead id      => (.done, spool.markDead id)
  | recent limit     => (.entries (spool.recent limit), spool)
  | replay id        =>
    let (replayed, spool) := spool.replay id now
    (.replayed replayed, spool)

def spoolFile : String := "outbox.json"

-- Where a process is in `with_spool`. It opens the spool file and locks the inode that it has
-- opened, but it reads and replaces the file by its name.
inductive Phase
  | idle
  | waiting (op : SpoolOp) (inode : Nat)
  | locked (op : SpoolOp) (inode : Nat)
  | loaded (op : SpoolOp) (inode : Nat) (spool : Spool)
  | written (inode : Nat) (reply : SpoolReply)

-- An operation that has taken effect, at the time `now`.
structure Completed where
  op    : SpoolOp
  now   : Int
  reply : SpoolReply
deriving DecidableEq, Repr

-- Processes that share one spool directory. A file that does not parse, such as one that has just
-- been created, has no spool. The history is that of the renames.
structure SpoolDir (ι : Type) where
  fs      : Fs ι (Option Spool) := ⟨fun _ => none, fun _ => none, fun _ => none, 0⟩
  phase   : ι → Phase           := fun _ => .idle
  history : List Completed      := []

inductive SpoolEvent (ι : Type)
  | open (i : ι) (op : SpoolOp)
  | lock (i : ι)
  | load (i : ι)
  | write (i : ι) (now : Int)
  | unlock (i : ι)
  | crash (i : ι)

-- The inode that a process holds the lock of.
def Phase.holds : Phase → Option Nat
  | idle | waiting ..                             => none
  | locked _ inode | loaded _ inode _ | written inode _ => some inode

namespace SpoolDir

variable {ι : Type} [DecidableEq ι] (store : FileOutboxStore)

-- A file that is absent or does not parse is an empty spool.
def loadSpool (fs : Fs ι (Option Spool)) : Spool :=
  (fs.read spoolFile).join.getD {}

-- The lock is released when the file is closed, or by the system when the process dies.
def release (d : SpoolDir ι) (i : ι) : SpoolDir ι := { d with
  fs    := (d.phase i).holds.elim d.fs d.fs.unlock
  phase := Function.update d.phase i .idle
}

-- Events that do not fit to where the process is do nothing. In particular a process that asks for a
-- lock that is held keeps waiting.
def step (d : SpoolDir ι) : SpoolEvent ι → SpoolDir ι
  | .open i op =>
    match d.phase i with
    | .idle =>
      let (inode, fs) := d.fs.openCreate spoolFile none
      { d with fs, phase := Function.update d.phase i (.waiting op inode) }
    | _ => d
  | .lock i =>
    match d.phase i with
    | .waiting op inode =>
      if d.fs.holder inode = none then { d with
        fs    := d.fs.lock i inode
        phase := Function.update d.phase i (.locked op inode)
      } else d
    | _ => d
  | .load i =>
    match d.phase i with
    | .locked op inode =>
      { d with phase := Function.update d.phase i (.loaded op inode (loadSpool d.fs)) }
    | _ => d
  | .write i now =>
    match d.phase i with
    | .loaded op inode spool =>
      let (reply, spool) := op.run store now spool
      { d with
        fs      := d.fs.replace spoolFile (some spool)
        phase   := Function.update d.phase i (.written inode reply)
        history := d.history ++ [⟨op, now, reply⟩]
      }
    | _ => d
  | .unlock i =>
    match d.phase i with
    | .written .. => d.release i
    | _           => d
  | .crash i => d.release i

def run (events : List (SpoolEvent ι)) : SpoolDir ι :=
  events.foldl (step store) {}

end SpoolDir

def claimBatch : Nat := 16

-- Where a flusher is in its loop. The entries are clones from the time of the claim.
inductive Flusher
  | polling
  | posting (entry : OutboxEntry) (rest : List OutboxEntry)
  | recording (outcome : SpoolOp) (rest : List OutboxEntry)

namespace Flusher

-- Go on with the claimed entries.
def resume : List OutboxEntry → Flusher
  | []            => polling
  | entry :: rest => posting entry rest

-- What is recorded of a post that ended at the time `now`.
def outcome (now : Int) (entry : OutboxEntry) (acknowledged : Bool) : SpoolOp :=
  let failed := entry.advanceAfterFailure now
  if acknowledged then
    .markDelivered entry.id
  else if failed.status = .dead then
    .markDead entry.id
  else
    .markRetry entry.id failed.nextAttemptAt

end Flusher

-- A spool with the flushers `ι` that drain it. The last two fields are history: the identities in the
-- order in which they were assigned, and those that were marked as delivered.
structure Delivery (ι : Type) where
  spool     : Spool       := {}
  flusher   : ι → Flusher := fun _ => .polling
  enqueued  : List Nat    := []
  delivered : List Nat    := []

inductive DeliveryEvent (ι : Type)
  | notify (kind project message : String) (now : Int)
  | claim (i : ι) (now : Int)
  | post (i : ι) (now : Int) (acknowledged : Bool)
  | record (i : ι) (now : Int)
  | replay (id : Nat) (now : Int)
  | restart (i : ι)

namespace Delivery

variable {ι : Type} [DecidableEq ι] (store : FileOutboxStore)

-- The identities that an operation marks as delivered.
def acknowledges : SpoolOp → List Nat
  | .markDelivered id => [id]
  | _                 => []

-- Events that do not fit to where the flusher is do nothing.
def step (d : Delivery ι) : DeliveryEvent ι → Delivery ι
  | .notify kind project message now =>
    let spool := (SpoolOp.enqueue (.pending kind project message now)).run store now d.spool |>.2
    { d with spool, enqueued := d.enqueued ++ [spool.nextId] }
  | .claim i now =>
    match d.flusher i with
    | .polling =>
      let (claimed, spool) := d.spool.claimDue store.leaseTtlSecs now claimBatch
      { d with spool, flusher := Function.update d.flusher i (.resume claimed) }
    | _ => d
  | .post i now acknowledged =>
    match d.flusher i with
    | .posting entry rest =>
      let outcome := Flusher.outcome now entry acknowledged
      { d with flusher := Function.update d.flusher i (.recording outcome rest) }
    | _ => d
  | .record i now =>
    match d.flusher i with
    | .recording outcome rest => { d with
        spool     := (outcome.run store now d.spool).2
        flusher   := Function.update d.flusher i (.resume rest)
        delivered := acknowledges outcome ++ d.delivered
      }
    | _ => d
  | .replay id now => { d with spool := ((SpoolOp.replay id).run store now d.spool).2 }
  -- A flusher that dies loses only its leases.
  | .restart i => { d with flusher := Function.update d.flusher i .polling }

def run (events : List (DeliveryEvent ι)) : Delivery ι :=
  events.foldl (step store) {}

end Delivery
