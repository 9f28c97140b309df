import CoxAgent.Lib.Sha256
import CoxAgent.Lib.Text
import Mathlib.Logic.Function.Basic

structure AuditRecord where
  at'    : String
  user   : String
  action : String
  status : UInt16
deriving DecidableEq, Repr

-- A row of the audit log. Its hash commits to the row before it.
structure ChainedEntry where
  prev   : String
  at'    : String
  user   : String
  action : String
  status : UInt16
  hash   : String
deriving DecidableEq, Repr

structure ChainBreak where
  index  : Nat
  reason : String
deriving DecidableEq, Repr

-- The predecessor of the very first row.
def genesisPrev : String :=
  "0000000000000000000000000000000000000000000000000000000000000000"

-- The first 8 bytes, for compact reports.
def short (h : String) : String :=
  (Text.bytePrefix 8 h.toList).elim h .ofList

-- The text that is hashed.
def rowText (prev at' user action : String) (status : UInt16) : String :=
  prev ++ "\n" ++ at' ++ "\n" ++ user ++ "\n" ++ action ++ "\n" ++ status.toNat.repr

def ChainedEntry.text (row : ChainedEntry) : String :=
  rowText row.prev row.at' row.user row.action row.status

section

variable (sha256 : ByteArray → Digest)

def rowHash (prev at' user action : String) (status : UInt16) : String :=
  toHex (sha256 (rowText prev at' user action status).toUTF8).toList

def verifyChain.go (index : Nat) (expectedPrev : String) :
    List ChainedEntry → Except ChainBreak Unit
  | []          => .ok ()
  | row :: rows =>
    let want := rowHash sha256 row.prev row.at' row.user row.action row.status
    if row.prev ≠ expectedPrev then
      .error {
        index
        reason := "prev mismatch: row links to " ++ short row.prev ++
          " but the chain tip here is " ++ short expectedPrev
      }
    else if row.hash ≠ want then
      .error {
        index
        reason := "content was altered: stored hash " ++ short row.hash ++
          " ≠ recomputed " ++ short want
      }
    else
      verifyChain.go (index + 1) row.hash rows

-- The number of rows if each one links to the row before it, else the first break.
def verifyChain (rows : List ChainedEntry) : Except ChainBreak Nat :=
  match verifyChain.go sha256 0 genesisPrev rows with
  | .ok _    => .ok rows.length
  | .error b => .error b

namespace SqlAuditSink

-- The hash of the newest row.
def tip (rows : List ChainedEntry) : String :=
  (rows.getLast?.map (·.hash)).filter (· ≠ "") |>.getD genesisPrev

def record (rows : List ChainedEntry) (entry : AuditRecord) : List ChainedEntry :=
  rows ++ [{
    prev   := tip rows
    at'    := entry.at'
    user   := entry.user
    action := entry.action
    status := entry.status
    hash   := rowHash sha256 (tip rows) entry.at' entry.user entry.action entry.status
  }]

-- Rows before the retention window are deleted.
def prune (cutoff : String) (rows : List ChainedEntry) : List ChainedEntry :=
  rows.filter fun row => ¬row.at' < cutoff

inductive Op
  | record (entry : AuditRecord)
  | prune (cutoff : String)

def step (rows : List ChainedEntry) : Op → List ChainedEntry
  | .record entry => record sha256 rows entry
  | .prune cutoff => prune cutoff rows

-- The table after the sink has served the given requests.
def written (ops : List Op) : List ChainedEntry :=
  ops.foldl (step sha256) []

end SqlAuditSink

end

-- The audit table as the sinks of all processes share it. Every SQL statement is one step, and the
-- steps of different tasks interleave freely.
structure AuditRow where
  id    : Nat
  entry : ChainedEntry
deriving DecidableEq, Repr

namespace SqlAuditSink

-- What a task is about to do next. A sink is an instance with a lock of its own.
inductive Task (κ : Type)
  | idle
  | waiting (sink : κ) (entry : AuditRecord)
  | locked (sink : κ) (entry : AuditRecord)
  | linked (sink : κ) (entry : AuditRecord) (prev : String)
  | scanning (prev : String)
  | sealing (prev : String) (rows : List AuditRow)

-- The rows are in the order of their ids.
structure World (ι κ : Type) where
  rows   : List AuditRow   := []
  nextId : Nat             := 1
  holder : κ → Option ι    := fun _ => none
  tasks  : ι → Task κ      := fun _ => .idle

inductive Event (ι κ : Type)
  | call (i : ι) (sink : κ) (entry : AuditRecord)
  | lock (i : ι)
  | readTip (i : ι) (ok : Bool)
  | insert (i : ι) (ok : Bool)
  | prune (cutoff : String)
  | backfill (i : ι)
  | scan (i : ι)
  | update (i : ι)
  | abort (i : ι)

namespace World

variable {ι κ : Type} [DecidableEq ι] [DecidableEq κ] (sha256 : ByteArray → Digest)

-- What verification reads.
def entries (w : World ι κ) : List ChainedEntry :=
  w.rows.map (·.entry)

def goto (w : World ι κ) (i : ι) (task : Task κ) : World ι κ :=
  { w with tasks := Function.update w.tasks i task }

-- The end of a task drops its guard.
def finish (w : World ι κ) (i : ι) : World ι κ :=
  { w.goto i .idle with holder := fun sink => if w.holder sink = some i then none else w.holder sink }

def append (w : World ι κ) (entry : AuditRecord) (prev : String) : World ι κ := { w with
  nextId := w.nextId + 1
  rows   := w.rows ++ [{
    id    := w.nextId
    entry := {
      prev
      at'    := entry.at'
      user   := entry.user
      action := entry.action
      status := entry.status
      hash   := rowHash sha256 prev entry.at' entry.user entry.action entry.status
    }
  }]
}

-- `UPDATE audit_log SET prev, hash WHERE id`.
def sealRow (w : World ι κ) (id : Nat) (prev hash : String) : World ι κ := { w with
  rows := w.rows.map fun row =>
    if row.id = id then { row with entry := { row.entry with prev, hash } } else row
}

-- The hash of the newest row that has one.
def chainedTip (w : World ι κ) : String :=
  tip (w.entries.filter (·.hash ≠ ""))

def unchained (w : World ι κ) : List AuditRow :=
  w.rows.filter (·.entry.hash = "")

-- A task that is not at the point in question makes no step.
def step (w : World ι κ) : Event ι κ → World ι κ
  | .call i sink entry =>
    match w.tasks i with
    | .idle => w.goto i (.waiting sink entry)
    | _     => w
  | .lock i =>
    match w.tasks i with
    | .waiting sink entry =>
      if w.holder sink = none then
        { w.goto i (.locked sink entry) with holder := Function.update w.holder sink (some i) }
      else
        w
    | _ => w
  -- A read that fails counts as an empty table.
  | .readTip i ok =>
    match w.tasks i with
    | .locked sink entry => w.goto i (.linked sink entry (if ok then tip w.entries else genesisPrev))
    | _                  => w
  -- An insert that fails is dropped.
  | .insert i ok =>
    match w.tasks i with
    | .linked _ entry prev => (if ok then w.append sha256 entry prev else w).finish i
    | _                    => w
  | .prune cutoff => { w with rows := w.rows.filter fun row => ¬row.entry.at' < cutoff }
  | .backfill i =>
    match w.tasks i with
    | .idle => w.goto i (.scanning w.chainedTip)
    | _     => w
  | .scan i =>
    match w.tasks i with
    | .scanning prev => w.goto i (.sealing prev w.unchained)
    | _              => w
  | .update i =>
    match w.tasks i with
    | .sealing prev (row :: rows) =>
      let hash := rowHash sha256 prev row.entry.at' row.entry.user row.entry.action row.entry.status
      (w.sealRow row.id prev hash).goto i (.sealing hash rows)
    | .sealing _ [] => w.finish i
    | _             => w
  | .abort i => w.finish i

end World

end SqlAuditSink
