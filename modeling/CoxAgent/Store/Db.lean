import CoxAgent.Lib.Interleaving
import CoxAgent.State.Integrity
import CoxAgent.State.Shards

-- What the ledger keeps of a refused write. The ledger adds the time and writes the payload as text.
structure QuarantineEntry where
  ruleId  : String
  detail  : String
  payload : ProjectState

structure RefusedSave where
  error       : PortError
  quarantined : Option QuarantineEntry

def recordRefusal (violation : IntegrityViolation) (payload : ProjectState) : QuarantineEntry where
  ruleId  := violation.findings.head?.elim "" (·.ruleId)
  detail  := .ofList <| violation.display.toList.take 2000
  payload := payload

-- The gate every write of the aggregate passes: validate, audit, and repair what can be repaired. It
-- returns the state that is to be stored.
def gateSave (s : ProjectState) : Except RefusedSave ProjectState :=
  match s.validate with
  | .error e => .error ⟨.corrupt s!"refusing to save invalid state: {e}", none⟩
  | .ok _    =>
    let findings := s.auditStructuralIntegrity
    if findings = [] then
      .ok s
    else
      let refused (s : ProjectState) : RefusedSave :=
        let violation : IntegrityViolation := ⟨findings⟩
        ⟨.corrupt
          s!"refusing to save state failing structural integrity audit: {violation.display}",
          some (recordRefusal violation s)⟩
      match s.healDanglingReferences with
      | (.ok healed, s') => if healed > 0 then .ok s' else .error (refused s')
      | (.error _, s')   => .error (refused s')

-- The JSON encoding of states and shards, with the round trips that the store relies on. Decoding
-- fails with the text of the error.
structure Codec (J : Type) where
  ofState         : ProjectState → J
  toState         : J → Except String ProjectState
  ofShard         : ShardData → J
  toShard         : ShardKind → J → Except String ShardData
  toState_ofState : ∀ s, toState (ofState s) = .ok s
  toShard_ofShard : ∀ d, toShard d.kind (ofShard d) = .ok d

-- The documents of an encoding that loses nothing because it does not encode.
inductive Doc
  | state (s : ProjectState)
  | shard (d : ShardData)

def Codec.plain : Codec Doc where
  ofState := .state
  toState
    | .state s => .ok s
    | .shard _ => .error "not a state"
  ofShard := .shard
  toShard kind
    | .state _ => .error "not a shard"
    | .shard d => if d.kind = kind then .ok d else .error "another shard"
  toState_ofState _ := rfl
  toShard_ofShard _ := if_pos rfl

-- A row of `project_state`. A column of a shard is null if the row was written before there were
-- shards.
structure Row (J : Type) where
  schemaVersion : Nat
  revision      : Int
  data          : J
  shards        : ShardKind → Option J

-- The shared database together with the `deleted` flag of each store instance, the cold archive and
-- the outcomes of the coming archive writes (`true` for a failure).
structure World (J : Type) where
  rows       : String → Option (Row J)         := fun _ => none
  tombstones : String → Bool                   := fun _ => false
  ledger     : String → List QuarantineEntry   := fun _ => []
  deleted    : Nat → Bool                      := fun _ => false
  archive    : String → String → Option Ticket := fun _ _ => none
  putFaults  : List Bool                       := []

namespace Sql

-- The requests of the adapter: one for each SQL statement or transaction and one for each access to
-- an instance's flag.
inductive Req (J : Type)
  | isDeleted (handle : Nat)
  | markDeleted (handle : Nat)
  | selectRow (p : String)
  | selectRevision (p : String)
  | selectShard (p : String) (kind : ShardKind)
  | guardedSave (p : String) (schemaVersion : Nat) (data : J) (expected : Int)
      (doc : ShardKind → J)
  | tombstoneExists (p : String)
  | claimTx (p : String) (id : TicketId) (worker now : String)
  | deleteTx (p : String)
  | clearTombstone (p : String)
  | persistEntry (p : String) (entry : QuarantineEntry)
  | archivePut (project : String) (t : Ticket)

@[reducible]
def Rep {J : Type} : Req J → Type
  | .isDeleted _             => Bool
  | .markDeleted _           => Unit
  | .selectRow _             => Option (Int × J)
  | .selectRevision _        => Option Int
  | .selectShard _ _         => Option (Option J)
  -- The number of rows affected.
  | .guardedSave _ _ _ _ _   => Nat
  | .tombstoneExists _       => Bool
  | .claimTx _ _ _ _         => Except PortError Bool
  | .deleteTx _              => Unit
  | .clearTombstone _        => Unit
  | .persistEntry _ _        => Unit
  | .archivePut _ _          => Bool

@[reducible]
def iface (J : Type) : Iface where
  Req := Req J
  Rep := Rep

end Sql

-- A program that talks to the database.
abbrev SqlProg (J : Type) := Prog (Sql.iface J)

def ask {J : Type} (q : Sql.Req J) : SqlProg J (Sql.Rep q) :=
  Prog.request (I := Sql.iface J) q

-- The newest entries a project's ledger is cut down to.
def maxQuarantine : Nat := 50

namespace World

variable {J : Type}

def setRow (w : World J) (p : String) (row : Option (Row J)) : World J :=
  { w with rows := Function.update w.rows p row }

def selectRow (w : World J) (p : String) : Option (Int × J) :=
  w.rows p |>.map fun row => (row.revision, row.data)

-- The guarded upsert. Both branches check the tombstone; only the update checks the revision.
def guardedSave (w : World J) (p : String) (schemaVersion : Nat) (data : J) (expected : Int)
    (doc : ShardKind → J) : Nat × World J :=
  if w.tombstones p then
    (0, w)
  else
    match w.rows p with
    | none     => (1, w.setRow p <| some {
        schemaVersion
        revision := 1
        data
        shards   := fun kind => some (doc kind)
      })
    | some row =>
      if row.revision = expected then
        (1, w.setRow p <| some {
          schemaVersion
          revision := row.revision + 1
          data
          shards   := fun kind => some (doc kind)
        })
      else
        (0, w)

-- Claim a ticket of a state. `none` if the ticket is not there, taken or not claimable.
def claimIn (s : ProjectState) (id : TicketId) (worker now : String) : Option ProjectState :=
  go s.tickets |>.map fun tickets => { s with tickets }
where
  go : List Ticket → Option (List Ticket)
    | []      => none
    | t :: ts =>
      if t.id = id then
        if t.claimedBy.isSome then
          none
        else
          match t.claim .system worker now with
          | .ok t'   => some (t' :: ts)
          | .error _ => none
      else
        (t :: ·) <$> go ts

-- The claim transaction: it neither validates nor looks at the schema version or the tombstone.
def claimTx (c : Codec J) (w : World J) (p : String) (id : TicketId) (worker now : String) :
    Except PortError Bool × World J :=
  match w.rows p with
  | none     => (.ok false, w)
  | some row =>
    match c.toState row.data with
    | .error e => (.error (.corrupt s!"row not decodable: {e}"), w)
    | .ok s    =>
      match claimIn s id worker now with
      | none    => (.ok false, w)
      | some s' => (.ok true, w.setRow p <| some { row with
          revision := row.revision + 1
          data     := c.ofState s'
          shards   := fun kind => some (c.ofShard (s'.shard kind).data)
        })

-- The delete transaction arms the tombstone and purges the row and the ledger.
def deleteTx (w : World J) (p : String) : World J :=
  { w.setRow p none with
    tombstones := Function.update w.tombstones p true
    ledger     := Function.update w.ledger p []
  }

def persistEntry (w : World J) (p : String) (entry : QuarantineEntry) : World J :=
  let entries := w.ledger p ++ [entry]
  { w with ledger := Function.update w.ledger p (entries.drop (entries.length - maxQuarantine)) }

def archivePut (w : World J) (project : String) (t : Ticket) : Bool × World J :=
  match w.putFaults with
  | true :: faults => (false, { w with putFaults := faults })
  | faults         => (true, { w with
      putFaults := faults.tail
      archive   := Function.update w.archive project
        (Function.update (w.archive project) t.id.asStr (some t))
    })

end World

open Sql in
def sql {J : Type} (c : Codec J) : Service (Sql.iface J) (World J)
  | .isDeleted h, w                    => (w.deleted h, w)
  | .markDeleted h, w                  => ((), { w with deleted := Function.update w.deleted h true })
  | .selectRow p, w                    => (w.selectRow p, w)
  | .selectRevision p, w               => (w.rows p |>.map (·.revision), w)
  | .selectShard p kind, w             => (w.rows p |>.map (·.shards kind), w)
  | .guardedSave p v data rev doc, w   => w.guardedSave p v data rev doc
  | .tombstoneExists p, w              => (w.tombstones p, w)
  | .claimTx p id worker now, w        => w.claimTx c p id worker now
  | .deleteTx p, w                     => ((), w.deleteTx p)
  | .clearTombstone p, w               =>
    ((), { w with tombstones := Function.update w.tombstones p false })
  | .persistEntry p entry, w           => ((), w.persistEntry p entry)
  | .archivePut project t, w           => w.archivePut project t
