import CoxAgent.Store.Db

-- A store instance: the handle names its flag, the project id scopes all of its requests.
structure SqlStateStore where
  handle    : Nat
  projectId : String

-- The payload that a shard read serves for a project that was never written.
def defaultShard : ShardKind → StateShard
  | .work       => .new (.work {})
  | .social     => .new (.social {})
  | .docs       => .new (.docs {})
  | .governance => .new (.governance {})
  | .ops        => .new (.ops {})

-- The text of a kind in messages.
def ShardKind.debug : ShardKind → String
  | work       => "Work"
  | social     => "Social"
  | docs       => "Docs"
  | governance => "Governance"
  | ops        => "Ops"

-- The error of a write that hit a deleted project.
def refusal (projectId : String) : PortError :=
  .backend s!"[{projectId}] write refused: project was deleted"

def conflict : PortError :=
  .conflict "state changed since last read (concurrent writer)"

variable {J : Type} (c : Codec J)

-- A row as `(revision, state)`. A document of a newer schema is refused.
def decodeRow : Option (Int × J) → Except PortError (Int × ProjectState)
  | none              => .ok (0, {})
  | some (rev, value) =>
    match c.toState value with
    | .error e => .error (.corrupt s!"row not decodable: {e}")
    | .ok s    =>
      if s.schemaVersion > schemaVersionSupported then
        .error (.corrupt
          s!"state schema_version {s.schemaVersion} newer than supported {schemaVersionSupported}")
      else
        .ok (rev, s)

-- A column of a shard. Only the work shard carries the version of the schema.
def decodeShard (kind : ShardKind) (payload : J) : Except PortError StateShard :=
  match c.toShard kind payload with
  | .error e          => .error (.corrupt s!"{kind.debug} shard payload not decodable: {e}")
  | .ok (.work data)  =>
    if data.schemaVersion > schemaVersionSupported then
      .error (.corrupt (s!"work shard schema_version {data.schemaVersion} newer than supported " ++
        s!"{schemaVersionSupported}"))
    else
      .ok (.new (.work data))
  | .ok data          => .ok (.new data)

-- The columns of a state.
def shardDoc (s : ProjectState) (kind : ShardKind) : J :=
  c.ofShard (s.shard kind).data

namespace SqlStateStore

open Sql

variable (st : SqlStateStore)

def connect : SqlProg J (Except PortError Unit) := do
  let _ ← ask (.clearTombstone st.projectId)
  return .ok ()

def loadVersioned : SqlProg J (Except PortError (Int × ProjectState)) := do
  let row ← ask (.selectRow st.projectId)
  return decodeRow c row

def load : SqlProg J (Except PortError ProjectState) := do
  let row ← st.loadVersioned c
  return row.map Prod.snd

def currentVersion : SqlProg J (Except PortError (Option Int)) := do
  let rev ← ask (.selectRevision st.projectId)
  return .ok (some (rev.getD 0))

-- A refused write is recorded durably unless the project is gone.
def refuse (refused : RefusedSave) : SqlProg J (Except PortError Unit) := do
  match refused.quarantined with
  | none       => return .error refused.error
  | some entry =>
    if ← ask (.tombstoneExists st.projectId) then
      return .error refused.error
    else
      let _ ← ask (.persistEntry st.projectId entry)
      return .error refused.error

-- The write itself, with the revision it is conditional on. The number of rows does not tell a stale
-- revision from a deleted project, so that is looked up afterwards.
def upsert (s : ProjectState) (expected : Int) : SqlProg J (Except PortError Unit) := do
  let rows ← ask <| .guardedSave st.projectId
    (min s.schemaVersion (2 ^ 31 - 1)) (c.ofState s) expected (shardDoc c s)
  if (rows : Nat) = 0 then
    if ← ask (.tombstoneExists st.projectId) then
      return .error (refusal st.projectId)
    else
      return .error conflict
  else
    return .ok ()

-- Without a revision from the caller the row is read again just before the write.
def persistAtRevision (s : ProjectState) (expected : Option Int) :
    SqlProg J (Except PortError Unit) := do
  if ← ask (.isDeleted st.handle) then
    return .error (refusal st.projectId)
  else
    match gateSave s with
    | .error refused => st.refuse refused
    | .ok s          =>
      match expected with
      | some rev => st.upsert c s rev
      | none     =>
        match ← st.loadVersioned c with
        | .error e     => return .error e
        | .ok (rev, _) => st.upsert c s rev

def save (s : ProjectState) : SqlProg J (Except PortError Unit) :=
  st.persistAtRevision c s none

def saveExpecting (s : ProjectState) (expected : Option Int) : SqlProg J (Except PortError Unit) :=
  st.persistAtRevision c s expected

-- The column of the shard. A null column falls back to the whole document.
def loadShard (kind : ShardKind) : SqlProg J (Except PortError StateShard) := do
  match ← ask (.selectShard st.projectId kind) with
  | none              => return .ok (defaultShard kind)
  | some (some value) => return decodeShard c kind value
  | some none         =>
    match ← st.load c with
    | .error e => return .error e
    | .ok s    => return .ok (s.shard kind)

-- The merge base and its revision come from one read.
def saveShardExpecting (shard : StateShard) (expected : Option Int) :
    SqlProg J (Except PortError Unit) := do
  match ← st.loadVersioned c with
  | .error e     => return .error e
  | .ok (rev, s) => st.persistAtRevision c (s.withShard shard) (some (expected.getD rev))

def saveShard (shard : StateShard) : SqlProg J (Except PortError Unit) :=
  st.saveShardExpecting c shard none

def claimTicket (id : TicketId) (worker now : String) : SqlProg J (Except PortError Bool) := do
  if ← ask (.isDeleted st.handle) then
    return .ok false
  else
    let won ← ask (.claimTx st.projectId id worker now)
    return won

-- The flag of the instance is set before the rows go.
def delete : SqlProg J (Except PortError Unit) := do
  let _ ← ask (.markDeleted st.handle)
  let _ ← ask (.deleteTx st.projectId)
  return .ok ()

-- How often the read-modify-write helpers start over after a conflict.
def mutateAttempts : Nat := 12

def mutateState (f : ProjectState → Except PortError ProjectState) :
    SqlProg J (Except PortError Unit) :=
  go mutateAttempts (.conflict "mutate: no attempts")
where
  go : Nat → PortError → SqlProg J (Except PortError Unit)
    | 0,     last => return .error last
    | n + 1, _    => do
      match ← st.load c with
      | .error e => return .error e
      | .ok s    =>
        match f s with
        | .error e => return .error e
        | .ok s    =>
          match ← st.save c s with
          | .ok _                => return .ok ()
          | .error (.conflict e) => go n (.conflict e)
          | .error other         => return .error other

def mutateShard (kind : ShardKind) (f : ShardData → Except PortError ShardData) :
    SqlProg J (Except PortError Unit) :=
  go mutateAttempts (.conflict "mutate_shard: no attempts")
where
  go : Nat → PortError → SqlProg J (Except PortError Unit)
    | 0,     last => return .error last
    | n + 1, _    => do
      match ← st.loadShard c kind with
      | .error e  => return .error e
      | .ok shard =>
        match f shard.data with
        | .error e => return .error e
        | .ok data =>
          match ← st.saveShard c { shard with data } with
          | .ok _                => return .ok ()
          | .error (.conflict e) => go n (.conflict e)
          | .error other         => return .error other

end SqlStateStore

-- The operations of the adapter.
inductive Op
  | connect
  | load
  | currentVersion
  | save (s : ProjectState)
  | saveExpecting (s : ProjectState) (expected : Option Int)
  | loadShard (kind : ShardKind)
  | saveShard (shard : StateShard)
  | saveShardExpecting (shard : StateShard) (expected : Option Int)
  | claimTicket (id : TicketId) (worker now : String)
  | delete

namespace Op

@[reducible]
def Res : Op → Type
  | connect                => Unit
  | load                   => ProjectState
  | currentVersion         => Option Int
  | save _                 => Unit
  | saveExpecting _ _      => Unit
  | loadShard _            => StateShard
  | saveShard _            => Unit
  | saveShardExpecting _ _ => Unit
  | claimTicket _ _ _      => Bool
  | delete                 => Unit

def prog {J : Type} (c : Codec J) (st : SqlStateStore) : (o : Op) → SqlProg J (Except PortError o.Res)
  | connect                     => st.connect
  | load                        => st.load c
  | currentVersion              => st.currentVersion
  | save s                      => st.save c s
  | saveExpecting s rev         => st.saveExpecting c s rev
  | loadShard kind              => st.loadShard c kind
  | saveShard shard             => st.saveShard c shard
  | saveShardExpecting shard rev => st.saveShardExpecting c shard rev
  | claimTicket id worker now   => st.claimTicket id worker now
  | delete                      => st.delete

end Op

-- What a process does with its store instances: one operation after the other, where each may depend
-- on the results of those before it.
inductive Session {J : Type} (c : Codec J) {α : Type} : SqlProg J α → Prop
  | done (a : α) : Session c (.done a)
  | op {st : SqlStateStore} {o : Op} {k : Except PortError o.Res → SqlProg J α} :
      (∀ r, Session c (k r)) → Session c (o.prog c st >>= k)

-- The databases that any number of processes can bring about from an empty one.
def Reachable {J : Type} (c : Codec J) (w : World J) : Prop :=
  ∃ (n : Nat) (prog : Fin n → SqlProg J Unit) (sched : List (Fin n)),
    (∀ i, Session c (prog i)) ∧ w = (Sys.run (sql c) (Sys.init {} prog) sched).world
