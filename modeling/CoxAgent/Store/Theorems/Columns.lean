import CoxAgent.Store.Theorems.Sql

section Cas

namespace SqlStateStore

variable {J : Type} {c : Codec J} {w : World J} {st : SqlStateStore} {s : ProjectState} {rev : Int}

-- The write is conditional on exactly the revision it names.
structure CasExact (c : Codec J) (w : World J) (st : SqlStateStore) (s : ProjectState) (rev : Int) :
    Prop where
  succeeds : ((st.saveExpecting c s (some rev)).eval (sql c) w).1 = .ok () ↔
               (∃ s', gateSave s = .ok s') ∧ rev = st.revision w
  bumps    : ((st.saveExpecting c s (some rev)).eval (sql c) w).1 = .ok () →
               st.revision ((st.saveExpecting c s (some rev)).eval (sql c) w).2 = rev + 1
  keeps    : ((st.saveExpecting c s (some rev)).eval (sql c) w).1 ≠ .ok () →
               ((st.saveExpecting c s (some rev)).eval (sql c) w).2.rows st.projectId =
                 w.rows st.projectId

-- An instance that has deleted the project refuses every write.
theorem eval_saveExpecting_deleted (h : w.deleted st.handle = true) :
    (st.saveExpecting c s (some rev)).eval (sql c) w = (.error (refusal st.projectId), w) := by
  simp [saveExpecting, persistAtRevision, sql, h]

theorem eval_saveExpecting_refused {refused : RefusedSave} (h : w.deleted st.handle = false)
    (hg : gateSave s = .error refused) :
    (st.saveExpecting c s (some rev)).eval (sql c) w = (st.refuse refused).eval (sql c) w := by
  simp [saveExpecting, persistAtRevision, sql, h, hg]

theorem eval_saveExpecting_ok {s' : ProjectState} (h : w.deleted st.handle = false)
    (hg : gateSave s = .ok s') :
    (st.saveExpecting c s (some rev)).eval (sql c) w = (st.upsert c s' rev).eval (sql c) w := by
  simp [saveExpecting, persistAtRevision, sql, h, hg]

theorem casExact_deleted (hd : w.deleted st.handle = true) :
    CasExact c w st s rev ↔ ((∃ s', gateSave s = .ok s') → rev ≠ st.revision w) := by
  constructor
  case mp =>
    intro h
    have := h.succeeds
    simpa only [eval_saveExpecting_deleted hd, reduceCtorEq, false_iff, not_and] using this
  case mpr =>
    intro h
    constructor <;> simp only [eval_saveExpecting_deleted hd, reduceCtorEq, false_iff, not_and,
      false_implies, implies_true]
    exact h

theorem casExact_refused {refused : RefusedSave} (hd : w.deleted st.handle = false)
    (hg : gateSave s = .error refused) : CasExact c w st s rev := by
  have ⟨he, hw⟩ : _ ∧ ((st.refuse refused).eval (sql c) w).2.rows = w.rows := eval_refuse refused
  constructor <;> simp [eval_saveExpecting_refused hd hg, he, hw, hg]

-- The insert branch does not look at the revision.
theorem casExact_absent {s' : ProjectState} (ht : w.tombstones st.projectId = false)
    (hd : w.deleted st.handle = false) (hg : gateSave s = .ok s')
    (hr : w.rows st.projectId = none) : CasExact c w st s rev ↔ rev = 0 := by
  have ⟨hok, hv⟩ : ((st.upsert c s' rev).eval (sql c) w).1 = .ok () ∧ _ := eval_upsert_none ht hr
  have h0 : st.revision w = 0 := by simp [revision, hr]
  constructor
  case mp =>
    intro h
    rw [← eval_saveExpecting_ok hd hg] at hok
    exact (h.succeeds.mp hok).right.trans h0
  case mpr =>
    intro h
    subst h
    constructor <;> simp [eval_saveExpecting_ok hd hg, hok, hv, hg, h0]

theorem casExact_present {s' : ProjectState} {row : Row J}
    (ht : w.tombstones st.projectId = false) (hd : w.deleted st.handle = false)
    (hg : gateSave s = .ok s') (hr : w.rows st.projectId = some row) : CasExact c w st s rev := by
  have hv : st.revision w = row.revision := by simp [revision, hr]
  by_cases he : row.revision = rev
  case pos =>
    obtain ⟨hok, hv'⟩ : ((st.upsert c s' rev).eval (sql c) w).1 = .ok () ∧ _ := eval_upsert_eq ht hr he
    constructor <;> simp [eval_saveExpecting_ok hd hg, hok, hv, hv', hg, he]
  case neg =>
    obtain ⟨herr, hw⟩ : ((st.upsert c s' rev).eval (sql c) w).1 = .error conflict ∧ _ :=
      eval_upsert_ne ht hr he
    constructor <;> simp [eval_saveExpecting_ok hd hg, herr, hw, hv, hg, Ne.symm he]

-- A conditional write is exact iff the gate refuses the state, or the instance has deleted the
-- project and the revision is stale, or it has not and there is a row or none is expected.
theorem casExact_iff (ht : w.tombstones st.projectId = false) :
    CasExact c w st s rev ↔ ((∃ s', gateSave s = .ok s') →
      if w.deleted st.handle then rev ≠ st.revision w
      else (w.rows st.projectId).isSome ∨ rev = 0) := by
  cases hd : w.deleted st.handle
  case true => simpa using casExact_deleted hd
  case false =>
    match hg : gateSave s with
    | .error refused => simp [casExact_refused hd hg]
    | .ok s'         =>
      match hr : w.rows st.projectId with
      | none     => simpa using casExact_absent ht hd hg hr
      | some row => simp [casExact_present ht hd hg hr]

-- One instance connects and saves twice.
def savedTwice : SqlProg Doc Unit := do
  let _ ← Op.connect.prog Codec.plain ⟨0, "cxa"⟩
  let _ ← (Op.save {}).prog Codec.plain ⟨0, "cxa"⟩
  let _ ← (Op.save { cycle := 1 }).prog Codec.plain ⟨0, "cxa"⟩

-- Another instance names the revision of the row that is there, or one before it.
theorem casExact_savedTwice :
    let w := (savedTwice.eval (sql Codec.plain) {}).2
    CasExact Codec.plain w ⟨1, "cxa"⟩ { cycle := 2 } 2 ∧ CasExact Codec.plain w ⟨1, "cxa"⟩ { cycle := 2 } 1 :=
  ⟨(casExact_iff rfl).mpr fun _ => .inl rfl, (casExact_iff rfl).mpr fun _ => .inl rfl⟩

-- One instance connects and saves, a second one deletes the project and a third one connects again.
def recreated : SqlProg Doc Unit := do
  let _ ← Op.connect.prog Codec.plain ⟨0, "cxa"⟩
  let _ ← (Op.save {}).prog Codec.plain ⟨0, "cxa"⟩
  let _ ← Op.delete.prog Codec.plain ⟨1, "cxa"⟩
  let _ ← Op.connect.prog Codec.plain ⟨2, "cxa"⟩

theorem session_recreated : Session Codec.plain recreated :=
  .op fun _ => .op fun _ => .op fun _ => .op fun _ => .done ()

-- The first instance still holds revision 1, which no longer exists. Its write is accepted.
theorem casExact_fails_recreated : ¬ ∀ (w : World Doc), Reachable Codec.plain w →
    ∀ (st : SqlStateStore) (s : ProjectState) (rev : Int), w.tombstones st.projectId = false →
      CasExact Codec.plain w st s rev := by
  intro h
  have hc := h _ session_recreated.reachable ⟨0, "cxa"⟩ {} 1 rfl
  have := (hc.succeeds.mp rfl).right
  revert this
  decide

end SqlStateStore

end Cas

section Columns

variable {J : Type} {c : Codec J} {w : World J} {p : String} {q : Sql.Req J} {row : Row J}
variable {st : SqlStateStore} {s : ProjectState} {kind : ShardKind}

-- A request that writes a document writes the columns of the same state with it.
def Coherent (c : Codec J) : Sql.Req J → Prop
  | .guardedSave _ _ data _ doc => ∃ s, data = c.ofState s ∧ doc = shardDoc c s
  | _                           => True

theorem coherent_harmless (h : Harmless q) : Coherent c q := by
  cases q <;> trivial

theorem coherent_op {o : Op} : (o.prog c st).Calls (Coherent c) := by
  have hh (q : Sql.Req J) : Harmless q → Coherent c q := coherent_harmless
  have hw (s : ProjectState) (rev : Int) (_ : s.Clean) :
      Coherent c (writeOf c st.projectId s rev) := ⟨s, rfl, rfl⟩
  cases o <;> simp only [Op.prog]
  case save               => exact calls_persistAtRevision hh hw
  case saveExpecting      => exact calls_persistAtRevision hh hw
  case saveShard          => exact calls_saveShardExpecting hh hw
  case saveShardExpecting => exact calls_saveShardExpecting hh hw
  case loadShard          => exact calls_loadShard hh
  case claimTicket        =>
    simp only [SqlStateStore.claimTicket, ask_eq, Prog.call_bind, Prog.done_bind, Prog.calls_call]
    refine ⟨trivial, fun deleted => ?_⟩
    split <;> simp [Coherent]
  all_goals
    simp [SqlStateStore.connect, SqlStateStore.load, SqlStateStore.loadVersioned,
      SqlStateStore.currentVersion, SqlStateStore.delete, Coherent]

-- Each column holds the projection of the state in the document.
def Agrees (c : Codec J) (row : Row J) : Prop :=
  ∃ s, row.data = c.ofState s ∧ ∀ kind, row.shards kind = some (shardDoc c s kind)

def AllAgree (c : Codec J) (w : World J) : Prop :=
  ∀ p row, w.rows p = some row → Agrees c row

-- Both branches of the upsert and the claim write all columns.
theorem allAgree_sql (hq : Coherent c q) (h : AllAgree c w) : AllAgree c (sql c q w).2 := by
  intro p row hr
  have hs : RowStep c w p q ((sql c q w).2.rows p) := sql_rowStep
  rw [hr] at hs
  cases hs
  case insert =>
    have ⟨s, hd, he⟩ := hq
    exact ⟨s, hd, fun kind => by simp [he]⟩
  case update =>
    have ⟨s, hd, he⟩ := hq
    exact ⟨s, hd, fun kind => by simp [he]⟩
  case claim s' _ _ _ => exact ⟨s', rfl, fun _ => rfl⟩
  case same h₁ => exact h p row h₁.symm

theorem allAgree_reachable (h : Reachable c w) : AllAgree c w := by
  have ⟨n, prog, sched, hs, he⟩ := h
  subst he
  refine Sys.run_world_inv (P := Coherent c) (J := AllAgree c) ?_ ?_ ?_
  · exact fun i => (hs i).calls fun _ _ => coherent_op
  · exact fun q w hq => allAgree_sql hq
  · intro p row hr
    contradiction

-- A shard read and a read of the whole document serve the same shard, if any.
def ReadsAgree (c : Codec J) (w : World J) (st : SqlStateStore) (kind : ShardKind) : Prop :=
  ∀ shard, ((st.loadShard c kind).eval (sql c) w).1 = .ok shard ↔
    ((st.load c).eval (sql c) w).1.map (·.shard kind) = .ok shard

theorem defaultShard_eq : defaultShard kind = ({} : ProjectState).shard kind := by
  cases kind <;> rfl

theorem decodeShard_work :
    (∃ e, decodeShard c .work (shardDoc c s .work) = .error e ∧
      s.schemaVersion > schemaVersionSupported) ∨
    (decodeShard c .work (shardDoc c s .work) = .ok (s.shard .work) ∧
      s.schemaVersion ≤ schemaVersionSupported) := by
  have hd : c.toShard .work (shardDoc c s .work) = .ok (s.shard .work).data :=
    c.toShard_ofShard (s.shard .work).data
  simp only [decodeShard, hd]
  by_cases h : s.schemaVersion > schemaVersionSupported
  case pos => exact .inl ⟨_, if_pos h, h⟩
  case neg => exact .inr ⟨if_neg h, Nat.le_of_not_lt h⟩

-- The other shards do not know the version of the schema.
theorem decodeShard_ne (h : kind ≠ .work) :
    decodeShard c kind (shardDoc c s kind) = .ok (s.shard kind) := by
  have hd : c.toShard kind (shardDoc c s kind) = .ok (s.shard kind).data := by
    have := c.toShard_ofShard (s.shard kind).data
    rwa [ProjectState.shard_data_kind] at this
  simp only [decodeShard, hd]
  cases kind <;> first | exact absurd rfl h | rfl

theorem readsAgree_absent (hr : w.rows st.projectId = none) : ReadsAgree c w st kind := by
  intro shard
  simp [SqlStateStore.loadShard, SqlStateStore.load, SqlStateStore.loadVersioned, sql, hr,
    World.selectRow, decodeRow, defaultShard_eq, Except.map]

theorem readsAgree_present {row : Row J} (hr : w.rows st.projectId = some row)
    (hd : row.data = c.ofState s) (hs : ∀ kind, row.shards kind = some (shardDoc c s kind)) :
    ReadsAgree c w st kind ↔ kind = .work ∨ s.schemaVersion ≤ schemaVersionSupported := by
  have hl : ((st.loadShard c kind).eval (sql c) w).1 = decodeShard c kind (shardDoc c s kind) := by
    simp [SqlStateStore.loadShard, sql, hr, hs]
  have hf : ((st.load c).eval (sql c) w).1 =
      (decodeRow c (some (row.revision, c.ofState s))).map Prod.snd := by
    simp [SqlStateStore.load, SqlStateStore.loadVersioned, sql, hr, World.selectRow, hd]
  simp only [ReadsAgree, hl, hf, decodeRow, c.toState_ofState]
  by_cases hk : kind = .work
  case pos =>
    subst hk
    cases decodeShard_work (c := c) (s := s)
    case inl h =>
      obtain ⟨e, he, hv⟩ := h
      simp [he, hv, Except.map]
    case inr h => simp [h.left, Nat.not_lt_of_le h.right, Except.map]
  case neg =>
    rw [decodeShard_ne hk]
    by_cases hv : s.schemaVersion > schemaVersionSupported
    case pos => simp [hk, hv, Except.map]
    case neg => simp [hv, Nat.le_of_not_lt hv, Except.map]

-- In every database the columns hold what the documents hold. What is read from them is the same too
-- unless the document is of a newer schema and the shard is not the one that says so.
theorem columns_agree_reads_agree_iff (h : Reachable c w) :
    AllAgree c w ∧ ∀ st kind, ReadsAgree c w st kind ↔
      kind = .work ∨ ∀ s, w.stored c st.projectId = some s →
        s.schemaVersion ≤ schemaVersionSupported := by
  have ha := allAgree_reachable h
  refine ⟨ha, fun st kind => ?_⟩
  cases hr : w.rows st.projectId
  case none =>
    simp [readsAgree_absent hr, World.stored, hr]
  case some row =>
    have ⟨s, hd, hs⟩ := ha _ row hr
    rw [readsAgree_present hr hd hs]
    simp [World.stored, hr, hd, c.toState_ofState, Except.toOption]

-- A process that saves once.
def saveOnce (s : ProjectState) : SqlProg Doc Unit := do
  let _ ← (Op.save s).prog Codec.plain ⟨0, "cxa"⟩

theorem session_saveOnce : Session Codec.plain (saveOnce s) :=
  .op fun _ => .done ()

theorem columns_agree_saved :
    AllAgree Codec.plain ((saveOnce {}).eval (sql Codec.plain) {}).2 ∧
    ReadsAgree Codec.plain ((saveOnce {}).eval (sql Codec.plain) {}).2 ⟨0, "cxa"⟩ .social := by
  have ⟨ha, hr⟩ := columns_agree_reads_agree_iff (session_saveOnce (s := {})).reachable
  refine ⟨ha, (hr _ _).mpr (.inr fun s hs => ?_)⟩
  cases hs
  decide

-- A state of version 2 can be saved. Its social shard is served although the document is refused.
theorem reads_disagree_newer_schema : ¬ ∀ (w : World Doc), Reachable Codec.plain w →
    AllAgree Codec.plain w ∧ ∀ st kind, ReadsAgree Codec.plain w st kind := by
  intro h
  have hr := (session_saveOnce (s := { schemaVersion := 2 })).reachable
  have := ((h _ hr).right ⟨0, "cxa"⟩ .social (({} : ProjectState).shard .social)).mp rfl
  contradiction

end Columns
