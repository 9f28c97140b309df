import CoxAgent.Store.Theorems.Db

section

variable {J : Type} {c : Codec J} {w : World J} {st : SqlStateStore} {s : ProjectState}

@[simp]
theorem ask_eq (q : Sql.Req J) : ask q = .call q .done :=
  rfl

-- Requests that leave every row and the archive as they are.
def Harmless : Sql.Req J → Prop
  | .guardedSave _ _ _ _ _ | .claimTx _ _ _ _ | .deleteTx _ | .archivePut _ _ => False
  | _                                                                         => True

-- The write that a save ends with.
def writeOf (c : Codec J) (p : String) (s : ProjectState) (rev : Int) : Sql.Req J :=
  .guardedSave p (min s.schemaVersion (2 ^ 31 - 1)) (c.ofState s) rev (shardDoc c s)

section Calls

open SqlStateStore

variable {P : Sql.Req J → Prop} {rev : Int} {expected : Option Int}

-- What holds of harmless requests and of writes of clean states holds of all requests of the saves.
theorem calls_refuse {refused : RefusedSave} (hh : ∀ q, Harmless q → P q) :
    (st.refuse refused).Calls P := by
  unfold refuse
  cases refused.quarantined
  case none => trivial
  case some entry =>
    simp only [ask_eq, Prog.call_bind, Prog.done_bind, Prog.pure_eq, Prog.calls_call]
    refine ⟨hh _ trivial, fun gone => ?_⟩
    split
    case isTrue  => trivial
    case isFalse => exact ⟨hh _ trivial, fun _ => trivial⟩

theorem calls_upsert (hh : ∀ q, Harmless q → P q) (hw : P (writeOf c st.projectId s rev)) :
    (st.upsert c s rev).Calls P := by
  simp only [upsert, ask_eq, Prog.call_bind, Prog.done_bind, Prog.pure_eq, Prog.calls_call]
  refine ⟨hw, fun rows => ?_⟩
  split
  case isTrue =>
    refine ⟨hh _ trivial, fun gone => ?_⟩
    dsimp only
    split <;> trivial
  case isFalse => trivial

theorem calls_persistAtRevision (hh : ∀ q, Harmless q → P q)
    (hw : ∀ s rev, s.Clean → P (writeOf c st.projectId s rev)) :
    (st.persistAtRevision c s expected).Calls P := by
  simp only [persistAtRevision, ask_eq, Prog.call_bind, Prog.done_bind, Prog.calls_call]
  refine ⟨hh _ trivial, fun deleted => ?_⟩
  split
  case isTrue => trivial
  case isFalse =>
    split
    case h_1 => exact calls_refuse hh
    case h_2 s' hg =>
      have hc := ProjectState.gateSave_ok_clean hg
      split
      case h_1 => exact calls_upsert hh (hw s' _ hc)
      case h_2 =>
        simp only [loadVersioned, ask_eq, Prog.call_bind, Prog.done_bind, Prog.pure_eq,
          Prog.calls_call]
        refine ⟨hh _ trivial, fun row => ?_⟩
        split
        case h_1 => trivial
        case h_2 => exact calls_upsert hh (hw s' _ hc)

theorem calls_saveShardExpecting {shard : StateShard} (hh : ∀ q, Harmless q → P q)
    (hw : ∀ s rev, s.Clean → P (writeOf c st.projectId s rev)) :
    (st.saveShardExpecting c shard expected).Calls P := by
  simp only [saveShardExpecting, loadVersioned, ask_eq, Prog.call_bind, Prog.done_bind,
    Prog.pure_eq, Prog.calls_call]
  refine ⟨hh _ trivial, fun row => ?_⟩
  split
  case h_1 => trivial
  case h_2 => exact calls_persistAtRevision hh hw

theorem calls_loadShard {kind : ShardKind} (hh : ∀ q, Harmless q → P q) :
    (st.loadShard c kind).Calls P := by
  simp only [loadShard, load, loadVersioned, ask_eq, Prog.call_bind, Prog.done_bind, Prog.pure_eq,
    Prog.calls_call]
  refine ⟨hh _ trivial, fun payload => ?_⟩
  split
  case h_1 => trivial
  case h_2 => trivial
  case h_3 =>
    refine ⟨hh _ trivial, fun row => ?_⟩
    dsimp only
    split <;> trivial

theorem calls_mutateState {f : ProjectState → Except PortError ProjectState}
    (hh : ∀ q, Harmless q → P q) (hw : ∀ s rev, s.Clean → P (writeOf c st.projectId s rev)) :
    (st.mutateState c f).Calls P := by
  suffices hgo : ∀ n last, (mutateState.go c st f n last).Calls P from hgo _ _
  intro n
  induction n
  case zero => exact fun _ => trivial
  case succ n hi =>
    intro last
    simp only [mutateState.go, load, loadVersioned, ask_eq, Prog.call_bind, Prog.done_bind,
      Prog.pure_eq, Prog.calls_call]
    refine ⟨hh _ trivial, fun row => ?_⟩
    split
    case h_1 => trivial
    case h_2 =>
      split
      case h_1 => trivial
      case h_2 =>
        refine (calls_persistAtRevision hh hw).bind fun r => ?_
        split
        case h_1 => trivial
        case h_2 => exact hi _
        case h_3 => trivial

end Calls

namespace Session

variable {α : Type} {prog : SqlProg J α}

-- What holds of the requests of every operation holds of the requests of a session.
theorem calls {P : Sql.Req J → Prop} (h : ∀ (st : SqlStateStore) (o : Op), (o.prog c st).Calls P)
    (hs : Session c prog) : prog.Calls P := by
  induction hs
  case done      => trivial
  case op st o k _ hi => exact (h st o).bind hi

-- What one session does alone can be reached.
theorem reachable {prog : SqlProg J Unit} (h : Session c prog) :
    Reachable c (prog.eval (sql c) {}).2 := by
  have ⟨n, hn⟩ := Sys.run_alone (S := sql c) (s := Sys.init {} fun _ : Fin 1 => prog) 0
  exact ⟨1, fun _ => prog, List.replicate n 0, fun _ => h, hn.symm⟩

end Session

namespace SqlStateStore

-- The revision of a project, 0 as long as it has no row.
def revision (st : SqlStateStore) (w : World J) : Int :=
  w.rows st.projectId |>.elim 0 (·.revision)

-- A refused write leaves the row alone.
theorem eval_refuse (refused : RefusedSave) :
    ((st.refuse refused).eval (sql c) w).1 = .error refused.error ∧
    ((st.refuse refused).eval (sql c) w).2.rows = w.rows := by
  unfold refuse
  cases refused.quarantined
  case none => exact ⟨rfl, rfl⟩
  case some entry =>
    cases h : w.tombstones st.projectId <;> simp [sql, h, World.persistEntry]

-- The write to a project that is not deleted goes through iff there is no row yet or the row has the
-- expected revision.
theorem eval_upsert_none {rev : Int} (ht : w.tombstones st.projectId = false)
    (hr : w.rows st.projectId = none) :
    ((st.upsert c s rev).eval (sql c) w).1 = .ok () ∧
    st.revision ((st.upsert c s rev).eval (sql c) w).2 = 1 := by
  simp [upsert, sql, World.guardedSave, ht, hr, revision]

theorem eval_upsert_eq {rev : Int} {row : Row J} (ht : w.tombstones st.projectId = false)
    (hr : w.rows st.projectId = some row) (he : row.revision = rev) :
    ((st.upsert c s rev).eval (sql c) w).1 = .ok () ∧
    st.revision ((st.upsert c s rev).eval (sql c) w).2 = rev + 1 := by
  simp [upsert, sql, World.guardedSave, ht, hr, he, revision]

theorem eval_upsert_ne {rev : Int} {row : Row J} (ht : w.tombstones st.projectId = false)
    (hr : w.rows st.projectId = some row) (he : row.revision ≠ rev) :
    ((st.upsert c s rev).eval (sql c) w).1 = .error conflict ∧
    ((st.upsert c s rev).eval (sql c) w).2.rows = w.rows := by
  simp [upsert, sql, World.guardedSave, ht, hr, he]

end SqlStateStore

end

variable {J ι α : Type} {c : Codec J} {w : World J} {p : String} {q : Sql.Req J}

-- A deleted project: its tombstone is armed and it has no row.
def Gone (p : String) (w : World J) : Prop :=
  w.tombstones p = true ∧ w.rows p = none

theorem gone_deleteTx : Gone p (w.deleteTx p) := by
  simp [Gone, World.deleteTx]

-- Every write of a row finds the tombstone, and a claim finds no row.
theorem gone_sql (h : Gone p w) (hq : q ≠ .clearTombstone p) : Gone p (sql c q w).2 := by
  refine ⟨sql_tombstones h.left hq, ?_⟩
  have ⟨ht, hr⟩ := h
  have hs : RowStep c w p q ((sql c q w).2.rows p) := sql_rowStep
  generalize (sql c q w).2.rows p = row at hs ⊢
  cases hs
  case same h₁     => exact h₁.trans hr
  case insert h₁ _ => simp [h₁] at ht
  case update h₁ _ => simp [h₁] at ht
  case claim h₁ _ _ => simp [h₁] at hr
  case delete      => rfl

-- The log has a delete of the project that no connect has followed yet.
def DeletedSince (p : String) (log : List (Entry (Sql.iface J) ι)) : Prop :=
  ∃ before i after, log = before ++ ⟨i, .deleteTx p, ()⟩ :: after ∧
    ∀ e ∈ after, e.req ≠ Sql.Req.clearTombstone p

theorem deletedSince_snoc {log : List (Entry (Sql.iface J) ι)} {e : Entry (Sql.iface J) ι}
    (h : DeletedSince p (log ++ [e])) :
    e.req = Sql.Req.deleteTx p ∨ (DeletedSince p log ∧ e.req ≠ Sql.Req.clearTombstone p) := by
  have ⟨before, i, after, he, hc⟩ := h
  cases List.eq_nil_or_concat after
  case inl ha =>
    have hl : log ++ [e] = before ++ [⟨i, .deleteTx p, ()⟩] := by simpa [ha] using he
    have hl := (List.append_inj' hl rfl).right
    exact .inl (by rw [List.singleton_inj.mp hl])
  case inr ha =>
    have ⟨after', e', ha⟩ := ha
    have hl : log ++ [e] = (before ++ ⟨i, .deleteTx p, ()⟩ :: after') ++ [e'] := by
      simpa [ha] using he
    have ⟨hl, hr⟩ := List.append_inj' hl rfl
    have hr := List.singleton_inj.mp hr
    refine .inr ⟨⟨before, i, after', hl, fun e₁ h₁ => hc e₁ (by simp [ha, h₁])⟩, ?_⟩
    exact hc e (by simp [ha, hr])

variable [DecidableEq ι]

-- A deleted project stays deleted: whatever the processes do with their store instances, in every
-- state between a delete and the next connect the project has no row.
theorem deleted_stays_deleted (prog : ι → SqlProg J α) (sched : List ι)
    (h : DeletedSince p (Sys.run (sql c) (Sys.init w prog) sched).log) :
    (Sys.run (sql c) (Sys.init w prog) sched).world.rows p = none := by
  suffices hi : ∀ sched, DeletedSince p (Sys.run (sql c) (Sys.init w prog) sched).log →
      Gone p (Sys.run (sql c) (Sys.init w prog) sched).world from (hi sched h).right
  intro sched
  apply Sys.run_inv (P := fun s => DeletedSince p s.log → Gone p s.world)
  · intro ⟨before, i, after, he, _⟩
    simp [Sys.init] at he
  · intro s i hi hd
    cases hp : s.prog i
    case done =>
      rw [Sys.step_done hp] at hd ⊢
      exact hi hd
    case call q k =>
      rw [Sys.step_call hp] at hd ⊢
      cases deletedSince_snoc hd
      case inl hq =>
        cases hq
        exact gone_deleteTx
      case inr hq => exact gone_sql (hi hq.left) hq.right

-- A save that has passed its check of the flag when another instance deletes the project.
theorem deleted_stays_deleted_late_save :
    (Sys.run (sql Codec.plain) (Sys.init {} fun i : Fin 2 =>
        if i = 0 then SqlStateStore.save Codec.plain ⟨0, "cxa"⟩ {} else SqlStateStore.delete ⟨1, "cxa"⟩)
      [0, 1, 1, 0, 0]).world.rows "cxa" = none :=
  deleted_stays_deleted _ _ ⟨[⟨0, .isDeleted 0, false⟩, ⟨1, .markDeleted 1, ()⟩], 1,
    [⟨0, .selectRow "cxa", none⟩, ⟨0, _, 0⟩], rfl, by simp⟩
