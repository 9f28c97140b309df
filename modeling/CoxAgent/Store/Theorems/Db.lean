import CoxAgent.State.Edit
import CoxAgent.State.Theorems.Integrity
import CoxAgent.Store.Db
import CoxAgent.Store.Sql

section

variable {J : Type} {c : Codec J} {w w' : World J} {p p' : String} {q : Sql.Req J}

namespace World

-- The state that a project has in the database. It is that of a fresh project as long as there is no
-- row, and `none` if the row cannot be decoded.
def stored (c : Codec J) (w : World J) (p : String) : Option ProjectState :=
  match w.rows p with
  | none     => some {}
  | some row => (c.toState row.data).toOption

@[simp]
theorem setRow_self {row : Option (Row J)} : (w.setRow p row).rows p = row := by
  simp [setRow]

@[simp]
theorem setRow_ne {row : Option (Row J)} (h : p' ≠ p) : (w.setRow p row).rows p' = w.rows p' := by
  simp [setRow, h]

@[simp]
theorem setRow_tombstones {row : Option (Row J)} : (w.setRow p row).tombstones = w.tombstones :=
  rfl

-- The two outcomes of the guarded upsert.
theorem guardedSave_cases (w : World J) (p : String) (v : Nat) (data : J) (rev : Int)
    (doc : ShardKind → J) :
    w.guardedSave p v data rev doc = (0, w) ∨
    ∃ n, w.tombstones p = false ∧ (w.rows p = none ∧ n = 1 ∨
        ∃ old, w.rows p = some old ∧ old.revision = rev ∧ n = rev + 1) ∧
      w.guardedSave p v data rev doc =
        (1, w.setRow p (some ⟨v, n, data, fun kind => some (doc kind)⟩)) := by
  unfold guardedSave
  split
  case isTrue => exact .inl rfl
  case isFalse ht =>
    have ht : w.tombstones p = false := by simpa using ht
    split
    case h_1 hr => exact .inr ⟨1, ht, .inl ⟨hr, rfl⟩, rfl⟩
    case h_2 old hr =>
      split
      case isTrue he  => exact .inr ⟨rev + 1, ht, .inr ⟨old, hr, he, rfl⟩, by rw [he]⟩
      case isFalse he => exact .inl rfl

-- The two outcomes of the claim transaction.
theorem claimTx_cases (c : Codec J) (w : World J) (p : String) (id : TicketId)
    (worker now : String) :
    (∃ r, r ≠ .ok true ∧ w.claimTx c p id worker now = (r, w)) ∨
    ∃ row s s', w.rows p = some row ∧ c.toState row.data = .ok s ∧
      claimIn s id worker now = some s' ∧ w.claimTx c p id worker now =
        (.ok true, w.setRow p (some ⟨row.schemaVersion, row.revision + 1, c.ofState s',
          fun kind => some (shardDoc c s' kind)⟩)) := by
  unfold claimTx
  cases hr : w.rows p
  case none => exact .inl ⟨_, by simp, rfl⟩
  case some row =>
    simp only
    cases hs : c.toState row.data
    case error => exact .inl ⟨_, by simp, rfl⟩
    case ok s =>
      simp only
      cases hc : claimIn s id worker now
      case none    => exact .inl ⟨_, by simp, rfl⟩
      case some s' => exact .inr ⟨row, s, s', rfl, hs, hc, rfl⟩

end World

-- The transaction of a claim changes the ticket like any other writer.
theorem ticketMut_of_claimIn {s s' : ProjectState} {id : TicketId} {worker now : String}
    (h : World.claimIn s id worker now = some s') :
    s.ticketMut id (·.claim .system worker now) = some (.ok s') := by
  suffices hgo : ∀ ts ts', World.claimIn.go id worker now ts = some ts' →
      ProjectState.ticketMut.go id (·.claim .system worker now) ts = some (.ok ts') by
    obtain ⟨ts, ht, he⟩ := Option.map_eq_some_iff.mp h
    rw [ProjectState.ticketMut, hgo _ _ ht, ← he]
    rfl
  intro ts
  induction ts
  case nil => simp [World.claimIn.go]
  case cons t ts hi =>
    intro ts' h
    unfold World.claimIn.go at h
    unfold ProjectState.ticketMut.go
    split at h
    case isTrue hid =>
      rw [if_pos hid]
      split at h <;> try contradiction
      split at h <;> try contradiction
      case h_1 t' ht =>
        cases h
        rw [ht]
        rfl
    case isFalse hid =>
      obtain ⟨us, hu, he⟩ := Option.map_eq_some_iff.mp h
      rw [if_neg hid, hi us hu, ← he]
      rfl

-- Everything a request can do to the row of a project.
inductive RowStep (c : Codec J) (w : World J) (p : String) : Sql.Req J → Option (Row J) → Prop
  | same {q : Sql.Req J} {row : Option (Row J)} : row = w.rows p → RowStep c w p q row
  | insert {v : Nat} {data : J} {expected : Int} {doc : ShardKind → J} :
      w.tombstones p = false → w.rows p = none →
      RowStep c w p (.guardedSave p v data expected doc) (some ⟨v, 1, data, fun k => some (doc k)⟩)
  | update {v : Nat} {data : J} {doc : ShardKind → J} {row : Row J} :
      w.tombstones p = false → w.rows p = some row →
      RowStep c w p (.guardedSave p v data row.revision doc)
        (some ⟨v, row.revision + 1, data, fun k => some (doc k)⟩)
  | claim {id : TicketId} {worker now : String} {row : Row J} {s s' : ProjectState} :
      w.rows p = some row → c.toState row.data = .ok s →
      World.claimIn s id worker now = some s' →
      RowStep c w p (.claimTx p id worker now)
        (some ⟨row.schemaVersion, row.revision + 1, c.ofState s', fun k => some (shardDoc c s' k)⟩)
  | delete : RowStep c w p (.deleteTx p) none

-- A request that writes one row does nothing to the others.
theorem RowStep.setRow {row : Option (Row J)} (h : p = p' → RowStep c w p q row) :
    RowStep c w p q ((w.setRow p' row).rows p) := by
  by_cases hp : p = p'
  case pos =>
    rw [hp, World.setRow_self, ← hp]
    exact h hp
  case neg =>
    rw [World.setRow_ne hp]
    exact .same rfl

theorem rowStep_guardedSave {v : Nat} {data : J} {expected : Int} {doc : ShardKind → J} :
    RowStep c w p (.guardedSave p' v data expected doc)
      ((w.guardedSave p' v data expected doc).2.rows p) := by
  cases w.guardedSave_cases p' v data expected doc
  case inl h =>
    rw [h]
    exact .same rfl
  case inr h =>
    obtain ⟨n, ht, hn, h⟩ := h
    rw [h]
    refine .setRow fun hp => ?_
    subst hp
    cases hn
    case inl hn =>
      obtain ⟨hr, hn⟩ := hn
      subst hn
      exact .insert ht hr
    case inr hn =>
      obtain ⟨old, hr, he, hn⟩ := hn
      subst hn he
      exact .update ht hr

theorem rowStep_claimTx {id : TicketId} {worker now : String} :
    RowStep c w p (.claimTx p' id worker now) ((w.claimTx c p' id worker now).2.rows p) := by
  cases w.claimTx_cases c p' id worker now
  case inl h =>
    obtain ⟨_, _, h⟩ := h
    rw [h]
    exact .same rfl
  case inr h =>
    obtain ⟨row, s, s', hr, hs, hc, h⟩ := h
    rw [h]
    refine .setRow fun hp => ?_
    subst hp
    exact .claim hr hs hc

theorem sql_rowStep : RowStep c w p q ((sql c q w).2.rows p) := by
  cases q
  case guardedSave => exact rowStep_guardedSave
  case claimTx     => exact rowStep_claimTx
  case deleteTx p' =>
    by_cases hp : p = p'
    case pos =>
      subst hp
      simp only [sql, World.deleteTx, World.setRow_self]
      exact .delete
    case neg =>
      simp only [sql, World.deleteTx, World.setRow_ne hp]
      exact .same rfl
  case archivePut =>
    simp only [sql, World.archivePut]
    split <;> exact .same rfl
  all_goals exact .same rfl

theorem tombstones_guardedSave {v : Nat} {data : J} {expected : Int} {doc : ShardKind → J} :
    (w.guardedSave p v data expected doc).2.tombstones = w.tombstones := by
  cases w.guardedSave_cases p v data expected doc
  case inl h => rw [h]
  case inr h =>
    obtain ⟨_, _, _, h⟩ := h
    rw [h, World.setRow_tombstones]

theorem tombstones_claimTx {id : TicketId} {worker now : String} :
    (w.claimTx c p id worker now).2.tombstones = w.tombstones := by
  cases w.claimTx_cases c p id worker now
  case inl h =>
    obtain ⟨_, _, h⟩ := h
    rw [h]
  case inr h =>
    obtain ⟨_, _, _, _, _, _, h⟩ := h
    rw [h, World.setRow_tombstones]

-- Only a connect clears a tombstone.
theorem sql_tombstones (h : w.tombstones p = true) (hq : q ≠ .clearTombstone p) :
    (sql c q w).2.tombstones p = true := by
  cases q
  case guardedSave =>
    simp only [sql]
    rwa [tombstones_guardedSave]
  case claimTx =>
    simp only [sql]
    rwa [tombstones_claimTx]
  case deleteTx p' =>
    by_cases hp : p = p' <;> simp [sql, World.deleteTx, hp, h]
  case clearTombstone p' =>
    have hp : p ≠ p' := fun he => hq (he ▸ rfl)
    simp [sql, hp, h]
  case archivePut =>
    simp only [sql, World.archivePut]
    split <;> exact h
  all_goals exact h

end

namespace ProjectState

variable {s s' : ProjectState}

-- A state that passes the gate as it is.
def Clean (s : ProjectState) : Prop :=
  s.validate = .ok () ∧ s.auditStructuralIntegrity = []

theorem Clean.unique (h : s.Clean) : s.ticketIds.Nodup := by
  have hu := (audit_eq_nil.mp h.right).left
  simp only [unrepairable, auditIdUniqueness, List.append_eq_nil_iff, List.map_eq_nil_iff] at hu
  exact duplicates_eq_nil.mp hu.left.left.left.left.left.left.left

theorem gateSave_clean (h : s.Clean) : gateSave s = .ok s := by
  simp [gateSave, h.left, h.right]

-- The gate stores what it was given or what the repair leaves of it, and what it stores is clean.
theorem gateSave_ok_cases (h : gateSave s = .ok s') :
    s.Valid ∧ s'.auditStructuralIntegrity = [] ∧ s' = s.retainKeys s.live ∧
      (s.auditStructuralIntegrity = [] ∨ s.CountedDangling) := by
  unfold gateSave at h
  split at h
  case h_1 => contradiction
  case h_2 hv =>
    have hv := validate_ok_iff.mp hv
    by_cases hn : s.auditStructuralIntegrity = []
    case pos =>
      simp only [hn, ↓reduceIte] at h
      cases h
      exact ⟨hv, hn, (retainKeys_live_eq_self (audit_eq_nil.mp hn).right).symm, .inl hn⟩
    case neg =>
      simp only [hn, ↓reduceIte] at h
      by_cases hu : s.unrepairable = []
      case pos =>
        have ⟨healed, hh, hc⟩ := heal_spec hu hn
        rw [hh] at h
        by_cases hp : healed > 0 <;> simp only [hp, ↓reduceIte] at h
        case neg => contradiction
        case pos =>
          cases h
          exact ⟨hv, audit_retainKeys_live hu, rfl, .inr (hc.mp hp)⟩
      case neg =>
        have ha : s.auditStructuralIntegrity.any (·.ruleId ≠ Rule.danglingTicketReference) := by
          have := mt all_dangling_iff.mp hu
          simpa using this
        rw [healDanglingReferences, if_neg hn, ha] at h
        contradiction

-- The repair is after bookkeeping only.
theorem gateSave_keeps (h : gateSave s = .ok s') :
    s'.tickets = s.tickets ∧ s'.alias = s.alias ∧ s'.schemaVersion = s.schemaVersion := by
  rw [(gateSave_ok_cases h).right.right.left]
  exact ⟨rfl, rfl, rfl⟩

-- With only dangling references the gate decides by what the repair counts.
theorem gateSave_dangling (hv : s.validate = .ok ()) (hu : s.unrepairable = [])
    (hc : s.auditStructuralIntegrity = [] ∨ s.CountedDangling) :
    gateSave s = .ok (s.retainKeys s.live) := by
  by_cases hn : s.auditStructuralIntegrity = []
  case pos =>
    rw [retainKeys_live_eq_self (audit_eq_nil.mp hn).right]
    exact gateSave_clean ⟨hv, hn⟩
  case neg =>
    have ⟨healed, hh, hp⟩ := heal_spec hu hn
    have hp := hp.mpr (hc.resolve_left hn)
    simp [gateSave, hv, hn, hh, hp]

theorem valid_retainKeys {p : String → String → Bool} (h : s.Valid) : (s.retainKeys p).Valid :=
  ⟨h.unique, h.known, h.acyclic⟩

-- What passes the gate passes it again unchanged.
theorem gateSave_ok_clean (h : gateSave s = .ok s') : s'.Clean := by
  have ⟨hv, ha, he, _⟩ := gateSave_ok_cases h
  exact ⟨validate_ok_iff.mpr (he ▸ valid_retainKeys hv), ha⟩

-- Of the states whose only damage is dangling references, the gate repairs those that are whole or
-- have some of the damage in a collection that the repair counts.
theorem gateSave_repairs_iff (hv : s.validate = .ok ())
    (hd : ∀ f ∈ s.auditStructuralIntegrity, f.ruleId = Rule.danglingTicketReference) :
    (∃ s', gateSave s = .ok s' ∧ s'.auditStructuralIntegrity = [] ∧ s' = s.withoutNamed) ↔
      s.auditStructuralIntegrity = [] ∨ s.CountedDangling := by
  have hu := all_dangling_iff.mp hd
  rw [withoutNamed_eq]
  constructor
  case mp =>
    intro ⟨_, h, _⟩
    exact (gateSave_ok_cases h).right.right.right
  case mpr =>
    intro hc
    exact ⟨_, gateSave_dangling hv hu hc, audit_retainKeys_live hu, rfl⟩

-- A hold and a session of a ticket that is gone. The hold is counted, so both are dropped.
theorem gateSave_repairs_hold : ∃ s' : ProjectState,
    gateSave {
      holdReasons    := .single "CXA-F001" "waiting"
      ticketSessions := .single "CXA-F001/dev" "session-1"
    } = .ok s' ∧ s'.auditStructuralIntegrity = [] ∧ s'.holdReasons = ∅ ∧ s'.ticketSessions = ∅ := by
  have ⟨s', hg, ha, he⟩ := (gateSave_repairs_iff (s := {
      holdReasons    := .single "CXA-F001" "waiting"
      ticketSessions := .single "CXA-F001/dev" "session-1"
    }) (by decide) (by decide)).mpr (.inr (by decide))
  refine ⟨s', hg, ha, ?_, ?_⟩ <;> subst he <;> decide

-- A cost approval of a ticket that is gone is not counted, and the save is refused.
theorem gateSave_refuses_costApproved : ¬ ∀ s : ProjectState, s.validate = .ok () →
    (∀ f ∈ s.auditStructuralIntegrity, f.ruleId = Rule.danglingTicketReference) →
    ∃ s', gateSave s = .ok s' ∧ s'.auditStructuralIntegrity = [] ∧ s' = s.withoutNamed := by
  intro h
  have ⟨_, hg, _⟩ := h { costApproved := .single "CXA-F001" () } (by decide) (by decide)
  have hc := (gateSave_ok_cases hg).right.right.right
  revert hc
  decide

end ProjectState
