import CoxAgent.Lib.Rely
import CoxAgent.Store.Theorems.Sql

variable {J ι : Type} {c : Codec J} {w w' w'' : World J} {p : String} {q : Sql.Req J}
variable {s : ProjectState} {rev : Int}

def Sql.Req.IsPut : Sql.Req J → Prop
  | .archivePut _ _ => True
  | _               => False

theorem not_isPut_harmless (h : Harmless q) : ¬ q.IsPut := by
  cases q <;> first | exact id | contradiction

theorem rows_harmless (h : Harmless q) : (sql c q w).2.rows = w.rows := by
  funext p
  have hs : RowStep c w p q ((sql c q w).2.rows p) := sql_rowStep
  generalize (sql c q w).2.rows p = row at hs ⊢
  cases hs
  case same he => exact he
  all_goals contradiction

-- Only a put changes the archive.
theorem archive_sql (h : ¬ q.IsPut) : (sql c q w).2.archive = w.archive := by
  cases q <;> try first | rfl | exact absurd trivial h
  case guardedSave p v data rev doc =>
    cases w.guardedSave_cases p v data rev doc
    case inl h => simp only [sql, h]
    case inr h =>
      obtain ⟨_, _, _, h⟩ := h
      simp only [sql, h]
      rfl
  case claimTx p id worker now =>
    cases w.claimTx_cases c p id worker now
    case inl h =>
      obtain ⟨_, _, h⟩ := h
      simp only [sql, h]
    case inr h =>
      obtain ⟨_, _, _, _, _, _, h⟩ := h
      simp only [sql, h]
      rfl

-- How the row of a project changes as long as it is not deleted: its revision tells its contents.
inductive Evolves (p : String) (w w' : World J) : Prop
  | same : w'.rows p = w.rows p → Evolves p w w'
  | born {row : Row J} : w.rows p = none → w'.rows p = some row → 1 ≤ row.revision → Evolves p w w'
  | newer {row row' : Row J} : w.rows p = some row → w'.rows p = some row' →
      row.revision < row'.revision → Evolves p w w'

namespace Evolves

theorem refl : Evolves p w w :=
  .same rfl

theorem trans (h₁ : Evolves p w w') (h₂ : Evolves p w' w'') : Evolves p w w'' := by
  cases h₁
  case same he =>
    cases h₂
    case same he'          => exact .same (he'.trans he)
    case born hr hr' hv    => exact .born (he ▸ hr) hr' hv
    case newer hr hr' hv   => exact .newer (he ▸ hr) hr' hv
  case born row hr hr' hv =>
    cases h₂
    case same he'          => exact .born hr (he'.trans hr') hv
    case born hn _ _       => simp [hr'] at hn
    case newer hn hn' hv'  =>
      cases hr'.symm.trans hn
      exact .born hr hn' (by omega)
  case newer row row' hr hr' hv =>
    cases h₂
    case same he'          => exact .newer hr (he'.trans hr') hv
    case born hn _ _       => simp [hr'] at hn
    case newer hn hn' hv'  =>
      cases hr'.symm.trans hn
      exact .newer hr hn' (by omega)

theorem claim {id : TicketId} {worker now : String} :
    Evolves p w (sql c (.claimTx p id worker now) w).2 := by
  have hs : RowStep c w p (.claimTx p id worker now)
      ((sql c (.claimTx p id worker now) w).2.rows p) := sql_rowStep
  generalize hr : (sql c (.claimTx p id worker now) w).2.rows p = row at hs
  cases hs
  case same he          => exact .same (hr.trans he)
  case claim _ _ ho _ _ => exact .newer ho hr (Int.lt_succ _)

theorem save {v : Nat} {data : J} {doc : ShardKind → J} :
    Evolves p w (w.guardedSave p v data rev doc).2 := by
  cases w.guardedSave_cases p v data rev doc
  case inl h => exact h ▸ .refl
  case inr h =>
    obtain ⟨n, _, hn, he⟩ := h
    rw [he]
    cases hn
    case inl hn => exact .born hn.left World.setRow_self hn.right.ge
    case inr hn =>
      obtain ⟨old, ho, hv, hv'⟩ := hn
      subst hv hv'
      exact .newer ho World.setRow_self (Int.lt_succ _)

end Evolves

-- What a read of the row decodes to is the stored state.
theorem stored_of_decodeRow (h : decodeRow c (w.selectRow p) = .ok (rev, s)) :
    w.stored c p = some s := by
  unfold World.selectRow at h
  unfold World.stored
  cases hr : w.rows p
  case none =>
    simp only [hr, Option.map_none, decodeRow] at h
    cases h
    rfl
  case some row =>
    simp only [hr, Option.map_some, decodeRow] at h
    split at h <;> try contradiction
    split at h <;> try contradiction
    case _ hs _ =>
      cases h
      simp [hs, Except.toOption]

section Since

variable {row : Option (Int × J)}

-- The row is still the one that was read, or it has been written since.
def Since (p : String) (row : Option (Int × J)) (w : World J) : Prop :=
  w.selectRow p = row ∨ ∃ cur, w.rows p = some cur ∧ row.elim 1 (·.1 + 1) ≤ cur.revision

theorem Since.evolves (he : Evolves p w w') (h : Since p row w) : Since p row w' := by
  cases he
  case same hr => simpa only [Since, World.selectRow, hr] using h
  case born new hn hr hv =>
    cases h
    case inl h =>
      simp only [World.selectRow, hn, Option.map_none] at h
      exact .inr ⟨new, hr, h ▸ hv⟩
    case inr h =>
      obtain ⟨cur, hc, _⟩ := h
      simp [hn] at hc
  case newer old new ho hr hv =>
    refine .inr ⟨new, hr, ?_⟩
    cases h
    case inl h =>
      simp only [World.selectRow, ho, Option.map_some] at h
      subst h
      exact hv
    case inr h =>
      obtain ⟨cur, hc, hle⟩ := h
      cases ho.symm.trans hc
      omega

-- A row that has been written since never looks like the one that was read.
theorem Since.rows_eq (he : Evolves p w w') (h : Since p row w) (hr : w'.selectRow p = row) :
    w'.rows p = w.rows p := by
  cases he
  case same hs => exact hs
  case born new hn hs hv =>
    simp only [World.selectRow, hs, Option.map_some] at hr
    cases h
    case inl h => simp [World.selectRow, hn, ← hr] at h
    case inr h =>
      obtain ⟨cur, hc, _⟩ := h
      simp [hn] at hc
  case newer old new ho hs hv =>
    simp only [World.selectRow, hs, Option.map_some] at hr
    subst hr
    cases h
    case inl h =>
      simp only [World.selectRow, ho, Option.map_some, Option.some.injEq, Prod.mk.injEq] at h
      omega
    case inr h =>
      obtain ⟨cur, hc, hle⟩ := h
      cases ho.symm.trans hc
      simp only [Option.elim_some] at hle
      omega

end Since

-- The revision that a read decodes to is that of the row, or the one before the first.
theorem rev_of_decodeRow {row : Option (Int × J)} (h : decodeRow c row = .ok (rev, s)) :
    row.elim 1 (·.1 + 1) = rev + 1 := by
  cases row
  case none =>
    cases h
    rfl
  case some row =>
    simp only [decodeRow] at h
    split at h <;> try contradiction
    split at h <;> try contradiction
    cases h
    rfl

-- If a write that is conditional on the revision of an earlier read would go through, then the row is
-- still the one that was read.
theorem rows_of_read (he : Evolves p w w') (hd : decodeRow c (w.selectRow p) = .ok (rev, s))
    (hw : w'.rows p = none ∨ ∃ row, w'.rows p = some row ∧ row.revision = rev) :
    w'.rows p = w.rows p := by
  have hs : Since p (w.selectRow p) w := .inl rfl
  apply hs.rows_eq he
  cases hs.evolves he
  case inl hs => exact hs
  case inr hs =>
    obtain ⟨cur, hc, hle⟩ := hs
    rw [rev_of_decodeRow hd] at hle
    cases hw
    case inl hn => simp [hc] at hn
    case inr hw =>
      obtain ⟨row, hr, hv⟩ := hw
      cases hc.symm.trans hr
      omega

theorem stored_of_read (he : Evolves p w w') (hd : decodeRow c (w.selectRow p) = .ok (rev, s))
    (hw : w'.rows p = none ∨ ∃ row, w'.rows p = some row ∧ row.revision = rev) :
    w'.stored c p = some s := by
  have hs := stored_of_decodeRow hd
  unfold World.stored at hs ⊢
  rwa [rows_of_read he hd hw]
