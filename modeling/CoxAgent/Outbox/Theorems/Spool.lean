import CoxAgent.Lib.Lists
import CoxAgent.Outbox.Spool

-- What an operation can make of an entry.
inductive Revision (store : FileOutboxStore) (now : Int) :
    SpoolOp → OutboxEntry → OutboxEntry → Prop
  | keep {op e} : Revision store now op e e
  | lease {batch e} : e.due now → Revision store now (.claimDue batch) e
      { e with nextAttemptAt := now + store.leaseTtlSecs + 1 }
  | delivered {e} : Revision store now (.markDelivered e.id) e { e with status := .delivered }
  | retry {e at'} : Revision store now (.markRetry e.id at') e
      { e with attempts := nextAttempts e.attempts, nextAttemptAt := at' }
  | dead {e} : Revision store now (.markDead e.id) e { e with status := .dead }
  | replayed {e} : e.status = .dead → Revision store now (.replay e.id) e
      { e with status := .pending, attempts := 0, nextAttemptAt := now }

theorem Revision.id_eq {store : FileOutboxStore} {now : Int} {op : SpoolOp} {e e' : OutboxEntry}
    (h : Revision store now op e e') : e'.id = e.id := by
  cases h <;> rfl

namespace Spool

variable {store : FileOutboxStore} {now lease : Int} {es : List OutboxEntry}

theorem forall₂_update {R : OutboxEntry → OutboxEntry → Prop} {id : Nat}
    {f : OutboxEntry → OutboxEntry} {spool : Spool} (hk : ∀ e, R e e)
    (hf : ∀ e, e.id = id → R e (f e)) :
    List.Forall₂ R spool.entries (spool.update id f).entries := by
  simp only [update, List.forall₂_map_right_iff, List.forall₂_same]
  intro e _
  split
  case isTrue h => exact hf e h
  case isFalse  => exact hk e

theorem forall₂_claimDue {R : OutboxEntry → OutboxEntry → Prop} (hk : ∀ e, R e e)
    (hl : ∀ e, e.due now → R e { e with nextAttemptAt := lease }) (batch : Nat) :
    List.Forall₂ R es (claimDue.go now lease batch es).2 := by
  induction es generalizing batch
  case nil => exact .nil
  case cons e es hi =>
    simp only [claimDue.go]
    split
    case isFalse   => exact .cons (hk e) (hi batch)
    case isTrue hd =>
      split
      case h_1 => exact List.forall₂_same.mpr fun e _ => hk e
      case h_2 => exact .cons (hl e hd) (hi _)

theorem forall₂_replay {R : OutboxEntry → OutboxEntry → Prop} {id : Nat} (hk : ∀ e, R e e)
    (hr : ∀ e, e.id = id → e.status = .dead →
      R e { e with status := .pending, attempts := 0, nextAttemptAt := now }) :
    List.Forall₂ R es (replay.go id now es).2 := by
  induction es
  case nil => exact .nil
  case cons e es hi =>
    simp only [replay.go]
    split
    case isTrue hd => exact .cons (hr e hd.1 hd.2) (List.forall₂_same.mpr fun e _ => hk e)
    case isFalse   => exact .cons (hk e) hi

-- The claimed entries are the due ones under their new lease.
theorem mem_claimDue {batch : Nat} {e : OutboxEntry} (h : e ∈ (claimDue.go now lease batch es).1) :
    e ∈ (claimDue.go now lease batch es).2 ∧
    ∃ e₀ ∈ es, e₀.due now ∧ e = { e₀ with nextAttemptAt := lease } := by
  induction es generalizing batch
  case nil => simp [claimDue.go] at h
  case cons e₁ es hi =>
    simp only [claimDue.go] at h ⊢
    split at h
    case isFalse hd =>
      rw [if_neg hd]
      have ⟨hl, e₀, hm, hr⟩ := hi h
      exact ⟨List.mem_cons_of_mem _ hl, e₀, List.mem_cons_of_mem _ hm, hr⟩
    case isTrue hd =>
      rw [if_pos hd]
      cases batch
      case zero => simp at h
      case succ batch =>
        cases List.mem_cons.mp h
        case inl he =>
          subst he
          exact ⟨List.mem_cons_self, e₁, List.mem_cons_self, hd, rfl⟩
        case inr he =>
          have ⟨hl, e₀, hm, hr⟩ := hi he
          exact ⟨List.mem_cons_of_mem _ hl, e₀, List.mem_cons_of_mem _ hm, hr⟩

end Spool

namespace SpoolOp

variable {store : FileOutboxStore} {now : Int} {spool : Spool} {op : SpoolOp}

-- Only `enqueue` adds or removes entries.
theorem run_revises (hop : ∀ entry, op ≠ .enqueue entry) :
    (op.run store now spool).2.nextId = spool.nextId ∧
    List.Forall₂ (Revision store now op) spool.entries (op.run store now spool).2.entries := by
  cases op
  case enqueue entry => exact absurd rfl (hop entry)
  case claimDue      => exact ⟨rfl, Spool.forall₂_claimDue (fun _ => .keep) (fun _ => .lease) _⟩
  case markDelivered =>
    exact ⟨rfl, Spool.forall₂_update (fun _ => .keep) fun _ h => h ▸ .delivered⟩
  case markRetry     => exact ⟨rfl, Spool.forall₂_update (fun _ => .keep) fun _ h => h ▸ .retry⟩
  case markDead      => exact ⟨rfl, Spool.forall₂_update (fun _ => .keep) fun _ h => h ▸ .dead⟩
  case recent        => exact ⟨rfl, List.forall₂_same.mpr fun _ _ => .keep⟩
  case replay        =>
    exact ⟨rfl, Spool.forall₂_replay (fun _ => .keep) fun _ h hd => h ▸ .replayed hd⟩

theorem run_ids (hop : ∀ entry, op ≠ .enqueue entry) :
    (op.run store now spool).2.entries.map (·.id) = spool.entries.map (·.id) := by
  rw [eq_comm, ← List.forall₂_eq_eq_eq, List.forall₂_map_left_iff, List.forall₂_map_right_iff]
  exact (run_revises hop).2.imp fun _ _ h => h.id_eq.symm

-- Every entry is the revision of an entry that was there before.
theorem run_revised (hop : ∀ entry, op ≠ .enqueue entry) {e' : OutboxEntry}
    (h : e' ∈ (op.run store now spool).2.entries) :
    ∃ e ∈ spool.entries, Revision store now op e e' :=
  (run_revises hop).2.exists_left e' h

theorem run_nextId (hop : ∀ entry, op ≠ .enqueue entry) :
    (op.run store now spool).2.nextId = spool.nextId :=
  (run_revises hop).1

end SpoolOp

namespace Spool

variable {cap : Nat} {entry : OutboxEntry} {spool : Spool}

theorem enqueue_nextId (h : spool.nextId + 1 < 18446744073709551616) :
    (spool.enqueue cap entry).nextId = spool.nextId + 1 :=
  Nat.mod_eq_of_lt h

-- What was assigned before stays assigned.
theorem le_enqueue_nextId (h : spool.nextId + 1 < 18446744073709551616) {n : Nat}
    (hn : n ≤ spool.nextId) : n ≤ (spool.enqueue cap entry).nextId := by
  rw [enqueue_nextId h]
  exact Nat.le_succ_of_le hn

theorem enqueue_ids (h : spool.nextId + 1 < 18446744073709551616) :
    (spool.enqueue cap entry).entries.map (·.id) =
      (spool.entries.map (·.id) ++ [spool.nextId + 1]).drop (spool.entries.length + 1 - cap) := by
  simp [enqueue, List.map_drop, Nat.mod_eq_of_lt h]

-- The entries that were there before, and the new one.
theorem mem_enqueue (h : spool.nextId + 1 < 18446744073709551616) {e : OutboxEntry}
    (he : e ∈ (spool.enqueue cap entry).entries) :
    e ∈ spool.entries ∨ e.id = spool.nextId + 1 ∧ e.attempts = entry.attempts := by
  cases List.mem_append.mp (List.mem_of_mem_drop he)
  case inl he => exact .inl he
  case inr he =>
    rw [List.mem_singleton.mp he]
    exact .inr ⟨Nat.mod_eq_of_lt h, rfl⟩

end Spool
