import CoxAgent.Lib.Run
import CoxAgent.Outbox.Spool
import CoxAgent.Outbox.Theorems.Spool
import Mathlib.Data.List.Nodup

-- The operation shortens no lease and does not exhaust the identities.
def SpoolOp.KeepsLeases (now : Int) (spool : Spool) : SpoolOp → Prop
  | enqueue _        => spool.nextId + 1 < 18446744073709551616
  | markRetry id at' => ∀ e ∈ spool.entries, e.id = id → e.nextAttemptAt ≤ at'
  | replay id        =>
    ∀ e ∈ spool.entries, e.id = id → e.status = .dead → e.nextAttemptAt ≤ now
  | _                => True

instance (now : Int) (spool : Spool) : (op : SpoolOp) → Decidable (op.KeepsLeases now spool)
  | .enqueue _       => inferInstanceAs (Decidable (_ < _))
  | .markRetry ..    => inferInstanceAs (Decidable (∀ e ∈ _, _))
  | .replay _        => inferInstanceAs (Decidable (∀ e ∈ _, _))
  | .claimDue _      => instDecidableTrue
  | .markDelivered _ => instDecidableTrue
  | .markDead _      => instDecidableTrue
  | .recent _        => instDecidableTrue

namespace Completed

variable (store : FileOutboxStore)

-- The operations one after another.
def serve (spool : Spool) (c : Completed) : Spool :=
  (c.op.run store c.now spool).2

def serial (history : List Completed) : Spool :=
  history.foldl (serve store) {}

-- The operation has returned what it returns on the given spool.
def Replied (spool : Spool) (c : Completed) : Prop :=
  c.reply = (c.op.run store c.now spool).1

def KeepsLeases (spool : Spool) (c : Completed) : Prop :=
  c.op.KeepsLeases c.now spool

-- The identities that a claim has returned.
def claimed (c : Completed) : List Nat :=
  match c.op, c.reply with
  | .claimDue _, .entries es => es.map (·.id)
  | _, _                     => []

def isEnqueue (c : Completed) : Bool :=
  match c.op with
  | .enqueue _ => true
  | _          => false

variable {store} {history : List Completed} {c : Completed} {spool : Spool}

theorem serial_snoc : serial store (history ++ [c]) = serve store (serial store history) c := by
  simp [serial]

-- What the leases of a history mean for the spool that it leaves.
structure Leased (store : FileOutboxStore) (history : List Completed) (spool : Spool) : Prop where
  count   : spool.nextId = history.countP (·.isEnqueue)
  ordered : (spool.entries.map (·.id)).Pairwise (· < ·)
  bounded : ∀ e ∈ spool.entries, e.id ≤ spool.nextId
  kept    : history.countP (·.isEnqueue) ≤ store.cap →
    spool.entries.map (·.id) = List.range' 1 (history.countP (·.isEnqueue))
  known   : ∀ c ∈ history, ∀ id ∈ c.claimed, id ≤ spool.nextId
  leased  : ∀ c ∈ history, ∀ e ∈ spool.entries, e.id ∈ c.claimed →
    c.now + store.leaseTtlSecs < e.nextAttemptAt
  apart   : history.Pairwise fun c c' =>
    ∀ id ∈ c.claimed, id ∈ c'.claimed → c.now + store.leaseTtlSecs < c'.now

theorem Leased.nil : Leased store [] {} where
  count   := rfl
  ordered := .nil
  bounded := by simp
  kept    := by simp
  known   := by simp
  leased  := by simp
  apart   := .nil

theorem claimed_eq_nil (h : ∀ batch, c.op ≠ .claimDue batch) : c.claimed = [] := by
  simp only [claimed]
  split
  case h_1 batch _ ho _ => exact absurd ho (h batch)
  case h_2 => rfl

-- A claim returns entries that were due, and they are under lease after it.
theorem mem_claimed (hr : c.Replied store spool) {id : Nat} (hi : id ∈ c.claimed) :
    (∃ e ∈ (serve store spool c).entries,
      e.id = id ∧ e.nextAttemptAt = c.now + store.leaseTtlSecs + 1) ∧
    ∃ e ∈ spool.entries, e.id = id ∧ e.nextAttemptAt ≤ c.now := by
  simp only [claimed] at hi
  split at hi
  case h_2 => simp at hi
  case h_1 batch es ho he =>
    simp only [Replied, ho, he, SpoolOp.run, SpoolReply.entries.injEq] at hr
    obtain ⟨e, hm, rfl⟩ := List.mem_map.mp hi
    rw [hr] at hm
    obtain ⟨hl, e₀, h₀, hd, rfl⟩ := Spool.mem_claimDue hm
    simp only [OutboxEntry.due, decide_eq_true_eq] at hd
    refine ⟨⟨_, ?_, rfl, rfl⟩, e₀, h₀, rfl, hd.2⟩
    simpa [serve, ho, SpoolOp.run, Spool.claimDue] using hl

theorem nextAttemptAt_mono (ht : 0 ≤ store.leaseTtlSecs) {op : SpoolOp} {now : Int}
    {e e' : OutboxEntry} (hk : op.KeepsLeases now spool) (he : e ∈ spool.entries)
    (hr : Revision store now op e e') : e.nextAttemptAt ≤ e'.nextAttemptAt := by
  cases hr
  case lease hd =>
    simp only [OutboxEntry.due, decide_eq_true_eq] at hd
    have := hd.2
    show e.nextAttemptAt ≤ now + store.leaseTtlSecs + 1
    omega
  case retry       => exact hk e he rfl
  case replayed hd => exact hk e he rfl hd
  all_goals exact le_rfl

variable (h : Leased store history spool)
include h

theorem Leased.enqueue {now : Int} {entry : OutboxEntry} {reply : SpoolReply}
    (hn : spool.nextId + 1 < 18446744073709551616) :
    Leased store (history ++ [⟨.enqueue entry, now, reply⟩]) (spool.enqueue store.cap entry) := by
  have hc : (history ++ [Completed.mk (.enqueue entry) now reply]).countP (·.isEnqueue) =
      history.countP (·.isEnqueue) + 1 := by simp [isEnqueue]
  have hcl : claimed ⟨.enqueue entry, now, reply⟩ = [] := claimed_eq_nil (by simp)
  exact {
    count   := by rw [Spool.enqueue_nextId hn, hc, h.count]
    ordered := by
      rw [Spool.enqueue_ids hn]
      refine List.Pairwise.drop (List.pairwise_append.mpr ⟨h.ordered, by simp, ?_⟩)
      intro a ha b hb
      obtain ⟨e, he, rfl⟩ := List.mem_map.mp ha
      have := h.bounded e he
      grind
    bounded := by
      intro e he
      cases Spool.mem_enqueue hn he
      case inl he => exact Spool.le_enqueue_nextId hn (h.bounded e he)
      case inr he => rw [Spool.enqueue_nextId hn, he.left]
    kept    := by
      rw [hc, Spool.enqueue_ids hn]
      intro hk
      have ih := h.kept (Nat.le_of_succ_le hk)
      have hl : spool.entries.length = history.countP (·.isEnqueue) := by
        simpa using congrArg List.length ih
      rw [hl, Nat.sub_eq_zero_of_le hk, List.drop_zero, ih, h.count, List.range'_concat]
      simp [Nat.add_comm]
    known   := by
      intro c hm id hi
      cases List.mem_append.mp hm
      case inl hm => exact Spool.le_enqueue_nextId hn (h.known c hm id hi)
      case inr hm => simp [List.mem_singleton.mp hm, hcl] at hi
    leased  := by
      intro c hm e he hi
      cases List.mem_append.mp hm
      case inr hm => simp [List.mem_singleton.mp hm, hcl] at hi
      case inl hm =>
        cases Spool.mem_enqueue hn he
        case inl he => exact h.leased c hm e he hi
        case inr he => have := h.known c hm _ hi; omega
    apart   := by
      simp only [List.pairwise_append, List.pairwise_singleton, List.mem_singleton]
      refine ⟨h.apart, trivial, fun c _ c' hc' id _ hi => ?_⟩
      simp [hc', hcl] at hi
  }

theorem Leased.operate (ht : 0 ≤ store.leaseTtlSecs) (hop : ∀ entry, c.op ≠ .enqueue entry)
    (hk : c.KeepsLeases spool) (hr : c.Replied store spool) :
    Leased store (history ++ [c]) (serve store spool c) := by
  have hids := @SpoolOp.run_ids store c.now spool c.op hop
  have hn := @SpoolOp.run_nextId store c.now spool c.op hop
  have hc : (history ++ [c]).countP (·.isEnqueue) = history.countP (·.isEnqueue) := by
    simp only [List.countP_append, List.countP_singleton, isEnqueue]
    split <;> simp_all
  have hordered : ((serve store spool c).entries.map (·.id)).Pairwise (· < ·) := by
    rw [serve, hids]
    exact h.ordered
  exact {
    count   := by rw [serve, hn, hc, h.count]
    ordered := hordered
    bounded := by
      intro e' he'
      have ⟨e, he, hr⟩ := SpoolOp.run_revised hop he'
      rw [serve, hn, hr.id_eq]
      exact h.bounded e he
    kept    := by
      rw [hc, serve, hids]
      exact h.kept
    known   := by
      intro c' hm id hi
      rw [serve, hn]
      cases List.mem_append.mp hm
      case inl hm => exact h.known c' hm id hi
      case inr hm =>
        rw [List.mem_singleton.mp hm] at hi
        obtain ⟨_, e, he, rfl, _⟩ := mem_claimed hr hi
        exact h.bounded e he
    leased  := by
      intro c' hm e' he' hi
      cases List.mem_append.mp hm
      case inl hm =>
        have ⟨e, he, hrev⟩ := SpoolOp.run_revised hop he'
        exact (h.leased c' hm e he (hrev.id_eq ▸ hi)).trans_le (nextAttemptAt_mono ht hk he hrev)
      case inr hm =>
        rw [List.mem_singleton.mp hm] at hi ⊢
        -- Identities are unique, so this is the entry that was claimed.
        obtain ⟨⟨e, he, hid, hl⟩, _⟩ := mem_claimed hr hi
        have hnodup := hordered.imp (fun {_ _} => ne_of_lt)
        have heq : e' = e := List.inj_on_of_nodup_map hnodup he' he hid.symm
        rw [heq, hl]
        omega
    apart   := by
      simp only [List.pairwise_append, List.pairwise_singleton, List.mem_singleton]
      refine ⟨h.apart, trivial, fun c₁ hc₁ c₂ hc₂ id h₁ h₂ => ?_⟩
      rw [hc₂] at h₂ ⊢
      obtain ⟨_, e, he, rfl, hd⟩ := mem_claimed hr h₂
      exact (h.leased c₁ hc₁ e he h₁).trans_le hd
  }

omit h

theorem Leased.snoc (h : Leased store history spool) (ht : 0 ≤ store.leaseTtlSecs)
    (hk : c.KeepsLeases spool) (hr : c.Replied store spool) :
    Leased store (history ++ [c]) (serve store spool c) := by
  cases ho : c.op
  case enqueue entry =>
    obtain ⟨op, now, reply⟩ := c
    cases ho
    exact h.enqueue hk
  all_goals exact h.operate ht (by simp [ho]) hk hr

end Completed
