import CoxAgent.Lib.Run
import CoxAgent.Outbox.Spool
import CoxAgent.Outbox.Theorems.Spool

theorem nextAttempts_le (n : Nat) : nextAttempts n ≤ outboxMaxAttempts :=
  Nat.min_le_right _ _

namespace Revision

variable {store : FileOutboxStore} {now : Int} {op : SpoolOp} {e e' : OutboxEntry}

theorem attempts_le (h : Revision store now op e e') (ha : e.attempts ≤ outboxMaxAttempts) :
    e'.attempts ≤ outboxMaxAttempts := by
  cases h
  case retry    => exact nextAttempts_le _
  case replayed => exact Nat.zero_le _
  all_goals exact ha

-- Only `markDead` takes an entry out of `delivered`.
theorem delivered_of_delivered (h : Revision store now op e e') (hop : op ≠ .markDead e.id)
    (hd : e.status = .delivered) : e'.status = .delivered := by
  cases h
  case delivered   => rfl
  case dead        => exact absurd rfl hop
  case replayed hr => simp [hd] at hr
  all_goals exact hd

end Revision

namespace Flusher

-- The identities that the flusher may still acknowledge.
def ids : Flusher → List Nat
  | polling                => []
  | posting entry rest     => entry.id :: rest.map (·.id)
  | recording outcome rest => Delivery.acknowledges outcome ++ rest.map (·.id)

-- The identities that the flusher is about to mark as dead.
def givesUp : Flusher → List Nat
  | recording (.markDead id) _ => [id]
  | _                          => []

theorem ids_resume (es : List OutboxEntry) : (resume es).ids = es.map (·.id) := by
  cases es <;> rfl

theorem acknowledges_outcome {now : Int} {entry : OutboxEntry} {acknowledged : Bool} {id : Nat}
    (h : id ∈ Delivery.acknowledges (outcome now entry acknowledged)) : id = entry.id := by
  simp only [outcome] at h
  split at h
  case isTrue => simpa [Delivery.acknowledges] using h
  case isFalse => split at h <;> simp [Delivery.acknowledges] at h

theorem outcome_ne_enqueue {now : Int} {entry entry' : OutboxEntry} {acknowledged : Bool} :
    outcome now entry acknowledged ≠ .enqueue entry' := by
  simp only [outcome]
  split
  case isTrue => simp
  case isFalse => split <;> simp

end Flusher

namespace Delivery

variable {ι : Type} {store : FileOutboxStore} {d : Delivery ι}

-- No alert that was delivered can be claimed, the attempts stay within the limit, and identities are
-- assigned in increasing order.
structure Correct (d : Delivery ι) : Prop where
  final    : ∀ ttl now batch, ∀ e ∈ (d.spool.claimDue ttl now batch).1, e.id ∉ d.delivered
  attempts : ∀ e ∈ d.spool.entries, e.attempts ≤ outboxMaxAttempts
  assigned : d.enqueued.Pairwise (· < ·)
  spooled  : (d.spool.entries.map (·.id)).Sublist d.enqueued

-- The event neither gives up an alert that was delivered nor exhausts the identities.
def Settles (d : Delivery ι) : DeliveryEvent ι → Prop
  | .notify ..  => d.spool.nextId + 1 < 18446744073709551616
  | .record i _ => ∀ e ∈ d.spool.entries, e.id ∈ (d.flusher i).givesUp → e.status ≠ .delivered
  | _           => True

instance (d : Delivery ι) : (event : DeliveryEvent ι) → Decidable (d.Settles event)
  | .notify ..  => inferInstanceAs (Decidable (_ < _))
  | .record ..  => inferInstanceAs (Decidable (∀ e ∈ _, _))
  | .claim ..   => instDecidableTrue
  | .post ..    => instDecidableTrue
  | .replay ..  => instDecidableTrue
  | .restart .. => instDecidableTrue

structure Inv (d : Delivery ι) : Prop where
  bounded  : ∀ id ∈ d.enqueued, id ≤ d.spool.nextId
  assigned : d.enqueued.Pairwise (· < ·)
  spooled  : (d.spool.entries.map (·.id)).Sublist d.enqueued
  attempts : ∀ e ∈ d.spool.entries, e.attempts ≤ outboxMaxAttempts
  settled  : ∀ e ∈ d.spool.entries, e.id ∈ d.delivered → e.status = .delivered
  known    : ∀ id ∈ d.delivered, id ≤ d.spool.nextId
  flushing : ∀ i, ∀ id ∈ (d.flusher i).ids, id ≤ d.spool.nextId
  outcomes : ∀ i outcome rest, d.flusher i = .recording outcome rest →
    ∀ entry, outcome ≠ .enqueue entry

theorem Inv.init : Inv ({} : Delivery ι) where
  bounded  := by simp
  assigned := .nil
  spooled  := by simp
  attempts := by simp
  settled  := by simp
  known    := by simp
  flushing := by simp [Flusher.ids]
  outcomes := by simp

theorem Inv.correct (h : d.Inv) : d.Correct where
  final := by
    intro ttl now batch e he hd
    have ⟨_, e₀, hm, hp, heq⟩ := Spool.mem_claimDue he
    have hs := h.settled e₀ hm (by simpa [heq] using hd)
    simp [OutboxEntry.due, hs] at hp
  attempts := h.attempts
  assigned := h.assigned
  spooled  := h.spooled

-- An operation other than `enqueue` that gives up no delivered alert.
theorem Inv.operate (h : d.Inv) (store : FileOutboxStore) (now : Int) (op : SpoolOp)
    (hop : ∀ entry, op ≠ .enqueue entry)
    (hd : ∀ e ∈ d.spool.entries, op = .markDead e.id → e.status ≠ .delivered) :
    { d with spool := (op.run store now d.spool).2 }.Inv := by
  have hn := @SpoolOp.run_nextId store now d.spool op hop
  exact { h with
    bounded  := by simpa [hn] using h.bounded
    spooled  := by simpa [SpoolOp.run_ids hop] using h.spooled
    known    := by simpa [hn] using h.known
    flushing := by simpa [hn] using h.flushing
    attempts := by
      intro e' he'
      have ⟨e, he, hr⟩ := SpoolOp.run_revised hop he'
      exact hr.attempts_le (h.attempts e he)
    settled  := by
      intro e' he' hi
      have ⟨e, he, hr⟩ := SpoolOp.run_revised hop he'
      have hs := h.settled e he (hr.id_eq ▸ hi)
      exact hr.delivered_of_delivered (fun ho => hd e he ho hs) hs
  }

theorem Inv.id_le (h : d.Inv) {e : OutboxEntry} (he : e ∈ d.spool.entries) :
    e.id ≤ d.spool.nextId :=
  h.bounded _ (h.spooled.subset (List.mem_map_of_mem he))

-- The new identity is above all that were assigned before.
theorem Inv.notify (h : d.Inv) (cap : Nat) (kind project message : String) (now : Int)
    (hn : d.spool.nextId + 1 < 18446744073709551616) :
    { d with
      spool    := d.spool.enqueue cap (.pending kind project message now)
      enqueued := d.enqueued ++
        [(d.spool.enqueue cap (.pending kind project message now)).nextId] }.Inv := by
  rw [Spool.enqueue_nextId hn]
  exact { h with
    bounded  := by
      rw [List.forall_mem_append, List.forall_mem_singleton]
      refine ⟨fun id hi => Spool.le_enqueue_nextId hn (h.bounded id hi), ?_⟩
      rw [Spool.enqueue_nextId hn]
    assigned := by
      simp only [List.pairwise_append, List.pairwise_singleton, List.mem_singleton]
      exact ⟨h.assigned, trivial, fun a ha b hb => hb ▸ Nat.lt_succ_of_le (h.bounded a ha)⟩
    spooled  := by
      rw [Spool.enqueue_ids hn]
      exact (List.drop_sublist _ _).trans (h.spooled.append_right _)
    attempts := by
      intro e he
      cases Spool.mem_enqueue hn he
      case inl he => exact h.attempts e he
      case inr he => simp [he.2, OutboxEntry.pending]
    settled  := by
      intro e he hd
      cases Spool.mem_enqueue hn he
      case inl he => exact h.settled e he hd
      case inr he => have := h.known _ hd; omega
    known    := fun id hi => Spool.le_enqueue_nextId hn (h.known id hi)
    flushing := fun i id hi => Spool.le_enqueue_nextId hn (h.flushing i id hi)
  }

variable [DecidableEq ι]

theorem Inv.withFlusher (h : d.Inv) {i : ι} {f : Flusher}
    (hf : ∀ id ∈ f.ids, id ≤ d.spool.nextId)
    (ho : ∀ outcome rest, f = .recording outcome rest → ∀ entry, outcome ≠ .enqueue entry) :
    { d with flusher := Function.update d.flusher i f }.Inv := by
  refine { h with flushing := fun j => ?_, outcomes := fun j => ?_ } <;> by_cases hj : j = i
  · simpa [hj] using hf
  · simpa [hj] using h.flushing j
  · simpa [hj] using ho
  · simpa [hj] using h.outcomes j

theorem resume_ne_recording {es : List OutboxEntry} :
    ∀ outcome rest, Flusher.resume es = .recording outcome rest →
      ∀ entry, outcome ≠ .enqueue entry := by
  cases es <;> simp [Flusher.resume]

theorem Inv.claim (h : d.Inv) (i : ι) (now : Int) : (d.step store (.claim i now)).Inv := by
  simp only [Delivery.step]
  split
  case h_2 => exact h
  case h_1 =>
    have hc := h.operate store now (.claimDue claimBatch) (by simp) (by simp)
    refine hc.withFlusher (fun id hi => ?_) resume_ne_recording
    rw [Flusher.ids_resume] at hi
    obtain ⟨e, he, rfl⟩ := List.mem_map.mp hi
    have ⟨_, e₀, hm, _, heq⟩ := Spool.mem_claimDue he
    calc e.id = e₀.id           := by rw [heq]
         _ ≤ d.spool.nextId     := h.id_le hm

theorem Inv.post (h : d.Inv) (i : ι) (now : Int) (acknowledged : Bool) :
    (d.step store (.post i now acknowledged)).Inv := by
  simp only [Delivery.step]
  split
  case h_2 => exact h
  case h_1 entry rest hf =>
    have hids := h.flushing i
    simp only [hf, Flusher.ids, List.forall_mem_cons] at hids
    refine h.withFlusher (fun id hi => ?_) (fun outcome rest he entry => ?_)
    · cases List.mem_append.mp hi
      case inl hi => exact Flusher.acknowledges_outcome hi ▸ hids.1
      case inr hi => exact hids.2 id hi
    · cases he
      exact Flusher.outcome_ne_enqueue

-- An entry that is acknowledged is delivered.
theorem delivered_of_acknowledges {outcome : SpoolOp} {spool : Spool} {now : Int} :
    ∀ e ∈ (outcome.run store now spool).2.entries, e.id ∈ acknowledges outcome →
      e.status = .delivered := by
  intro e he hi
  cases outcome <;> simp only [acknowledges, List.not_mem_nil, List.mem_singleton] at hi
  case markDelivered id =>
    simp only [SpoolOp.run, Spool.markDelivered, Spool.update, List.mem_map] at he
    obtain ⟨e₀, _, rfl⟩ := he
    by_cases hn : e₀.id = id
    case pos => simp [hn]
    case neg => simp [hn] at hi

theorem Inv.record (h : d.Inv) (i : ι) (now : Int) (hs : d.Settles (.record i now)) :
    (d.step store (.record i now)).Inv := by
  simp only [Delivery.step]
  split
  case h_2 => exact h
  case h_1 outcome rest hf =>
    have hids := h.flushing i
    simp only [hf, Flusher.ids, List.forall_mem_append] at hids
    have hr := h.operate store now outcome (h.outcomes i _ _ hf) <| by
      intro e he ho
      subst ho
      exact hs e he (by simp [hf, Flusher.givesUp])
    have hn := @SpoolOp.run_nextId store now d.spool outcome (h.outcomes i _ _ hf)
    have hd : { d with
        spool     := (outcome.run store now d.spool).2
        delivered := acknowledges outcome ++ d.delivered }.Inv := { hr with
      settled := by
        intro e he hi
        cases List.mem_append.mp hi
        case inl hi => exact delivered_of_acknowledges e he hi
        case inr hi => exact hr.settled e he hi
      known   := by
        rw [List.forall_mem_append]
        exact ⟨by simpa [hn] using hids.1, hr.known⟩
    }
    refine hd.withFlusher (fun id hi => ?_) resume_ne_recording
    rw [Flusher.ids_resume] at hi
    simpa [hn] using hids.2 id hi

theorem Inv.step (h : d.Inv) (event : DeliveryEvent ι) (hs : d.Settles event) :
    (d.step store event).Inv := by
  cases event
  case notify  => exact h.notify _ _ _ _ _ hs
  case claim   => exact h.claim ..
  case post    => exact h.post ..
  case record  => exact h.record _ _ hs
  case replay  => exact h.operate store _ _ (by simp) (by simp)
  case restart => exact h.withFlusher (by simp [Flusher.ids]) (by simp)

-- In every run that gives up no delivered alert, delivered is final.
theorem correct_of_settles {events : List (DeliveryEvent ι)}
    (h : Run.Meets (step store) Settles {} events) : (run store events).Correct :=
  (Run.inv (fun _ e hs h => Inv.step h e hs) h .init).correct

-- Two flushers claim an alert that has already failed seven times. The lease of the first one runs
-- out while it posts.
def overtaken : List (DeliveryEvent Bool) :=
  let attempt (now : Int) : List (DeliveryEvent Bool) :=
    [.claim true now, .post true now false, .record true now]
  .notify "deploy_failed" "demo" "boom" 0 ::
    [0, 100, 300, 600, 1200, 2400, 5000].flatMap attempt ++
    [.claim true 10000, .claim false 10100, .post false 10100 true, .record false 10100]

theorem correct_overtaken : (run {} overtaken).Correct :=
  correct_of_settles (by decide +kernel)

-- The first flusher then gives up the alert that the second one delivered, and an operator replays it.
def reopened : List (DeliveryEvent Bool) :=
  overtaken ++ [.post true 10200 false, .record true 10200, .replay 1 10300]

theorem not_correct_reopened :
    1 ∈ (run {} overtaken).delivered ∧
    ((run {} reopened).spool.claimDue 60 10300 claimBatch).1.map (·.id) = [1] ∧
    ¬(run {} reopened).Correct := by
  have hd : 1 ∈ (run {} reopened).delivered := by decide +kernel
  have hc : ((run {} reopened).spool.claimDue 60 10300 claimBatch).1.map (·.id) = [1] := by
    decide +kernel
  refine ⟨by decide +kernel, hc, fun h => ?_⟩
  have hm : 1 ∈ ((run {} reopened).spool.claimDue 60 10300 claimBatch).1.map (·.id) := by simp [hc]
  obtain ⟨e, he, hi⟩ := List.mem_map.mp hm
  exact h.final _ _ _ e he (hi ▸ hd)

end Delivery
