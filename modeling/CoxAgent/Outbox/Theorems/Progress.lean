import CoxAgent.Outbox.Theorems.Delivery
import Mathlib.Data.Finset.Card

namespace Flusher

-- The clones that the flusher still holds.
def claimed : Flusher → List OutboxEntry
  | polling              => []
  | posting entry rest   => entry :: rest
  | recording _ rest     => rest

theorem claimed_resume (es : List OutboxEntry) : (resume es).claimed = es := by
  cases es <;> rfl

end Flusher

-- The alert for which a failed post is recorded.
def SpoolOp.failed? : SpoolOp → Option Nat
  | markRetry id _ => some id
  | markDead id    => some id
  | _              => none

-- The alert for which the flusher is about to record a failed post.
def Flusher.fails : Flusher → Option Nat
  | recording outcome _ => outcome.failed?
  | _                   => none

-- A delivery with the number of failed posts that were recorded for each alert, and with the answers of all posts:
-- the alert, and whether the other side acknowledged it.
structure Progress (ι : Type) where
  delivery : Delivery ι        := {}
  failures : Nat → Nat         := fun _ => 0
  posted   : List (Nat × Bool) := []

def DeliveryEvent.time {ι : Type} : DeliveryEvent ι → Option Int
  | notify _ _ _ now | claim _ now | post _ now _ | record _ now | replay _ now => some now
  | restart _                                                                  => none

-- The longest that an alert waits for its next attempt.
def retryWithin (store : FileOutboxStore) : Int :=
  max outboxMaxBackoffSecs (store.leaseTtlSecs + 2)

namespace Progress

section Definitions

variable {ι : Type} [DecidableEq ι] (store : FileOutboxStore)

def count (c : Progress ι) : DeliveryEvent ι → Nat → Nat
  | .record i _ =>
    match c.delivery.flusher i with
    | .recording outcome _ => fun id => if outcome.failed? = some id then c.failures id + 1 else c.failures id
    | _                    => c.failures
  | _ => c.failures

def answer (c : Progress ι) : DeliveryEvent ι → List (Nat × Bool)
  | .post i _ acknowledged =>
    match c.delivery.flusher i with
    | .posting entry _ => (entry.id, acknowledged) :: c.posted
    | _                => c.posted
  | _ => c.posted

def step (c : Progress ι) (event : DeliveryEvent ι) : Progress ι where
  delivery := c.delivery.step store event
  failures := c.count event
  posted   := c.answer event

def run (events : List (DeliveryEvent ι)) : Progress ι :=
  events.foldl (step store) {}

end Definitions

variable {ι : Type} {store : FileOutboxStore} {latest : Int} {c : Progress ι}

-- What is known of an alert in the spool, and of one that a flusher holds.
structure Fair (store : FileOutboxStore) (latest : Int) (c : Progress ι) (e : OutboxEntry) : Prop where
  counted      : e.attempts ≤ c.failures e.id
  soon         : e.nextAttemptAt ≤ latest + retryWithin store
  acknowledged : e.status = .delivered → e.id ∈ c.delivery.delivered
  exhausted    : e.status = .dead → outboxMaxAttempts ≤ c.failures e.id

structure Held (store : FileOutboxStore) (latest : Int) (c : Progress ι) (e : OutboxEntry) : Prop where
  counted : e.attempts ≤ c.failures e.id
  leased  : e.nextAttemptAt ≤ latest + store.leaseTtlSecs + 1

-- What a flusher may be about to record.
inductive Recorded (store : FileOutboxStore) (latest : Int) (c : Progress ι) : SpoolOp → Prop
  | delivered (id : Nat) : Recorded store latest c (.markDelivered id)
  | retry (id : Nat) (at' : Int) : at' ≤ latest + retryWithin store → Recorded store latest c (.markRetry id at')
  | dead (id : Nat) : outboxMaxAttempts ≤ c.failures id + 1 → Recorded store latest c (.markDead id)

structure Inv (store : FileOutboxStore) (latest : Int) (c : Progress ι) : Prop where
  assigned : c.delivery.enqueued = List.range' 1 c.delivery.spool.nextId
  spooled  : c.delivery.spool.entries.map (·.id) =
    c.delivery.enqueued.drop (c.delivery.enqueued.length - store.cap)
  fair     : ∀ e ∈ c.delivery.spool.entries, Fair store latest c e
  held     : ∀ i, ∀ e ∈ (c.delivery.flusher i).claimed, Held store latest c e
  recorded : ∀ i outcome rest, c.delivery.flusher i = .recording outcome rest → Recorded store latest c outcome

theorem Inv.init : Inv store latest ({} : Progress ι) where
  assigned := rfl
  spooled  := List.drop_nil.symm
  fair     := by simp
  held     := by simp [Flusher.claimed]
  recorded := by simp

section Bounds

variable {now : Int} {e : OutboxEntry}

theorem backoffDelaySecs_le (n : Nat) : (backoffDelaySecs n : Int) ≤ outboxMaxBackoffSecs :=
  Int.ofNat_le.mpr (Nat.min_le_right _ _)

theorem saturatingAdd_le {a b bound : Int} (h : a + b ≤ bound) (hb : -9223372036854775808 ≤ bound) :
    saturatingAdd a b ≤ bound :=
  max_le hb ((min_le_left _ _).trans h)

theorem advanceAfterFailure_of_lt (h : nextAttempts e.attempts < outboxMaxAttempts) :
    e.advanceAfterFailure now = { e with
      attempts      := nextAttempts e.attempts
      status        := .pending
      nextAttemptAt := max (saturatingAdd now (backoffDelaySecs (nextAttempts e.attempts)))
        (saturatingAdd e.nextAttemptAt 1) } :=
  if_neg (Nat.not_le.mpr h)

theorem advanceAfterFailure_dead_iff :
    (e.advanceAfterFailure now).status = .dead ↔ outboxMaxAttempts ≤ nextAttempts e.attempts := by
  by_cases h : nextAttempts e.attempts < outboxMaxAttempts
  case pos => simp [advanceAfterFailure_of_lt h, h]
  case neg => simp [OutboxEntry.advanceAfterFailure, Nat.not_lt.mp h]

-- What becomes of a clone that failed at the time `now`.
theorem recorded_outcome {acknowledged : Bool} (hl : 0 ≤ latest) (ht : 0 ≤ store.leaseTtlSecs) (hn : now ≤ latest)
    (h : Held store latest c e) : Recorded store latest c (Flusher.outcome now e acknowledged) := by
  unfold Flusher.outcome
  have hwait : (outboxMaxBackoffSecs : Int) ≤ retryWithin store ∧ store.leaseTtlSecs + 2 ≤ retryWithin store :=
    ⟨le_max_left _ _, le_max_right _ _⟩
  split
  case isTrue  => exact .delivered _
  case isFalse =>
    dsimp only
    split
    case isTrue hd =>
      have hmax := advanceAfterFailure_dead_iff.mp hd
      refine .dead _ (hmax.trans ?_)
      calc nextAttempts e.attempts ≤ e.attempts + 1 := (Nat.min_le_left _ _).trans (Nat.min_le_left _ _)
           _ ≤ c.failures e.id + 1                  := Nat.succ_le_succ h.counted
    case isFalse hd =>
      rw [advanceAfterFailure_dead_iff, Nat.not_le] at hd
      have hback := backoffDelaySecs_le (nextAttempts e.attempts)
      have hlease := h.leased
      rw [advanceAfterFailure_of_lt hd]
      exact .retry _ _ (max_le (saturatingAdd_le (by omega) (by omega)) (saturatingAdd_le (by omega) (by omega)))

end Bounds

section Steps

variable {d : Delivery ι} {failures : Nat → Nat} {now : Int} {op : SpoolOp} {e e' : OutboxEntry} {i : ι}

-- More failures are no less fair.
theorem Held.mono (h : Held store latest c e) {c' : Progress ι} (hf : ∀ id, c.failures id ≤ c'.failures id) :
    Held store latest c' e where
  counted := h.counted.trans (hf e.id)
  leased  := h.leased

theorem Recorded.mono (h : Recorded store latest c op) {c' : Progress ι}
    (hf : ∀ id, c.failures id ≤ c'.failures id) : Recorded store latest c' op := by
  cases h
  case delivered id      => exact .delivered id
  case retry id at' hat  => exact .retry id at' hat
  case dead id hd        => exact .dead id (hd.trans (Nat.succ_le_succ (hf id)))

-- What an operation of a flusher makes of a fair alert, where a failure that it records is counted and a delivery
-- that it records is kept.
theorem Fair.revise (h : Fair store latest c e) {c' : Progress ι} (hr : Revision store now op e e')
    (ht : 0 ≤ store.leaseTtlSecs) (hn : now ≤ latest)
    (hop : ∀ id at', op = .markRetry id at' → at' ≤ latest + retryWithin store)
    (hdead : ∀ id, op = .markDead id → outboxMaxAttempts ≤ c'.failures id)
    (hretry : ∀ id at', op = .markRetry id at' → c.failures id + 1 ≤ c'.failures id)
    (hdone : ∀ id, op = .markDelivered id → id ∈ c'.delivery.delivered)
    (hf : ∀ id, c.failures id ≤ c'.failures id) (hd : c.delivery.delivered ⊆ c'.delivery.delivered) :
    Fair store latest c' e' := by
  have hwait : 0 ≤ retryWithin store ∧ store.leaseTtlSecs + 2 ≤ retryWithin store :=
    ⟨(Int.natCast_nonneg _).trans (le_max_left _ _), le_max_right _ _⟩
  cases hr
  case keep =>
    exact ⟨h.counted.trans (hf _), h.soon, fun hs => hd (h.acknowledged hs), fun hs => (h.exhausted hs).trans (hf _)⟩
  case lease hdue =>
    refine ⟨h.counted.trans (hf _), ?_, fun hs => hd (h.acknowledged hs), fun hs => (h.exhausted hs).trans (hf _)⟩
    dsimp only
    omega
  case delivered =>
    exact ⟨h.counted.trans (hf _), h.soon, fun _ => hdone _ rfl, fun hs => by contradiction⟩
  case retry at' =>
    refine ⟨?_, hop _ at' rfl, fun hs => hd (h.acknowledged hs), fun hs => (h.exhausted hs).trans (hf _)⟩
    calc nextAttempts e.attempts ≤ e.attempts + 1 := (Nat.min_le_left _ _).trans (Nat.min_le_left _ _)
         _ ≤ c.failures e.id + 1                  := Nat.succ_le_succ h.counted
         _ ≤ c'.failures e.id                     := hretry _ at' rfl
  case dead =>
    exact ⟨h.counted.trans (hf _), h.soon, fun hs => by contradiction, fun _ => hdead _ rfl⟩
  case replayed =>
    refine ⟨Nat.zero_le _, ?_, fun hs => by contradiction, fun hs => by contradiction⟩
    dsimp only
    omega

-- Everything that is no enqueueing revises the alerts in place.
theorem Inv.operate (h : Inv store latest c) (now : Int) (delivered : List Nat)
    (posted : List (Nat × Bool)) {failures : Nat → Nat}
    (hop : ∀ entry, op ≠ .enqueue entry) (hf : ∀ id, c.failures id ≤ failures id)
    (hfair : ∀ e e', Fair store latest c e → Revision store now op e e' → Fair store latest
      ⟨{ c.delivery with spool := (op.run store now c.delivery.spool).2, delivered }, failures, posted⟩ e') :
    Inv store latest
      ⟨{ c.delivery with spool := (op.run store now c.delivery.spool).2, delivered }, failures, posted⟩ where
  assigned := h.assigned.trans (congrArg (List.range' 1) (SpoolOp.run_nextId hop).symm)
  spooled  := (SpoolOp.run_ids hop).trans h.spooled
  fair e' he' := by
    obtain ⟨e, he, hr⟩ := SpoolOp.run_revised hop he'
    exact hfair e e' (h.fair e he) hr
  held i e he               := (h.held i e he).mono hf
  recorded i outcome rest hi := (h.recorded i outcome rest hi).mono hf

variable [DecidableEq ι]

theorem Inv.withFlusher (h : Inv store latest c) {posted : List (Nat × Bool)} {f : Flusher}
    (hh : ∀ e ∈ f.claimed, Held store latest c e)
    (hr : ∀ outcome rest, f = .recording outcome rest → Recorded store latest c outcome) :
    Inv store latest
      ⟨{ c.delivery with flusher := Function.update c.delivery.flusher i f }, c.failures, posted⟩ where
  assigned := h.assigned
  spooled  := h.spooled
  fair e he := ⟨(h.fair e he).counted, (h.fair e he).soon, (h.fair e he).acknowledged, (h.fair e he).exhausted⟩
  held j e he := by
    by_cases hj : j = i
    case pos =>
      subst hj
      dsimp only at he
      rw [Function.update_self] at he
      exact (hh e he).mono fun _ => le_refl _
    case neg =>
      dsimp only at he
      rw [Function.update_of_ne hj] at he
      exact (h.held j e he).mono fun _ => le_refl _
  recorded j outcome rest hf := by
    by_cases hj : j = i
    case pos =>
      subst hj
      dsimp only at hf
      rw [Function.update_self] at hf
      exact (hr outcome rest hf).mono fun _ => le_refl _
    case neg =>
      dsimp only at hf
      rw [Function.update_of_ne hj] at hf
      exact (h.recorded j outcome rest hf).mono fun _ => le_refl _

theorem Inv.notify (h : Inv store latest c) (hl : 0 ≤ latest)
    (hn : c.delivery.spool.nextId + 1 < 18446744073709551616) (kind project message : String) (now : Int) :
    Inv store latest (c.step store (.notify kind project message now)) := by
  have hid := @Spool.enqueue_nextId store.cap (.pending kind project message now) c.delivery.spool hn
  have hlen : c.delivery.spool.entries.length = min c.delivery.enqueued.length store.cap := by
    have := congrArg List.length h.spooled
    rw [List.length_map, List.length_drop] at this
    omega
  constructor
  case assigned =>
    change c.delivery.enqueued ++ [(c.delivery.spool.enqueue store.cap _).nextId] =
      List.range' 1 (c.delivery.spool.enqueue store.cap _).nextId
    rw [hid, h.assigned, List.range'_1_concat, Nat.add_comm]
  case spooled =>
    change (c.delivery.spool.enqueue store.cap _).entries.map (·.id) =
      (c.delivery.enqueued ++ [(c.delivery.spool.enqueue store.cap _).nextId]).drop _
    rw [Spool.enqueue_ids hn, hid, h.spooled, hlen,
      ← List.drop_append_of_le_length (Nat.sub_le _ _), List.drop_drop]
    congr 1
    simp only [Delivery.step, Progress.step, List.length_append, List.length_singleton]
    omega
  case fair =>
    intro e he
    cases List.mem_append.mp (List.mem_of_mem_drop he)
    case inl he =>
      exact ⟨(h.fair e he).counted, (h.fair e he).soon, (h.fair e he).acknowledged, (h.fair e he).exhausted⟩
    case inr he =>
      rw [List.mem_singleton.mp he]
      have hwait : 0 ≤ retryWithin store := (Int.natCast_nonneg _).trans (le_max_left _ _)
      exact ⟨Nat.zero_le _, Int.add_nonneg hl hwait, fun hs => by contradiction, fun hs => by contradiction⟩
  case held     => exact fun i e he => (h.held i e he).mono fun _ => le_refl _
  case recorded => exact fun i outcome rest hf => (h.recorded i outcome rest hf).mono fun _ => le_refl _

theorem Inv.claim (h : Inv store latest c) (ht : 0 ≤ store.leaseTtlSecs) (hn : now ≤ latest) :
    Inv store latest (c.step store (.claim i now)) := by
  simp only [Progress.step, count, answer, Delivery.step]
  split
  case h_2 => exact h
  case h_1 =>
    have hop : ∀ entry, SpoolOp.claimDue claimBatch ≠ .enqueue entry := by simp
    have hc := h.operate now c.delivery.delivered c.posted hop (fun _ => le_refl _) fun e e' he hr =>
      he.revise hr ht hn (by simp) (by simp) (by simp) (by simp) (fun _ => le_refl _) (List.Subset.refl _)
    refine hc.withFlusher (fun e he => ?_) fun outcome rest hf => ?_
    case refine_1 =>
      rw [Flusher.claimed_resume] at he
      obtain ⟨_, e₀, hm, _, rfl⟩ := Spool.mem_claimDue he
      refine ⟨(h.fair e₀ hm).counted, ?_⟩
      dsimp only
      omega
    case refine_2 => exact absurd hf (by cases (c.delivery.spool.claimDue store.leaseTtlSecs now claimBatch).1 <;>
      simp [Flusher.resume])

theorem Inv.post (h : Inv store latest c) (hl : 0 ≤ latest) (ht : 0 ≤ store.leaseTtlSecs) (hn : now ≤ latest)
    (acknowledged : Bool) : Inv store latest (c.step store (.post i now acknowledged)) := by
  cases hf : c.delivery.flusher i
  case polling | recording =>
    simp only [Progress.step, count, answer, Delivery.step, hf]
    exact h
  case posting entry rest =>
    simp only [Progress.step, count, answer, Delivery.step, hf]
    have hheld := h.held i
    rw [hf, Flusher.claimed, List.forall_mem_cons] at hheld
    refine h.withFlusher hheld.right fun outcome rest' he => ?_
    obtain ⟨rfl, -⟩ := Flusher.recording.inj he
    exact recorded_outcome hl ht hn hheld.left

theorem Inv.record (h : Inv store latest c) (ht : 0 ≤ store.leaseTtlSecs) (hn : now ≤ latest) :
    Inv store latest (c.step store (.record i now)) := by
  cases hf : c.delivery.flusher i
  case polling | posting =>
    simp only [Progress.step, count, answer, Delivery.step, hf]
    exact h
  case recording outcome rest =>
    simp only [Progress.step, count, answer, Delivery.step, hf]
    have hrec := h.recorded i outcome rest hf
    have hheld := h.held i
    rw [hf, Flusher.claimed] at hheld
    have hop : ∀ entry, outcome ≠ .enqueue entry := by
      rintro entry rfl
      cases hrec
    have hmono (id : Nat) :
        c.failures id ≤ if outcome.failed? = some id then c.failures id + 1 else c.failures id := by
      split
      case isTrue  => exact Nat.le_succ _
      case isFalse => exact le_refl _
    have hnew := h.operate now (Delivery.acknowledges outcome ++ c.delivery.delivered) c.posted hop hmono
      fun e e' he hr => he.revise hr ht hn
        (by
          rintro id at' rfl
          cases hrec
          assumption)
        (by
          rintro id rfl
          cases hrec
          simpa [SpoolOp.failed?])
        (by
          rintro id at' rfl
          simp [SpoolOp.failed?])
        (by
          rintro id rfl
          simp [Delivery.acknowledges])
        hmono (List.subset_append_right _ _)
    refine hnew.withFlusher (fun e he => ?_) fun outcome' rest' he => ?_
    case refine_1 =>
      rw [Flusher.claimed_resume] at he
      exact (hheld e he).mono hmono
    case refine_2 => cases rest <;> simp [Flusher.resume] at he

theorem Inv.step (h : Inv store latest c) (hl : 0 ≤ latest) (ht : 0 ≤ store.leaseTtlSecs)
    {event : DeliveryEvent ι} (he : ∀ now ∈ event.time, now ≤ latest)
    (hn : c.delivery.spool.nextId + 1 < 18446744073709551616) : Inv store latest (c.step store event) := by
  cases event
  case notify => exact h.notify hl hn ..
  case claim  => exact h.claim ht (he _ rfl)
  case post   => exact h.post hl ht (he _ rfl) _
  case record => exact h.record ht (he _ rfl)
  case replay id now =>
    have hop : ∀ entry, SpoolOp.replay id ≠ .enqueue entry := by simp
    exact h.operate now c.delivery.delivered c.posted hop (fun _ => le_refl _) fun e e' hf hr =>
      hf.revise hr ht (he _ rfl) (by simp) (by simp) (by simp) (by simp) (fun _ => le_refl _) (List.Subset.refl _)
  case restart => exact h.withFlusher (by simp [Flusher.claimed]) (by simp)

end Steps

section Answers

variable {d : Delivery ι} {i : ι} {f : Flusher} {now : Int} {entry : OutboxEntry} {acknowledged : Bool} {id : Nat}

-- What is marked as delivered was acknowledged. Each failed post is recorded once at most, so those that were
-- recorded and those that any flushers are about to record are no more than there were.
structure Accounted (c : Progress ι) : Prop where
  delivered : ∀ id ∈ c.delivery.delivered, (id, true) ∈ c.posted
  marking   : ∀ i id rest, c.delivery.flusher i = .recording (.markDelivered id) rest → (id, true) ∈ c.posted
  failed    : ∀ id (flushers : Finset ι),
    c.failures id + (flushers.filter fun i => (c.delivery.flusher i).fails = some id).card ≤
      c.posted.count (id, false)

theorem Accounted.init : Accounted ({} : Progress ι) where
  delivered := by simp
  marking   := by simp
  failed    := by simp [Flusher.fails]

theorem failed?_outcome :
    (Flusher.outcome now entry acknowledged).failed? = if acknowledged then none else some entry.id := by
  unfold Flusher.outcome
  cases acknowledged
  case true  => rfl
  case false =>
    simp only [Bool.false_eq_true, if_false]
    split <;> rfl

theorem outcome_markDelivered (h : Flusher.outcome now entry acknowledged = .markDelivered id) :
    id = entry.id ∧ acknowledged := by
  unfold Flusher.outcome at h
  cases acknowledged
  case true  => exact ⟨(SpoolOp.markDelivered.inj h).symm, rfl⟩
  case false =>
    simp only [Bool.false_eq_true, if_false] at h
    split at h <;> contradiction

theorem fails_resume (es : List OutboxEntry) : (Flusher.resume es).fails = none := by
  cases es <;> rfl

theorem resume_ne_recording {es rest : List OutboxEntry} {outcome : SpoolOp} :
    Flusher.resume es ≠ .recording outcome rest := by
  cases es <;> simp [Flusher.resume]

variable [DecidableEq ι]

-- A flusher that changes adds itself at most.
theorem card_fails_update (flusher : ι → Flusher) (i : ι) (f : Flusher) (id : Nat) (flushers : Finset ι) :
    (flushers.filter fun j => (Function.update flusher i f j).fails = some id).card ≤
      (flushers.filter fun j => (flusher j).fails = some id).card + if f.fails = some id then 1 else 0 := by
  by_cases hid : f.fails = some id
  case pos =>
    have hsub : (flushers.filter fun j => (Function.update flusher i f j).fails = some id) ⊆
        insert i (flushers.filter fun j => (flusher j).fails = some id) := by
      intro j hj
      rw [Finset.mem_filter, Function.update_apply] at hj
      rw [Finset.mem_insert, Finset.mem_filter]
      by_cases hji : j = i
      case pos => exact .inl hji
      case neg => exact .inr ⟨hj.left, by simpa [hji] using hj.right⟩
    rw [if_pos hid]
    exact (Finset.card_le_card hsub).trans (Finset.card_insert_le _ _)
  case neg =>
    rw [if_neg hid]
    refine Finset.card_le_card (Finset.monotone_filter_right flushers fun j _ hj => ?_)
    rw [Function.update_apply] at hj
    split at hj
    case isTrue  => exact absurd hj hid
    case isFalse => exact hj

-- A flusher that is about to record nothing.
theorem Accounted.withFlusher (h : Accounted c) (hd : d.delivered = c.delivery.delivered)
    (hf : d.flusher = Function.update c.delivery.flusher i f) (hn : f.fails = none)
    (hr : ∀ outcome rest, f ≠ .recording outcome rest) : Accounted ⟨d, c.failures, c.posted⟩ where
  delivered := hd ▸ h.delivered
  marking   := by
    intro j id rest hj
    dsimp only at hj
    rw [hf, Function.update_apply] at hj
    split at hj
    case isTrue  => exact absurd hj (hr _ _)
    case isFalse => exact h.marking j id rest hj
  failed    := by
    intro id flushers
    have hcard := card_fails_update c.delivery.flusher i f id flushers
    rw [hn, if_neg (by simp)] at hcard
    dsimp only
    rw [hf]
    exact (Nat.add_le_add_left hcard _).trans (h.failed id flushers)

theorem Accounted.post (h : Accounted c) : Accounted (c.step store (.post i now acknowledged)) := by
  cases hf : c.delivery.flusher i
  case polling | recording =>
    simp only [Progress.step, count, answer, Delivery.step, hf]
    exact ⟨h.delivered, h.marking, h.failed⟩
  case posting entry rest =>
    simp only [Progress.step, count, answer, Delivery.step, hf]
    constructor
    case delivered => exact fun id hid => List.mem_cons_of_mem _ (h.delivered id hid)
    case marking   =>
      intro j id rest' hj
      dsimp only at hj
      rw [Function.update_apply] at hj
      split at hj
      case isTrue  =>
        obtain ⟨rfl, rfl⟩ := outcome_markDelivered (Flusher.recording.inj hj).left
        exact List.mem_cons_self
      case isFalse => exact List.mem_cons_of_mem _ (h.marking j id rest' hj)
    case failed    =>
      intro id flushers
      -- Where one more has failed, one flusher more may be about to record it.
      have hold := h.failed id flushers
      have hcard := card_fails_update c.delivery.flusher i
        (.recording (Flusher.outcome now entry acknowledged) rest) id flushers
      rw [Flusher.fails, failed?_outcome] at hcard
      dsimp only
      rw [List.count_cons]
      cases acknowledged
      case true  =>
        simp only [if_true, reduceCtorEq, if_false] at hcard
        omega
      case false =>
        simp only [Bool.false_eq_true, if_false, Option.some.injEq] at hcard
        simp only [beq_iff_eq, Prod.mk.injEq, and_true]
        omega

-- What the flusher records, it is no longer about to record.
theorem Accounted.record (h : Accounted c) : Accounted (c.step store (.record i now)) := by
  cases hf : c.delivery.flusher i
  case polling | posting =>
    simp only [Progress.step, count, answer, Delivery.step, hf]
    exact ⟨h.delivered, h.marking, h.failed⟩
  case recording outcome rest =>
    simp only [Progress.step, count, answer, Delivery.step, hf]
    constructor
    case delivered =>
      intro id hid
      cases List.mem_append.mp hid
      case inr hid => exact h.delivered id hid
      case inl hid =>
        cases outcome <;> simp only [Delivery.acknowledges, List.not_mem_nil, List.mem_singleton] at hid
        case markDelivered =>
          subst hid
          exact h.marking i _ rest hf
    case marking   =>
      intro j id rest' hj
      dsimp only at hj
      rw [Function.update_apply] at hj
      split at hj
      case isTrue  => exact absurd hj resume_ne_recording
      case isFalse => exact h.marking j id rest' hj
    case failed    =>
      intro id flushers
      dsimp only
      have hfails (j) (hj : (Function.update c.delivery.flusher i (.resume rest) j).fails = some id) :
          j ≠ i ∧ (c.delivery.flusher j).fails = some id := by
        rw [Function.update_apply] at hj
        split at hj
        case isTrue      => rw [fails_resume] at hj; contradiction
        case isFalse hji => exact ⟨hji, hj⟩
      split
      case isFalse =>
        have hcard := card_fails_update c.delivery.flusher i (.resume rest) id flushers
        rw [fails_resume, if_neg (by simp)] at hcard
        exact (Nat.add_le_add_left hcard _).trans (h.failed id flushers)
      case isTrue hid =>
        have hnot : i ∉ flushers.filter fun j =>
            (Function.update c.delivery.flusher i (.resume rest) j).fails = some id := by
          intro hi
          exact (hfails i (Finset.mem_filter.mp hi).right).left rfl
        have hsub : insert i (flushers.filter fun j =>
            (Function.update c.delivery.flusher i (.resume rest) j).fails = some id) ⊆
            (insert i flushers).filter fun j => (c.delivery.flusher j).fails = some id := by
          intro j hj
          rw [Finset.mem_filter]
          cases Finset.mem_insert.mp hj
          case inl hji => exact ⟨hji ▸ Finset.mem_insert_self _ _, by rw [hji, hf, Flusher.fails, hid]⟩
          case inr hj  =>
            have hj := Finset.mem_filter.mp hj
            exact ⟨Finset.mem_insert_of_mem hj.left, (hfails j hj.right).right⟩
        have hcard := Finset.card_le_card hsub
        rw [Finset.card_insert_of_notMem hnot] at hcard
        have hold := h.failed id (insert i flushers)
        omega

theorem Accounted.step (h : Accounted c) (event : DeliveryEvent ι) : Accounted (c.step store event) := by
  cases event
  case post i now acknowledged => exact h.post
  case record i now            => exact h.record
  case notify                  => exact ⟨h.delivered, h.marking, h.failed⟩
  case replay                  => exact ⟨h.delivered, h.marking, h.failed⟩
  case restart i               => exact h.withFlusher rfl rfl rfl (by simp)
  case claim i now             =>
    cases hf : c.delivery.flusher i
    case posting | recording =>
      simp only [Progress.step, count, answer, Delivery.step, hf]
      exact ⟨h.delivered, h.marking, h.failed⟩
    case polling =>
      simp only [Progress.step, count, answer, Delivery.step, hf]
      exact h.withFlusher rfl rfl (fails_resume _) fun _ _ => resume_ne_recording

end Answers

section Runs

variable [DecidableEq ι]

theorem nextId_step (event : DeliveryEvent ι) (h : Inv store latest c) (h' : Inv store latest (c.step store event)) :
    (c.step store event).delivery.spool.nextId ≤ c.delivery.spool.nextId + 1 := by
  have hlen : (c.step store event).delivery.enqueued.length ≤ c.delivery.enqueued.length + 1 := by
    cases event <;> simp only [step, Delivery.step] <;> (try split) <;> simp
  rwa [h.assigned, h'.assigned, List.length_range', List.length_range'] at hlen

theorem inv_run (hl : 0 ≤ latest) (ht : 0 ≤ store.leaseTtlSecs) (events : List (DeliveryEvent ι))
    (he : ∀ event ∈ events, ∀ now ∈ event.time, now ≤ latest) (hn : events.length < 18446744073709551616) :
    Inv store latest (run store events) ∧ (run store events).delivery.spool.nextId ≤ events.length := by
  induction events using List.reverseRecOn
  case nil                              => exact ⟨.init, le_refl _⟩
  case append_singleton events event hi =>
    rw [List.length_append, List.length_singleton] at hn ⊢
    rw [List.forall_mem_append] at he
    obtain ⟨h, hid⟩ := hi he.left (Nat.lt_of_succ_lt hn)
    have hrun : run store (events ++ [event]) = (run store events).step store event := by
      rw [run, List.foldl_append, List.foldl_cons, List.foldl_nil, run]
    rw [hrun]
    have hnext : Inv store latest ((run store events).step store event) :=
      h.step hl ht (he.right event (List.mem_singleton_self _)) (by omega)
    exact ⟨hnext, (nextId_step event h hnext).trans (Nat.succ_le_succ hid)⟩

-- What a run keeps of its alerts.
structure Kept (store : FileOutboxStore) (latest : Int) (c : Progress ι) : Prop where
  assigned     : ∃ n, c.delivery.enqueued = List.range' 1 n
  spooled      : c.delivery.spool.entries.map (·.id) =
    c.delivery.enqueued.drop (c.delivery.enqueued.length - store.cap)
  acknowledged : ∀ e ∈ c.delivery.spool.entries, e.status = .delivered → (e.id, true) ∈ c.posted
  exhausted    : ∀ e ∈ c.delivery.spool.entries, e.status = .dead →
    outboxMaxAttempts ≤ c.posted.count (e.id, false)
  waiting      : ∀ e ∈ c.delivery.spool.entries, e.status = .pending →
    ∀ now, latest + retryWithin store ≤ now → e.due now

end Runs

end Progress
