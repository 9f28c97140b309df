import CoxAgent.Selection
import CoxAgent.State.Integrity
import Mathlib.Data.List.Sort
import Mathlib.Data.Prod.Lex
import Mathlib.Data.String.Basic

theorem Priority.ctorIdx_injective : Function.Injective Priority.ctorIdx := by
  intro a b h
  cases a <;> cases b <;> first | rfl | cases h

-- The levels in the order in which they are listed.
instance : LinearOrder Priority := LinearOrder.lift' Priority.ctorIdx Priority.ctorIdx_injective

theorem priorityRank_lt_iff {a b : Priority} : priorityRank a < priorityRank b ↔ a < b := by
  cases a <;> cases b <;> decide

theorem priorityRank_eq_iff {a b : Priority} : priorityRank a = priorityRank b ↔ a = b := by
  cases a <;> cases b <;> decide

namespace ProjectState

variable {s : ProjectState} {p : Ticket → Bool} {t u : Ticket} {ts : List Ticket} {id : TicketId}

-- In scope first, then by falling priority, then by rising id.
def queueKey (s : ProjectState) (t : Ticket) : Bool ×ₗ Priorityᵒᵈ ×ₗ String :=
  toLex (!s.inDevScope t.id, toLex (.toDual t.priority, t.id.asStr))

theorem queuedBefore_iff : s.queuedBefore t u ↔ s.queueKey t ≤ s.queueKey u := by
  have hlt : priorityRank u.priority < priorityRank t.priority ↔ OrderDual.toDual t.priority < .toDual u.priority :=
    priorityRank_lt_iff
  have heq : priorityRank u.priority = priorityRank t.priority ↔ OrderDual.toDual t.priority = .toDual u.priority :=
    priorityRank_eq_iff.trans eq_comm
  simp only [queuedBefore, queueKey, Prod.Lex.toLex_le_toLex, ← hlt, ← heq]
  cases s.inDevScope t.id <;> cases s.inDevScope u.id <;> simp

instance : Std.Total fun t u => (s.queuedBefore t u : Prop) where
  total t u := by
    rw [queuedBefore_iff, queuedBefore_iff]
    exact le_total _ _

instance : IsTrans Ticket fun t u => s.queuedBefore t u where
  trans t u v htu huv := by
    rw [queuedBefore_iff] at *
    exact htu.trans huv

theorem asStr_inj {a b : TicketId} : a.asStr = b.asStr ↔ a = b := by
  cases a
  cases b
  simp

theorem id_eq_of_queueKey (h : s.queueKey t = s.queueKey u) : t.id = u.id :=
  asStr_inj.mp (congrArg (fun k => (ofLex (ofLex k).2).2) h)

-- The queue of a predicate before the ids are taken.
def sorted (s : ProjectState) (p : Ticket → Bool) : List Ticket :=
  (s.tickets.filter p).insertionSort (s.queuedBefore · ·)

theorem candidates_eq : s.candidates p = (s.sorted p).map (·.id) :=
  rfl

theorem sorted_perm : (s.sorted p).Perm (s.tickets.filter p) :=
  List.perm_insertionSort _ _

theorem mem_of_mem_sorted (h : t ∈ s.sorted p) : t ∈ s.tickets :=
  (List.mem_filter.mp (sorted_perm.mem_iff.mp h)).1

theorem sorted_pairwise : (s.sorted p).Pairwise (s.queueKey · ≤ s.queueKey ·) := by
  have h := List.pairwise_insertionSort (s.queuedBefore · ·) (s.tickets.filter p)
  exact h.imp fun h => queuedBefore_iff.mp h

theorem candidates_perm : (s.candidates p).Perm ((s.tickets.filter p).map (·.id)) :=
  sorted_perm.map _

section Unique

variable (hu : (s.tickets.map (·.id)).Nodup)
include hu

theorem eq_of_id (ht : t ∈ s.tickets) (hu' : u ∈ s.tickets) (h : t.id = u.id) : t = u :=
  List.inj_on_of_nodup_map hu ht hu' h

theorem ticket_eq_some_iff : s.ticket id = some t ↔ t ∈ s.tickets ∧ t.id = id := by
  constructor
  case mp  => exact ticket_mem
  case mpr =>
    intro ⟨ht, hid⟩
    exact hid ▸ ticket_eq_of_nodup hu ht

-- No two tickets have the same key, so that the order is strict.
theorem candidates_pairwise :
    (s.candidates p).Pairwise fun a b => ∀ t ∈ s.tickets, ∀ u ∈ s.tickets, t.id = a → u.id = b →
      s.queueKey t < s.queueKey u := by
  rw [candidates_eq, List.pairwise_map]
  have hn : ((s.sorted p).map (·.id)).Nodup := by
    rw [(sorted_perm.map _).nodup_iff]
    exact hu.sublist (List.filter_sublist.map _)
  apply (List.Pairwise.and sorted_pairwise (List.pairwise_map.mp hn)).imp_of_mem
  intro t u ht hu' ⟨hle, hne⟩ t' ht' u' hu'' hid hid'
  rw [eq_of_id hu ht' (mem_of_mem_sorted ht) hid, eq_of_id hu hu'' (mem_of_mem_sorted hu') hid']
  exact lt_of_le_of_ne hle fun h => hne (id_eq_of_queueKey h)

end Unique

section Reordered

-- Another order of the same tickets.
variable (hu : (s.tickets.map (·.id)).Nodup) (hp : ts.Perm s.tickets)
include hu hp

theorem reordered_unique : (ts.map (·.id)).Nodup :=
  ((hp.map _).nodup_iff).mpr hu

theorem ticket_reordered : { s with tickets := ts }.ticket id = s.ticket id := by
  have hu' : (({ s with tickets := ts } : ProjectState).tickets.map (·.id)).Nodup :=
    reordered_unique hu hp
  ext t
  rw [ticket_eq_some_iff hu', ticket_eq_some_iff hu, hp.mem_iff]

theorem inDevScope_reordered : { s with tickets := ts }.inDevScope id = s.inDevScope id := by
  simp only [inDevScope, ticket_reordered hu hp, activeBugBurnFloor]

theorem queueKey_reordered : { s with tickets := ts }.queueKey t = s.queueKey t := by
  simp only [queueKey, inDevScope_reordered hu hp]

-- Two sorted lists of the same tickets are one list, as the keys are distinct.
theorem candidates_reordered : { s with tickets := ts }.candidates p = s.candidates p := by
  rw [candidates_eq, candidates_eq]
  congr 1
  refine @List.Perm.eq_of_pairwise _ (s.queueKey · ≤ s.queueKey ·) _ _ ?_ ?_ sorted_pairwise ?_
  · intro t u ht hu' htu hut
    have ht := hp.mem_iff.mp (mem_of_mem_sorted ht)
    exact eq_of_id hu ht (mem_of_mem_sorted hu') (id_eq_of_queueKey (le_antisymm htu hut))
  · have h := @sorted_pairwise { s with tickets := ts } p
    simpa only [queueKey_reordered hu hp] using h
  · exact sorted_perm.trans ((hp.filter p).trans sorted_perm.symm)

end Reordered

end ProjectState

-- The queues that the developers, the architect and the designer take their work from.
inductive WorkQueue
  | openBugs | design | ux | readyFeatures
deriving DecidableEq, Repr

namespace WorkQueue

open ProjectState (openBug needsDesign needsUx readyFeature depsSatisfied satisfied ticket_reordered)

variable {s : ProjectState} {t : Ticket}

def candidates (s : ProjectState) : WorkQueue → List TicketId
  | openBugs      => s.openBugCandidates
  | design        => s.designCandidates
  | ux            => s.uxCandidates
  | readyFeatures => s.readyFeatureCandidates

-- Which tickets are in the queue.
def Serves (s : ProjectState) (t : Ticket) : WorkQueue → Prop
  | openBugs      => t.kind = .bug ∧ t.status ∈ [.open, .ready, .pending] ∧
                       ∀ floor ∈ s.activeBugBurnFloor, floor ≤ t.priority
  | design        => t.kind ∈ [.feature, .chore] ∧ t.status = .pending ∧ t.design.technical = none
  | ux            => t.kind ∈ [.feature, .chore] ∧ t.status = .pending ∧ t.hasUi ∧
                       t.design.technical ≠ none ∧ t.design.ux = none
  | readyFeatures => t.kind ∈ [.feature, .chore] ∧ t.status = .ready ∧
                       ∀ dep ∈ t.dependsOn, ∃ d ∈ s.ticket dep,
                         d.status ∈ [.done, .documented, .verified]

instance {q : WorkQueue} : DecidablePred (q.Serves s) := fun t => by
  cases q <;> exact inferInstanceAs (Decidable (_ ∧ _))

theorem belowBugBurnFloor_eq_false {floor : Option Priority} {p : Priority} :
    belowBugBurnFloor floor p = false ↔ ∀ f, floor = some f → f ≤ p := by
  cases floor <;> simp [belowBugBurnFloor, priorityRank_lt_iff, -not_lt, ← not_lt]

-- Each queue filters by what it serves.
theorem candidates_eq (q : WorkQueue) : q.candidates s = s.candidates (q.Serves s ·) := by
  unfold ProjectState.candidates
  cases q
  all_goals
    refine congrArg (fun l : List Ticket => (l.insertionSort (s.queuedBefore · ·)).map (·.id)) ?_
    refine List.filter_congr fun t _ => ?_
    rw [Bool.eq_iff_iff]
    simp [Serves, belowBugBurnFloor_eq_false, openBug, needsDesign, needsUx, readyFeature, depsSatisfied, satisfied,
      Ticket.isFeature, Option.any_eq_true, and_assoc]

theorem serves_reordered {ts : List Ticket} (q : WorkQueue) (hu : (s.tickets.map (·.id)).Nodup)
    (hp : ts.Perm s.tickets) : q.Serves { s with tickets := ts } t ↔ q.Serves s t := by
  cases q
  case readyFeatures => simp only [Serves, ticket_reordered hu hp]
  all_goals exact Iff.rfl

end WorkQueue

namespace ProjectState

variable {s : ProjectState} {t : Ticket}

theorem mem_readyFeatureCandidates_iff (hu : (s.tickets.map (·.id)).Nodup) (ht : t ∈ s.tickets)
    (hr : readyFeature t) : t.id ∈ s.readyFeatureCandidates ↔ s.depsSatisfied t := by
  rw [readyFeatureCandidates, mem_candidates]
  constructor
  case mp =>
    intro ⟨u, hu', hid, hp⟩
    simp only [Bool.and_eq_true] at hp
    exact eq_of_id hu hu' ht hid ▸ hp.2
  case mpr =>
    intro hd
    exact ⟨t, ht, rfl, by simp [hr, hd]⟩

-- A ready feature is among the blocked work iff something holds it back.
theorem mem_workBlockers (hu : (s.tickets.map (·.id)).Nodup) (ht : t ∈ s.tickets)
    (hr : readyFeature t) :
    t.id ∈ s.workBlockers.map (·.id) ↔ ¬(s.depsSatisfied t ∧ s.inDevScope t.id) := by
  have hf : t.isFeature ∧ t.status ∈ [.pending, .ready, .inProgress] := by
    simp only [readyFeature, decide_eq_true_eq] at hr
    simp [Ticket.isFeature, hr]
  have hb : s.blockedReasons t ≠ [] ↔ ¬(s.depsSatisfied t ∧ s.inDevScope t.id) := by
    simp only [blockedReasons]
    split <;> split <;> simp [*]
  rw [← hb]
  simp only [workBlockers, List.mem_map, List.mem_flatMap, List.mem_filter, decide_eq_true_eq]
  constructor
  case mp =>
    intro ⟨_, ⟨u, ⟨hu', _⟩, reason, hm, he⟩, hid⟩
    subst he
    exact List.ne_nil_of_mem (eq_of_id hu hu' ht hid ▸ hm)
  case mpr =>
    intro hn
    have ⟨reason, hm⟩ := List.exists_mem_of_ne_nil _ hn
    exact ⟨⟨t.id, t.title, reason⟩, ⟨t, ⟨ht, hf⟩, reason, hm, rfl⟩, rfl⟩

-- The queues are exact and do not depend on how the board is stored, and the projection of the
-- blocked work agrees with them.
theorem queues_exact (hu : (s.tickets.map (·.id)).Nodup) :
    (∀ q : WorkQueue,
      (q.candidates s).Perm ((s.tickets.filter (q.Serves s ·)).map (·.id)) ∧
      (q.candidates s).Pairwise (fun a b => ∀ t ∈ s.tickets, ∀ u ∈ s.tickets, t.id = a → u.id = b →
        s.queueKey t < s.queueKey u) ∧
      ∀ ts : List Ticket, ts.Perm s.tickets →
        q.candidates { s with tickets := ts } = q.candidates s) ∧
    ∀ t ∈ s.tickets, readyFeature t →
      (t.id ∈ s.readyFeatureCandidates ∧ s.inDevScope t.id ↔ t.id ∉ s.workBlockers.map (·.id)) := by
  constructor
  · intro q
    rw [q.candidates_eq]
    refine ⟨candidates_perm, candidates_pairwise hu, fun ts hp => ?_⟩
    rw [q.candidates_eq, ← candidates_reordered hu hp]
    simp only [q.serves_reordered hu hp]
  · intro t ht hr
    rw [mem_readyFeatureCandidates_iff hu ht hr, mem_workBlockers hu ht hr, not_not]

-- A sprint with ready work inside and outside of it, and a feature in it that waits for a pending one.
def manyReady : ProjectState where
  tickets := [
    { id := ⟨"F1"⟩, kind := .feature, title := "a", status := .ready, priority := .high },
    { id := ⟨"F2"⟩, kind := .feature, title := "b", status := .ready, priority := .high, dependsOn := [⟨"F6"⟩] },
    { id := ⟨"F5"⟩, kind := .feature, title := "c", status := .ready, priority := .medium },
    { id := ⟨"F4"⟩, kind := .chore, title := "d", status := .ready, priority := .low },
    { id := ⟨"F3"⟩, kind := .feature, title := "e", status := .ready, priority := .medium, dependsOn := [⟨"F0"⟩] },
    { id := ⟨"F6"⟩, kind := .feature, title := "f", status := .pending },
    { id := ⟨"F0"⟩, kind := .feature, title := "g", status := .done }
  ]
  sprint := some {
    number       := 1
    goal         := ""
    startedCycle := 0
    lengthCycles := 5
    committed    := [⟨"F2"⟩, ⟨"F3"⟩, ⟨"F4"⟩, ⟨"F5"⟩]
  }

theorem queues_exact_manyReady : WorkQueue.readyFeatures.candidates manyReady = [⟨"F3"⟩, ⟨"F5"⟩, ⟨"F4"⟩, ⟨"F1"⟩] ∧
    (∀ q : WorkQueue,
      (q.candidates manyReady).Perm ((manyReady.tickets.filter (q.Serves manyReady ·)).map (·.id)) ∧
      (q.candidates manyReady).Pairwise (fun a b => ∀ t ∈ manyReady.tickets, ∀ u ∈ manyReady.tickets,
        t.id = a → u.id = b → manyReady.queueKey t < manyReady.queueKey u) ∧
      ∀ ts : List Ticket, ts.Perm manyReady.tickets →
        q.candidates { manyReady with tickets := ts } = q.candidates manyReady) ∧
    ∀ t ∈ manyReady.tickets, readyFeature t →
      (t.id ∈ manyReady.readyFeatureCandidates ∧ manyReady.inDevScope t.id ↔
        t.id ∉ manyReady.workBlockers.map (·.id)) :=
  ⟨by decide +kernel, queues_exact (by decide)⟩

end ProjectState
