import CoxAgent.Audit.Sink
import CoxAgent.Audit.Theorems.Tamper
import CoxAgent.Lib.Run

namespace SqlAuditSink

-- The hash that a task has read and will link its row to.
def Task.prev? {κ : Type} : Task κ → Option String
  | .linked _ _ prev => some prev
  | _                => none

namespace World

variable {ι κ : Type} [DecidableEq ι] [DecidableEq κ] {sha256 : ByteArray → Digest}

-- The steps that keep the chain whole: a row is inserted while the hash that it links to is that of
-- the newest row, and a prune deletes nothing that a later row was linked to.
def Undisturbed (w : World ι κ) : Event ι κ → Prop
  | .insert i true => ∀ prev ∈ (w.tasks i).prev?, prev = tip w.entries
  | .prune cutoff  => SqlAuditSink.prune cutoff w.entries <+: w.entries
  | _              => True

instance (w : World ι κ) (e : Event ι κ) : Decidable (w.Undisturbed e) :=
  match e with
  | .insert i true => inferInstanceAs (Decidable (∀ prev ∈ (w.tasks i).prev?, prev = tip w.entries))
  | .prune cutoff  => inferInstanceAs (Decidable (SqlAuditSink.prune cutoff w.entries <+: w.entries))
  | .insert _ false | .call _ _ _ | .lock _ | .readTip _ _ | .backfill _ | .scan _ | .update _
  | .abort _ => instDecidableTrue

-- A chain that is whole has no rows for a backfill.
structure Whole (sha256 : ByteArray → Digest) (w : World ι κ) : Prop where
  linked  : Linked genesisPrev w.entries
  hashes  : ∀ row ∈ w.entries, row.hash = row.rehash sha256
  nothing : ∀ i prev rows, w.tasks i = .sealing prev rows → rows = []

variable {w : World ι κ} {i : ι} {task : Task κ} {entry : AuditRecord} {prev cutoff : String}

omit [DecidableEq κ] in
theorem tasks_goto {j : ι} {task' : Task κ} (h : (w.goto i task).tasks j = task') :
    j = i ∧ task = task' ∨ j ≠ i ∧ w.tasks j = task' := by
  by_cases he : j = i
  case pos =>
    subst he
    exact .inl ⟨rfl, by simpa [World.goto] using h⟩
  case neg => exact .inr ⟨he, by simpa [World.goto, he] using h⟩

namespace Whole

omit [DecidableEq κ] in
theorem goto (h : w.Whole sha256) (ht : ∀ prev rows, task = .sealing prev rows → rows = []) :
    (w.goto i task).Whole sha256 := by
  refine ⟨h.linked, h.hashes, fun j prev rows hj => ?_⟩
  rcases tasks_goto hj with ⟨_, he⟩ | ⟨_, he⟩
  · exact ht prev rows he
  · exact h.nothing j prev rows he

omit [DecidableEq κ] in
theorem finish (h : w.Whole sha256) : (w.finish i).Whole sha256 := by
  have hg : (w.goto i .idle).Whole sha256 := h.goto (by simp)
  exact ⟨hg.linked, hg.hashes, hg.nothing⟩

omit [DecidableEq ι] [DecidableEq κ] in
theorem sealed (h : w.Whole sha256) : ∀ row ∈ w.entries, row.Sealed sha256 :=
  h.linked.length_prev (by decide) h.hashes

omit [DecidableEq ι] [DecidableEq κ] in
theorem append (h : w.Whole sha256) (hp : prev = tip w.entries) :
    (w.append sha256 entry prev).Whole sha256 := by
  have he : (w.append sha256 entry prev).entries = SqlAuditSink.record sha256 w.entries entry := by
    simp [World.append, entries, SqlAuditSink.record, hp]
  constructor
  case linked =>
    rw [he]
    exact h.linked.append (tip_eq h.sealed)
  case hashes =>
    rw [he]
    exact fun row hr => (step_sealed h.sealed (.record entry) row hr).hash
  case nothing => exact h.nothing

omit [DecidableEq ι] [DecidableEq κ] in
theorem prune (h : w.Whole sha256) (hp : SqlAuditSink.prune cutoff w.entries <+: w.entries) :
    { w with rows := w.rows.filter fun row => ¬row.entry.at' < cutoff : World ι κ }.Whole sha256 := by
  have he : { w with rows := w.rows.filter fun row => ¬row.entry.at' < cutoff : World ι κ }.entries =
      SqlAuditSink.prune cutoff w.entries := by
    simp [entries, SqlAuditSink.prune, List.filter_map, Function.comp_def]
  exact ⟨he ▸ h.linked.shorter hp, he ▸ fun row hr => h.hashes row (hp.subset hr), h.nothing⟩

omit [DecidableEq ι] [DecidableEq κ] in
-- A digest is never the empty text.
theorem unchained (h : w.Whole sha256) : w.unchained = [] := by
  rw [World.unchained, List.filter_eq_nil_iff]
  intro row hr he
  have hh := h.hashes row.entry (List.mem_map_of_mem hr)
  have hl := length_rehash sha256 row.entry
  rw [← hh, of_decide_eq_true he] at hl
  simp at hl

theorem step (h : w.Whole sha256) {e : Event ι κ} (he : w.Undisturbed e) :
    (w.step sha256 e).Whole sha256 := by
  cases e
  case call =>
    simp only [World.step]
    split
    · exact h.goto (by simp)
    · exact h
  case lock i =>
    simp only [World.step]
    split
    case h_2 => exact h
    case h_1 sink entry _ =>
      split
      case isFalse => exact h
      case isTrue =>
        have hg : (w.goto i (.locked sink entry)).Whole sha256 := h.goto (by simp)
        exact ⟨hg.linked, hg.hashes, hg.nothing⟩
  case readTip =>
    simp only [World.step]
    split
    · exact h.goto (by simp)
    · exact h
  case insert i ok =>
    simp only [World.step]
    split
    case h_2 => exact h
    case h_1 entry prev ht =>
      cases ok
      case false => exact h.finish
      case true =>
        exact (h.append (he prev (by simp [ht, Task.prev?]))).finish
  case prune => exact h.prune he
  case backfill =>
    simp only [World.step]
    split
    · exact h.goto (by simp)
    · exact h
  case scan =>
    simp only [World.step]
    split
    case h_1 =>
      refine h.goto fun prev rows hr => ?_
      cases hr
      exact h.unchained
    case h_2 => exact h
  case update i =>
    simp only [World.step]
    split
    case h_1 row rows ht => cases h.nothing i _ _ ht
    case h_2 => exact h.finish
    case h_3 => exact h
  case abort => exact h.finish

end Whole

omit [DecidableEq ι] [DecidableEq κ] in
theorem Whole.verifyChain (h : w.Whole sha256) : ∃ n, verifyChain sha256 w.entries = .ok n :=
  verifyChain_ok.mpr ⟨h.linked, h.hashes⟩

omit [DecidableEq ι] [DecidableEq κ] in
theorem Whole.init (sha256 : ByteArray → Digest) : Whole sha256 ({} : World ι κ) :=
  ⟨trivial, by simp [entries], by simp⟩

section Solo

-- The lock in use: whoever is past it holds it, and what was read as the tip is still the tip.
structure Solo (sink : κ) (w : World ι κ) : Prop where
  waiting : ∀ i s entry, w.tasks i = .waiting s entry → s = sink
  locked  : ∀ i s entry, w.tasks i = .locked s entry → s = sink ∧ w.holder sink = some i
  linked  : ∀ i s entry prev, w.tasks i = .linked s entry prev →
              s = sink ∧ w.holder sink = some i ∧ prev = tip w.entries

-- A single instance whose reads succeed, without retention.
def OnlySink (sink : κ) : Event ι κ → Prop
  | .call _ s _   => s = sink
  | .readTip _ ok => ok = true
  | .prune _      => False
  | _             => True

variable {sink : κ}

namespace Solo

omit [DecidableEq ι] [DecidableEq κ] in
theorem undisturbed (h : w.Solo sink) {e : Event ι κ} (he : OnlySink sink e) : w.Undisturbed e := by
  cases e
  case insert i ok =>
    cases ok
    case false => trivial
    case true =>
      intro prev hp
      cases ht : w.tasks i <;> simp only [ht, Task.prev?, Option.mem_def, Option.some.injEq, reduceCtorEq] at hp
      case linked s entry prev' => exact hp ▸ (h.linked i s entry prev' ht).right.right
  case prune => cases he
  all_goals trivial

omit [DecidableEq κ] in
theorem goto (h : w.Solo sink) (hw : ∀ s entry, task = .waiting s entry → s = sink)
    (hl : ∀ s entry, task = .locked s entry → s = sink ∧ w.holder sink = some i)
    (ht : ∀ s entry prev, task = .linked s entry prev →
      s = sink ∧ w.holder sink = some i ∧ prev = tip w.entries) : (w.goto i task).Solo sink := by
  constructor
  case waiting =>
    intro j s entry hj
    rcases tasks_goto hj with ⟨_, he⟩ | ⟨_, he⟩
    · exact hw s entry he
    · exact h.waiting j s entry he
  case locked =>
    intro j s entry hj
    rcases tasks_goto hj with ⟨rfl, he⟩ | ⟨_, he⟩
    · exact hl s entry he
    · exact h.locked j s entry he
  case linked =>
    intro j s entry prev hj
    rcases tasks_goto hj with ⟨rfl, he⟩ | ⟨_, he⟩
    · exact ht s entry prev he
    · exact h.linked j s entry prev he

omit [DecidableEq κ] in
-- Nobody else held the lock that is dropped.
theorem finish (h : w.Solo sink) : (w.finish i).Solo sink := by
  constructor
  case waiting =>
    intro j s entry hj
    rcases tasks_goto hj with ⟨_, he⟩ | ⟨_, he⟩
    · cases he
    · exact h.waiting j s entry he
  case locked =>
    intro j s entry hj
    rcases tasks_goto hj with ⟨_, he⟩ | ⟨hne, he⟩
    · cases he
    · have ⟨hs, hh⟩ := h.locked j s entry he
      exact ⟨hs, by simp [World.finish, hh, hne]⟩
  case linked =>
    intro j s entry prev hj
    rcases tasks_goto hj with ⟨_, he⟩ | ⟨hne, he⟩
    · cases he
    · have ⟨hs, hh, hp⟩ := h.linked j s entry prev he
      exact ⟨hs, by simp [World.finish, hh, hne], hp⟩

omit [DecidableEq κ] in
-- Only the task whose row is appended has a tip, and it is done with it.
theorem append (h : w.Solo sink) (hi : w.holder sink = some i) :
    ((w.append sha256 entry prev).finish i).Solo sink := by
  constructor
  case waiting => exact h.finish.waiting
  case locked  => exact h.finish.locked
  case linked =>
    intro j s entry' prev' hj
    rcases tasks_goto hj with ⟨_, he⟩ | ⟨hne, he⟩
    · cases he
    · have hh := (h.linked j s entry' prev' he).right.left
      exact absurd (Option.some.inj (hh.symm.trans hi)) hne

-- Nobody is past the lock that is taken.
theorem lock (h : w.Solo sink) (hfree : w.holder sink = none) :
    { w.goto i (.locked sink entry) with holder := Function.update w.holder sink (some i) : World ι κ }.Solo sink := by
  constructor
  case waiting =>
    intro j s entry' hj
    rcases tasks_goto hj with ⟨_, he⟩ | ⟨_, he⟩
    · cases he
    · exact h.waiting j s entry' he
  case locked =>
    intro j s entry' hj
    rcases tasks_goto hj with ⟨rfl, hl⟩ | ⟨_, hl⟩
    · cases hl
      exact ⟨rfl, Function.update_self _ _ _⟩
    · cases hfree.symm.trans (h.locked j s entry' hl).right
  case linked =>
    intro j s entry' prev hj
    rcases tasks_goto hj with ⟨_, he⟩ | ⟨_, he⟩
    · cases he
    · cases hfree.symm.trans (h.linked j s entry' prev he).right.left

theorem step (h : w.Solo sink) (hw : w.Whole sha256) {e : Event ι κ} (he : OnlySink sink e) :
    (w.step sha256 e).Solo sink := by
  cases e
  case call i s entry =>
    simp only [World.step]
    split
    case h_1 =>
      refine h.goto ?_ (by simp) (by simp)
      intro s' entry' ht
      cases ht
      exact he
    case h_2 => exact h
  case lock i =>
    simp only [World.step]
    split
    case h_2 => exact h
    case h_1 s entry ht =>
      split
      case isFalse => exact h
      case isTrue hfree =>
        cases h.waiting i s entry ht
        exact h.lock hfree
  case readTip i ok =>
    cases he
    simp only [World.step]
    split
    case h_1 s entry ht =>
      refine h.goto (by simp) (by simp) fun s' entry' prev hl => ?_
      cases hl
      have ⟨hs, hh⟩ := h.locked i s entry ht
      exact ⟨hs, hh, rfl⟩
    case h_2 => exact h
  case insert i ok =>
    simp only [World.step]
    split
    case h_2 => exact h
    case h_1 s entry prev ht =>
      cases ok
      case false => exact h.finish
      case true  => exact h.append (h.linked i s entry prev ht).right.left
  case prune => cases he
  case backfill =>
    simp only [World.step]
    split
    · exact h.goto (by simp) (by simp) (by simp)
    · exact h
  case scan =>
    simp only [World.step]
    split
    · exact h.goto (by simp) (by simp) (by simp)
    · exact h
  case update i =>
    simp only [World.step]
    split
    case h_1 ht => cases hw.nothing i _ _ ht
    case h_2 => exact h.finish
    case h_3 => exact h
  case abort => exact h.finish

end Solo

-- What the lock achieves: a single instance without retention never disturbs its own chain, in
-- whatever order its tasks run.
theorem verifyChain_solo (sha256 : ByteArray → Digest) (events : List (Event ι κ))
    (h : ∀ e ∈ events, OnlySink sink e) :
    ∃ n, verifyChain sha256 (events.foldl (step sha256) {}).entries = .ok n := by
  have hj : Whole sha256 (events.foldl (step sha256) ({} : World ι κ)) ∧
      Solo sink (events.foldl (step sha256) ({} : World ι κ)) := by
    refine Run.inv (J := fun w => Whole sha256 w ∧ Solo sink w) ?_ (Run.meets_of_forall h) ?_
    · intro w e he ⟨hw, hs⟩
      exact ⟨hw.step (hs.undisturbed he), hs.step hw he⟩
    · exact ⟨.init sha256, by simp, by simp, by simp⟩
  exact hj.left.verifyChain

end Solo

-- Any number of sinks, tasks, prunes and backfills: the chain stays whole as long as no step
-- disturbs it.
theorem verifyChain_undisturbed (sha256 : ByteArray → Digest) (events : List (Event ι κ))
    (h : Run.Meets (step sha256) Undisturbed {} events) :
    ∃ n, verifyChain sha256 (events.foldl (step sha256) {}).entries = .ok n := by
  have hw : Whole sha256 (events.foldl (step sha256) ({} : World ι κ)) :=
    Run.inv (fun _ _ he hw => hw.step he) h (.init sha256)
  exact hw.verifyChain

end World

-- The digest of the refused login as the first row.
def refusedFirstDigest : Digest := #v[
  92, 212, 125, 82, 187, 140, 0, 246, 28, 100, 205, 63, 139, 10, 226, 130,
  240, 200, 26, 150, 88, 148, 181, 37, 96, 138, 134, 90, 38, 41, 14, 252]

-- SHA-256 on the rows below.
def forkTable (bytes : ByteArray) : Digest :=
  if bytes.data.toList = (rowText genesisPrev "t2" "eve" "login" 401).toUTF8.data.toList then
    refusedFirstDigest
  else
    sha256Table bytes

-- Two processes record a login each, the first one as a whole before the second one.
def inTurn : List (Event Bool Bool) := [
  .call true true login, .lock true, .readTip true true, .insert true true,
  .call false false refused, .lock false, .readTip false true, .insert false true]

-- Both read the tip before either inserts.
def atOnce : List (Event Bool Bool) := [
  .call true true login, .lock true, .readTip true true,
  .call false false refused, .lock false, .readTip false true,
  .insert true true, .insert false true]

-- A race of two processes and the retention each break the chain.
theorem verifyChain_breaks :
    (∀ n, verifyChain forkTable (atOnce.foldl (World.step forkTable) {}).entries ≠ .ok n) ∧
    ∀ n, verifyChain forkTable
      ((inTurn ++ [Event.prune "t2"]).foldl (World.step forkTable) {}).entries ≠ .ok n := by
  have refuted {r : Except ChainBreak Nat} (h : r.isOk = false) : ∀ n, r ≠ .ok n := by
    rintro n rfl
    cases h
  exact ⟨refuted (by decide +kernel), refuted (by decide +kernel)⟩

theorem verifyChain_undisturbed_inTurn :
    ∃ n, verifyChain forkTable (inTurn.foldl (World.step forkTable) {}).entries = .ok n :=
  World.verifyChain_undisturbed forkTable inTurn (by decide +kernel)

end SqlAuditSink
