import CoxAgent.Sprint.Milestones
import Mathlib.Data.List.Nodup

-- The bar is full once at most half a percent of the scope is open.
theorem milestoneProgress_le {released : Bool} {closed scope : Nat} (h : closed ≤ scope) :
    milestoneProgress released closed scope ≤ 100 := by
  unfold milestoneProgress percentByte
  split
  case isTrue  => exact Nat.le_refl _
  case isFalse =>
    split
    case isTrue hs =>
      have hlt : (closed * 100 + scope / 2) / scope < 101 := by
        rw [Nat.div_lt_iff_lt_mul (Nat.pos_of_ne_zero hs)]
        omega
      split <;> omega
    case isFalse => exact Nat.zero_le _

theorem milestoneProgress_full {closed scope : Nat} (h : closed ≤ scope) :
    milestoneProgress false closed scope = 100 ↔ scope ≠ 0 ∧ 100 * (scope - closed) ≤ scope / 2 := by
  unfold milestoneProgress percentByte
  rw [if_neg Bool.false_ne_true]
  split
  case isTrue hs =>
    have hlt : (closed * 100 + scope / 2) / scope < 101 := by
      rw [Nat.div_lt_iff_lt_mul (Nat.pos_of_ne_zero hs)]
      omega
    have hle : 100 ≤ (closed * 100 + scope / 2) / scope ↔ 100 * (scope - closed) ≤ scope / 2 := by
      rw [Nat.le_div_iff_mul_le (Nat.pos_of_ne_zero hs)]
      omega
    rw [if_pos (by omega), and_iff_right hs, ← hle]
    omega
  case isFalse hs => simp_all

namespace ProjectState

variable {lib : SemverLib} {s : ProjectState} {i : Nat} {id : TicketId} {name : String}

-- The first row that is not released, with a target that can be read.
def IsActiveRow (lib : SemverLib) (rows : List MilestoneProjection) (row : MilestoneProjection) : Prop :=
  ∃ i : Nat, rows[i]? = some row ∧ !row.released ∧ (lib.parse row.targetVersion).isSome ∧
    ∀ j < i, ∀ row', rows[j]? = some row' → row'.released

theorem projectMilestones_getElem? :
    (s.projectMilestones lib)[i]? = s.milestones[i]?.map (s.projectMilestone lib i) :=
  List.getElem?_mapIdx

theorem activeTargetIndex_eq_some : s.activeTargetIndex lib = some i ↔
    ∃ m, s.milestones[i]? = some m ∧ !m.fulfilled ∧ (lib.parse m.targetVersion).isSome ∧
      ∀ j < i, ∀ m', s.milestones[j]? = some m' → m'.fulfilled := by
  rw [activeTargetIndex, Option.filter_eq_some_iff, List.findIdx?_eq_some_iff_getElem]
  grind

theorem isActiveRow_iff {row : MilestoneProjection} : IsActiveRow lib (s.projectMilestones lib) row ↔
    ∃ i m, s.activeTargetIndex lib = some i ∧ s.milestones[i]? = some m ∧ row = s.projectMilestone lib i m := by
  unfold IsActiveRow
  simp only [projectMilestones_getElem?, Option.map_eq_some_iff]
  constructor
  case mp =>
    rintro ⟨i, ⟨m, hm, rfl⟩, hr, ht, hj⟩
    refine ⟨i, m, activeTargetIndex_eq_some.mpr ⟨m, hm, hr, ht, fun j hji m' hm' => ?_⟩, hm, rfl⟩
    exact hj j hji _ ⟨m', hm', rfl⟩
  case mpr =>
    rintro ⟨i, m, ha, hm, rfl⟩
    have ⟨m', hm', hr, ht, hj⟩ := activeTargetIndex_eq_some.mp ha
    obtain rfl : m = m' := Option.some.inj (hm.symm.trans hm')
    refine ⟨i, ⟨m, hm, rfl⟩, hr, ht, ?_⟩
    rintro j hji _ ⟨m', hm', rfl⟩
    exact hj j hji m' hm'

theorem mem_committedScope :
    id ∈ s.committedScope ↔ (∃ sprint, s.sprint = some sprint ∧ id ∈ sprint.committed) ∧ (s.ticket id).isSome := by
  unfold committedScope
  cases s.sprint <;> simp

theorem isOpenTicket_eq (h : (s.ticket id).isSome) : s.isOpenTicket id = !s.isClosedTicket id := by
  obtain ⟨t, ht⟩ := Option.isSome_iff_exists.mp h
  simp [isOpenTicket, isClosedTicket, ht]

theorem rowScope_active {m : Milestone} (h : s.activeTargetIndex lib = some i) :
    (s.projectMilestone lib i m).committed = s.committedScope :=
  if_pos h

theorem open_eq {m : Milestone} :
    (s.projectMilestone lib i m).open = (s.rowScope lib i).filter fun id => !s.isClosedTicket id := by
  simp only [projectMilestone, rowScope]
  split
  case isTrue =>
    refine List.filter_congr fun id hid => ?_
    exact isOpenTicket_eq (mem_committedScope.mp hid).right
  case isFalse => rfl

theorem progress_eq {m : Milestone} : (s.projectMilestone lib i m).progress =
    milestoneProgress m.fulfilled ((s.rowScope lib i).countP s.isClosedTicket) (s.rowScope lib i).length :=
  rfl

theorem length_open {m : Milestone} : (s.projectMilestone lib i m).open.length =
    (s.rowScope lib i).length - (s.rowScope lib i).countP s.isClosedTicket := by
  have hl := (s.rowScope lib i).length_eq_countP_add_countP s.isClosedTicket
  have hc : (s.rowScope lib i).countP (fun id => !s.isClosedTicket id) =
      (s.rowScope lib i).countP fun id => decide ¬s.isClosedTicket id = true :=
    List.countP_congr fun _ _ => by simp
  rw [open_eq, ← List.countP_eq_length_filter, hc]
  omega

-- Where the scope is attributed, what of it is open, and how the bar reads.
structure Projected (lib : SemverLib) (s : ProjectState) : Prop where
  attributed : ∀ id name, s.attributedMilestone lib id = some name ∧ (s.ticket id).isSome ↔
    ∃ row, IsActiveRow lib (s.projectMilestones lib) row ∧ id ∈ row.committed ∧ row.name = name
  «open»     : ∀ row ∈ s.projectMilestones lib, row.open.Sublist row.committed
  bounded    : ∀ row ∈ s.projectMilestones lib, row.progress ≤ 100
  full       : ∀ row ∈ s.projectMilestones lib, !row.released →
    (row.progress = 100 ↔ row.committed ≠ [] ∧ 100 * row.open.length ≤ row.committed.length / 2)
  nodup      : (∀ sprint, s.sprint = some sprint → sprint.committed.Nodup) →
    ((s.projectMilestones lib).flatMap (·.committed)).Nodup

theorem attributed_iff : s.attributedMilestone lib id = some name ∧ (s.ticket id).isSome ↔
    ∃ row, IsActiveRow lib (s.projectMilestones lib) row ∧ id ∈ row.committed ∧ row.name = name := by
  simp only [isActiveRow_iff]
  constructor
  case mp =>
    intro ⟨ha, ht⟩
    unfold attributedMilestone at ha
    obtain ⟨sprint, hs, ha⟩ := Option.bind_eq_some_iff.mp ha
    split at ha
    case isFalse  => contradiction
    case isTrue hc =>
      obtain ⟨i, hi, ha⟩ := Option.bind_eq_some_iff.mp ha
      obtain ⟨m, hm, hn⟩ := Option.map_eq_some_iff.mp ha
      refine ⟨_, ⟨i, m, hi, hm, rfl⟩, ?_, hn⟩
      rw [rowScope_active hi]
      exact mem_committedScope.mpr ⟨⟨sprint, hs, hc⟩, ht⟩
  case mpr =>
    rintro ⟨_, ⟨i, m, hi, hm, rfl⟩, hc, rfl⟩
    rw [rowScope_active hi] at hc
    have ⟨⟨sprint, hs, hc⟩, ht⟩ := mem_committedScope.mp hc
    refine ⟨?_, ht⟩
    simp [attributedMilestone, hs, hc, hi, hm, projectMilestone]

theorem nodup_committed (h : ∀ sprint, s.sprint = some sprint → sprint.committed.Nodup) :
    ((s.projectMilestones lib).flatMap (·.committed)).Nodup := by
  have hscope : s.committedScope.Nodup := by
    unfold committedScope
    cases hs : s.sprint with
    | none        => exact List.nodup_nil
    | some sprint => exact (h sprint hs).filter _
  rw [List.nodup_flatMap]
  constructor
  case left =>
    intro row hrow
    obtain ⟨i, hi, rfl⟩ := List.mem_mapIdx.mp hrow
    simp only [projectMilestone, rowScope]
    split
    case isTrue  => exact hscope
    case isFalse => exact List.nodup_nil
  case right =>
    rw [List.pairwise_iff_getElem]
    intro i j hi hj hij
    -- Of two rows at most one is the active target.
    simp only [projectMilestones, List.getElem_mapIdx, projectMilestone, rowScope, Function.onFun]
    by_cases ha : s.activeTargetIndex lib = some i
    case pos => simp [ha, hij.ne]
    case neg => simp [ha]

theorem projected : s.Projected lib where
  attributed _ _   := attributed_iff
  nodup            := nodup_committed
  «open» row hrow  := by
    obtain ⟨i, hi, rfl⟩ := List.mem_mapIdx.mp hrow
    rw [open_eq]
    exact List.filter_sublist
  bounded row hrow := by
    obtain ⟨i, hi, rfl⟩ := List.mem_mapIdx.mp hrow
    exact milestoneProgress_le List.countP_le_length
  full row hrow hr := by
    obtain ⟨i, hi, rfl⟩ := List.mem_mapIdx.mp hrow
    have hf : s.milestones[i].fulfilled = false := by simpa [projectMilestone] using hr
    rw [progress_eq, hf, milestoneProgress_full List.countP_le_length, ← length_open (m := s.milestones[i]), Ne,
      List.length_eq_zero_iff]
    rfl

def onlyMilestone : Milestone where
  name          := "m"
  goal          := ""
  targetVersion := "1.0.0"

-- A sprint with one ticket that is not delivered, of `n`.
def almostShipped (n : Nat) : ProjectState where
  milestones := [onlyMilestone]
  sprint     := some { number := 1, goal := "", startedCycle := 0, lengthCycles := 1,
                       committed := (List.range n).map fun i => ⟨i.repr⟩ }
  tickets    := (List.range n).map fun i =>
    { id := ⟨i.repr⟩, kind := .feature, title := "", status := if i = 0 then .ready else .done }

theorem ticket_almostShipped {n i : Nat} (h : i < n) : (almostShipped n).ticket ⟨i.repr⟩ =
    some { id := ⟨i.repr⟩, kind := .feature, title := "", status := if i = 0 then .ready else .done } := by
  have hf : (List.range n).find? (fun j => decide ((⟨j.repr⟩ : TicketId) = ⟨i.repr⟩)) = some i := by
    rw [List.find?_range_eq_some]
    refine ⟨by simp, by simpa using h, fun j hj => ?_⟩
    have hne : j.repr ≠ i.repr := fun he => absurd (Text.repr_inj he) hj.ne
    simp [hne]
  rw [ticket, almostShipped, List.find?_map]
  exact congrArg (Option.map _) hf

theorem committedScope_almostShipped {n : Nat} :
    (almostShipped n).committedScope = (List.range n).map fun i => ⟨i.repr⟩ := by
  refine List.filter_eq_self.mpr fun id hid => ?_
  obtain ⟨i, hi, rfl⟩ := List.mem_map.mp hid
  rw [ticket_almostShipped (List.mem_range.mp hi)]
  rfl

theorem closed_almostShipped {n : Nat} :
    (almostShipped n).committedScope.countP (almostShipped n).isClosedTicket = n - 1 := by
  have hn (k : Nat) : (List.range k).countP (· ≠ 0) = k - 1 := by
    induction k with
    | zero      => rfl
    | succ k hi =>
      rw [List.range_succ, List.countP_append, hi]
      cases k <;> simp
  rw [committedScope_almostShipped, List.countP_map, ← hn n]
  refine List.countP_congr fun i hi => ?_
  rw [Function.comp_apply, isClosedTicket, ticket_almostShipped (List.mem_range.mp hi)]
  by_cases h : i = 0 <;> simp [h, closesScope]

theorem row_almostShipped (lib : SemverLib) {n : Nat} (hn : 0 < n) (hp : (lib.parse "1.0.0").isSome) :
    ∃ row ∈ (almostShipped n).projectMilestones lib, !row.released ∧
      row.progress = milestoneProgress false (n - 1) n ∧ row.open.length = 1 := by
  have ha : (almostShipped n).activeTargetIndex lib = some 0 :=
    activeTargetIndex_eq_some.mpr ⟨_, rfl, rfl, hp, fun j hj => absurd hj (Nat.not_lt_zero j)⟩
  have hscope : (almostShipped n).rowScope lib 0 = (almostShipped n).committedScope := if_pos ha
  have hl : (almostShipped n).committedScope.length = n := by simp [committedScope_almostShipped]
  refine ⟨(almostShipped n).projectMilestone lib 0 onlyMilestone, .head _, rfl, ?_, ?_⟩
  case refine_1 =>
    rw [progress_eq, hscope, hl, closed_almostShipped]
    rfl
  case refine_2 =>
    rw [length_open, hscope, hl, closed_almostShipped]
    omega

-- With one ticket of two hundred open the bar is full, and a ticket that is gone is still attributed.
theorem not_projected : ¬(∀ (lib : SemverLib) (s : ProjectState), ∀ row ∈ s.projectMilestones lib,
      !row.released → (row.progress = 100 ↔ row.committed ≠ [] ∧ row.open = [])) ∧
    ¬(∀ (lib : SemverLib) (s : ProjectState) (id : TicketId) (name : String),
      s.attributedMilestone lib id = some name ↔
        ∃ row, IsActiveRow lib (s.projectMilestones lib) row ∧ id ∈ row.committed ∧ row.name = name) := by
  constructor
  case left =>
    intro h
    let lib : SemverLib := ⟨fun _ => some {}, fun _ _ => false⟩
    have ⟨row, hrow, hr, hp, ho⟩ := row_almostShipped lib (n := 200) (by decide) rfl
    have hopen := ((h lib _ row hrow hr).mp (hp.trans (by decide))).right
    rw [hopen] at ho
    contradiction
  case right =>
    intro h
    let lib : SemverLib := ⟨fun _ => some {}, fun _ _ => false⟩
    have ⟨row, hr, hc, _⟩ := (h lib { almostShipped 1 with tickets := [] } ⟨"0"⟩ "m").mp rfl
    obtain ⟨i, m, ha, -, rfl⟩ := isActiveRow_iff.mp hr
    rw [rowScope_active ha] at hc
    revert hc
    decide

end ProjectState
