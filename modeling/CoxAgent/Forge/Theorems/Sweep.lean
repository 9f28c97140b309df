import CoxAgent.Forge.Sweep
import CoxAgent.Lib.Run

-- No merge is for a pull request that is held.
def MergesUnheld (holds : BTreeMap Nat String) (calls : List ForgeCall) : Prop :=
  ∀ n r, .mergePr n r ∈ calls → n ∉ holds.keys

-- A merge is justified by a diff that has been read and is free of conflict markers.
def CleanDiffRead (past : List ForgeCall) : ForgeCall → Prop
  | .mergePr n _ => ∃ d, .prDiff n (.ok d) ∈ past ∧ ¬diffHasConflictMarkers d
  | _            => True

def MergesChecked (calls : List ForgeCall) : Prop :=
  Guarded CleanDiffRead [] calls

section Sweep

variable (io : SweepIo) (holds : BTreeMap Nat String) (requireCi : Bool)

-- The answer for a place of the queue.
def HasMarkers (at' : PullRequest × Nat) : Prop :=
  ∃ d, io.diff at'.2 = .ok d ∧ diffHasConflictMarkers d

def HasCleanDiff (at' : PullRequest × Nat) : Prop :=
  ∃ d, io.diff at'.2 = .ok d ∧ ¬diffHasConflictMarkers d

-- What is asked for one place of the queue.
def sweepCalls (at' : PullRequest × Nat) : List ForgeCall :=
  match sweepSkips holds requireCi at'.1 with
  | some _ => []
  | none   =>
    .prDiff at'.1.number (io.diff at'.2) ::
      if (io.diff at'.2).toOption.any diffHasConflictMarkers then [] else [.mergePr at'.1.number (io.merge at'.2)]

variable {io holds requireCi} {at' : PullRequest × Nat} {queue : List (PullRequest × Nat)}
variable {o : ForgeRun} {out : SweepOutcome} {n : Nat}

theorem any_toOption_iff : (io.diff at'.2).toOption.any diffHasConflictMarkers ↔ HasMarkers io at' := by
  unfold HasMarkers
  cases io.diff at'.2 <;> simp [Except.toOption]

theorem sweepPr_actions :
    (sweepPr io holds requireCi (o, out) at').1.actions =
      o.actions ++ sweepCalls io holds requireCi at' := by
  unfold sweepPr sweepCalls
  dsimp only
  cases sweepSkips holds requireCi at'.1 with
  | some why => simp
  | none     =>
    dsimp only
    split
    case isTrue  => rfl
    case isFalse => cases io.merge at'.2 <;> simp

theorem foldl_sweepPr_actions :
    (queue.foldl (sweepPr io holds requireCi) (o, out)).1.actions =
      o.actions ++ queue.flatMap (sweepCalls io holds requireCi) := by
  induction queue generalizing o out
  case nil              => simp
  case cons at' queue hi => rw [List.foldl_cons, hi, sweepPr_actions, List.flatMap_cons, List.append_assoc]

theorem mergeSweep_actions {target : String} {vi : Bool} {prs : List PullRequest}
    (h : io.openPrs = .ok prs) :
    (mergeSweep io requireCi target vi o).1.actions = o.actions ++
      (sweepQueue target prs).zipIdx.flatMap
        (sweepCalls io (if io.loads then o.state.humanHolds else ∅) requireCi) := by
  unfold mergeSweep PortRun.say
  rw [h]
  dsimp only
  rw [PortRun.actions_edit, foldl_sweepPr_actions]

theorem mem_flatMap_sweepCalls_prDiff {d : String} :
    .prDiff n (.ok d) ∈ queue.flatMap (sweepCalls io holds requireCi) ↔
      ∃ at' ∈ queue, sweepSkips holds requireCi at'.1 = none ∧ at'.1.number = n ∧
        io.diff at'.2 = .ok d := by
  rw [List.mem_flatMap]
  refine exists_congr fun at' => and_congr_right fun _ => ?_
  unfold sweepCalls
  cases sweepSkips holds requireCi at'.1 with
  | some why => simp
  | none     =>
    dsimp only
    split <;> simp [eq_comm (a := n), eq_comm (a := io.diff at'.2)]

theorem mem_flatMap_sweepCalls_mergePr {r : Except PortError Unit} :
    .mergePr n r ∈ queue.flatMap (sweepCalls io holds requireCi) ↔
      ∃ at' ∈ queue, sweepSkips holds requireCi at'.1 = none ∧ ¬HasMarkers io at' ∧
        at'.1.number = n ∧ io.merge at'.2 = r := by
  rw [List.mem_flatMap]
  refine exists_congr fun at' => and_congr_right fun _ => ?_
  rw [← any_toOption_iff]
  unfold sweepCalls
  cases sweepSkips holds requireCi at'.1 with
  | some why => simp
  | none     =>
    dsimp only
    split
    case isTrue h  => simp [h]
    case isFalse h => simp [h, eq_comm (a := n), eq_comm (a := r)]

-- Between the diff and the merge of a place nothing happens.
theorem guarded_sweepCalls {past : List ForgeCall} :
    Guarded CleanDiffRead past (sweepCalls io holds requireCi at') ↔
      (sweepSkips holds requireCi at'.1 = none → HasMarkers io at' ∨ HasCleanDiff io at' ∨
        ∃ d, .prDiff at'.1.number (.ok d) ∈ past ∧ ¬diffHasConflictMarkers d) := by
  rw [← any_toOption_iff]
  unfold sweepCalls HasCleanDiff
  cases sweepSkips holds requireCi at'.1 with
  | some why => simp
  | none     =>
    dsimp only
    split
    case isTrue h  => simp [Guarded, CleanDiffRead, h]
    case isFalse h =>
      simp only [Guarded, CleanDiffRead, h, true_and, and_true, forall_const, List.mem_append,
        List.mem_singleton, ForgeCall.prDiff.injEq, false_or, Bool.false_eq_true]
      constructor
      case mp =>
        rintro ⟨d, hd | hd, hm⟩
        case inl => exact .inr ⟨d, hd, hm⟩
        case inr => exact .inl ⟨d, hd.symm, hm⟩
      case mpr =>
        rintro (⟨d, hd, hm⟩ | ⟨d, hd, hm⟩)
        case inl => exact ⟨d, .inr hd.symm, hm⟩
        case inr => exact ⟨d, .inl hd, hm⟩

variable (io requireCi) in
-- Every pull request that no hold that was read, no conflict and no CI keeps from it has a diff that can
-- be read, be it at an earlier place, and no stored hold, unless its diff has conflict markers.
def SweepChecks (target : String) (s : ProjectState) : Prop :=
  ∀ prs, io.openPrs = .ok prs → ∀ before at' after,
    (sweepQueue target prs).zipIdx = before ++ at' :: after →
    sweepSkips (if io.loads then s.humanHolds else ∅) requireCi at'.1 = none →
      HasMarkers io at' ∨ at'.1.number ∉ s.humanHolds.keys ∧
        ∃ earlier ∈ before ++ [at'], earlier.1.number = at'.1.number ∧ HasCleanDiff io earlier ∧
          sweepSkips (if io.loads then s.humanHolds else ∅) requireCi earlier.1 = none

theorem mergeSweep_checked_iff {target : String} {vi : Bool} {s : ProjectState} :
    MergesUnheld s.humanHolds (mergeSweep io requireCi target vi { state := s }).1.actions ∧
      MergesChecked (mergeSweep io requireCi target vi { state := s }).1.actions ↔
    SweepChecks io requireCi target s := by
  cases hp : io.openPrs with
  | error e => simp [mergeSweep, hp, SweepChecks, MergesUnheld, MergesChecked]
  | ok prs  =>
    unfold MergesUnheld MergesChecked SweepChecks
    rw [mergeSweep_actions hp, List.nil_append, Guarded.flatMap]
    simp only [mem_flatMap_sweepCalls_mergePr, guarded_sweepCalls, List.nil_append,
      mem_flatMap_sweepCalls_prDiff, hp, Except.ok.injEq, forall_eq']
    generalize (sweepQueue target prs).zipIdx = queue
    generalize (if io.loads then s.humanHolds else ∅) = holds
    constructor
    case mp =>
      rintro ⟨hu, hc⟩ before at' after hq hs
      by_cases hm : HasMarkers io at'
      case pos => exact .inl hm
      refine .inr ⟨hu _ _ ⟨at', by simp [hq], hs, hm, rfl, rfl⟩, ?_⟩
      cases (hc before at' after hq hs).resolve_left hm
      case inl h => exact ⟨at', by simp, rfl, h, hs⟩
      case inr h =>
        have ⟨d, ⟨earlier, he, hes, hen, hd⟩, hdm⟩ := h
        exact ⟨earlier, List.mem_append_left _ he, hen, ⟨d, hd, hdm⟩, hes⟩
    case mpr =>
      intro h
      constructor
      case left =>
        rintro n r ⟨at', hmem, hs, hm, rfl, -⟩
        have ⟨before, after, hq⟩ := List.append_of_mem hmem
        exact ((h before at' after hq hs).resolve_left hm).left
      case right =>
        intro before at' after hq hs
        apply (h before at' after hq hs).imp_right
        rintro ⟨-, earlier, he, hen, ⟨d, hd, hdm⟩, hes⟩
        cases List.mem_append.mp he
        case inl he => exact .inr ⟨d, ⟨earlier, he, hes, hen, hd⟩, hdm⟩
        case inr he =>
          cases List.mem_singleton.mp he
          exact .inl ⟨d, hd, hdm⟩

end Sweep

section ForceMerge

variable {io : ForceMergeIo} {vi : Bool} {num : Nat} {requestedBy : String} {o : ForgeRun}

@[simp]
theorem sayAgents_actions {e : EditIo} {viMsg enMsg : String} :
    (sayAgents vi e viMsg enMsg o).actions = o.actions :=
  PortRun.actions_edit

variable (io num) in
-- The agent has pushed a resolution that the checks let pass.
def Resolves : Prop :=
  io.succeeded ∧ ¬io.diff.toOption.any diffHasConflictMarkers ∧
    ∃ i < pollCount, pollSettles num (io.polls i)

variable (io num) in
-- What is asked while the conflicts are resolved: the diff at last, if the agent has not failed.
def resolveCalls (pr : PullRequest) : List ForgeCall :=
  .runEngine (forceMergePrompt num pr.head pr.base) ::
    (if io.git then [.checkoutBase] else []) ++ if io.succeeded then [.prDiff num io.diff] else []

variable (o num) in
theorem verifyConflictResolution_actions (hf : io.forge) :
    (verifyConflictResolution io num o).1.actions = o.actions ++ [.prDiff num io.diff] := by
  unfold verifyConflictResolution
  rw [if_neg (by simp [hf])]
  dsimp only
  split
  case isTrue  => rfl
  case isFalse => split <;> rfl

variable (o num) in
theorem verifyConflictResolution_isOk (hf : io.forge) :
    (verifyConflictResolution io num o).2.isOk ↔
      ¬io.diff.toOption.any diffHasConflictMarkers ∧ ∃ i < pollCount, pollSettles num (io.polls i) := by
  unfold verifyConflictResolution
  rw [if_neg (by simp [hf])]
  dsimp only
  split
  case isTrue h  => simp [h, Except.isOk, Except.toBool]
  case isFalse h =>
    have hp : ((List.range pollCount).any fun i => pollSettles num (io.polls i)) ↔
        ∃ i < pollCount, pollSettles num (io.polls i) := by
      simp
    rw [← hp]
    split
    case isTrue hs  => simp [h, hs, Except.isOk, Except.toBool]
    case isFalse hs => simp [hs, Except.isOk, Except.toBool]

variable (io vi num requestedBy o) in
theorem resolveConflictsForForceMerge_spec (pr : PullRequest) (hf : io.forge) :
    (resolveConflictsForForceMerge io vi num requestedBy pr o).1.actions =
      o.actions ++ resolveCalls io num pr ∧
    ((resolveConflictsForForceMerge io vi num requestedBy pr o).2 ↔ Resolves io num) := by
  unfold resolveConflictsForForceMerge resolveCalls Resolves
  dsimp only
  generalize ho : (if io.git then _ else _ : ForgeRun) = o'
  have ha : o'.actions = o.actions ++ .runEngine (forceMergePrompt num pr.head pr.base) ::
      (if io.git then [.checkoutBase] else []) := by
    rw [← ho]
    split <;> simp
  cases hs : io.succeeded
  case false => simp [ha]
  case true  =>
    have hva := verifyConflictResolution_actions num o' hf
    have hvo := verifyConflictResolution_isOk num o' hf
    rw [← hvo]
    generalize verifyConflictResolution io num o' = v at *
    obtain ⟨o'', r⟩ := v
    cases r with
    | error why => simp_all [Except.isOk, Except.toBool]
    | ok _      => simp_all [Except.isOk, Except.toBool]

variable (io num) in
-- Of a pull request without conflicts the diff is not read at all. Of one with conflicts it can be read,
-- unless the agent fails or the forge reports the conflicts to the end.
def ForceMergeChecks : Prop :=
  io.forge → ∀ prs, io.openPrs = .ok prs → ∀ pr, prs.find? (·.number = num) = some pr →
    ¬pr.mergeable ∧
      (io.succeeded → io.diff.isOk ∨ ∀ i < pollCount, ¬pollSettles num (io.polls i))

theorem guarded_resolveCalls {pr : PullRequest} {past : List ForgeCall} :
    Guarded CleanDiffRead past (resolveCalls io num pr) := by
  unfold resolveCalls
  cases io.git <;> cases io.succeeded <;> simp [Guarded, CleanDiffRead]

theorem mem_resolveCalls_prDiff {pr : PullRequest} {d : String} :
    .prDiff num (.ok d) ∈ resolveCalls io num pr ↔ io.succeeded ∧ io.diff = .ok d := by
  unfold resolveCalls
  cases io.git <;> cases io.succeeded <;> simp [eq_comm (a := io.diff)]

theorem forceMergeChecks_iff {prs : List PullRequest} (hf : io.forge) (hp : io.openPrs = .ok prs) :
    ForceMergeChecks io num ↔ ∀ pr, prs.find? (·.number = num) = some pr →
      ¬pr.mergeable ∧
        (io.succeeded → io.diff.isOk ∨ ∀ i < pollCount, ¬pollSettles num (io.polls i)) := by
  simp [ForceMergeChecks, hf, hp]

-- Once the agent's resolution passes, the diff must have been read.
theorem exists_cleanDiff_iff (h : Resolves io num) (pr : PullRequest) :
    (∃ d, .prDiff num (.ok d) ∈ resolveCalls io num pr ∧ ¬diffHasConflictMarkers d) ↔ io.diff.isOk := by
  simp only [mem_resolveCalls_prDiff, h.left, true_and]
  have hm := h.right.left
  cases hd : io.diff with
  | error e => simp [Except.isOk, Except.toBool]
  | ok d    =>
    rw [hd] at hm
    simpa [Except.isOk, Except.toBool, Except.toOption] using hm

theorem isOk_of_any {d : Except PortError String} {p : String → Bool} (h : d.toOption.any p) :
    d.isOk := by
  cases d
  case error => simp [Except.toOption] at h
  case ok    => rfl

theorem forceMergeJob_checked_iff {s : ProjectState} :
    MergesChecked (forceMergeJob io vi num requestedBy { state := s }).actions ↔
      ForceMergeChecks io num := by
  unfold MergesChecked forceMergeJob
  cases hf : io.forge
  case false => simp [ForceMergeChecks, hf]
  case true  =>
    simp only [Bool.not_true, Bool.false_eq_true, if_false]
    generalize ho : PortRun.act _ _ = o
    have ha : ∃ text, o.actions = [.report "SA" text] := by
      rw [← ho]
      exact ⟨_, rfl⟩
    clear ho
    have ⟨text, ha⟩ := ha
    cases hp : io.openPrs with
    | error e => simp [ForceMergeChecks, hp, ha, Guarded, CleanDiffRead]
    | ok prs  =>
      rw [forceMergeChecks_iff hf hp]
      dsimp only
      cases prs.find? (·.number = num) with
      | none    => simp [ha, Guarded, CleanDiffRead]
      | some pr =>
        cases hm : pr.mergeable
        case true  => cases io.merge <;> simp [hm, ha, Guarded, CleanDiffRead]
        case false =>
          have ⟨hra, hrr⟩ := resolveConflictsForForceMerge_spec io vi num requestedBy o pr hf
          simp only [hm, Bool.false_eq_true, if_false]
          generalize resolveConflictsForForceMerge io vi num requestedBy pr o = r at *
          have hn : Guarded CleanDiffRead [] r.1.actions := by
            rw [hra, ha]
            exact ⟨trivial, guarded_resolveCalls⟩
          cases hres : r.2
          case false =>
            simp only [Bool.not_false, if_true, hn, true_iff]
            rintro _ ⟨⟩
            refine ⟨by simp [hm], fun hs => ?_⟩
            have hrn : ¬Resolves io num := by simp [← hrr, hres]
            by_cases hmk : io.diff.toOption.any diffHasConflictMarkers
            case pos => exact .inl (isOk_of_any hmk)
            case neg => exact .inr fun i hi hp => hrn ⟨hs, hmk, i, hi, hp⟩
          case true  =>
            have hres := hrr.mp hres
            have hc : Guarded CleanDiffRead [] (r.1.actions ++ [.mergePr num io.merge]) ↔ io.diff.isOk := by
              rw [Guarded.append, ← exists_cleanDiff_iff hres pr]
              simp only [hn, true_and]
              simp [hra, ha, Guarded, CleanDiffRead]
            have hd : io.diff.isOk ↔ ∀ pr', some pr = some pr' → ¬pr'.mergeable ∧
                (io.succeeded → io.diff.isOk ∨ ∀ i < pollCount, ¬pollSettles num (io.polls i)) := by
              have ⟨i, hi, hs⟩ := hres.right.right
              simpa [hm, hres.left] using fun hn => absurd hs (by simp [hn i hi])
            rw [← hd, ← hc]
            cases io.merge <;> simp

end ForceMerge

-- The merges of a sweep, and those that are forced, are checked as long as what is asked is answered.
theorem merges_checked_iff {io : SweepIo} {fio : ForceMergeIo} {requireCi vi : Bool} {num : Nat}
    {target requestedBy : String} {s : ProjectState} :
    (MergesUnheld s.humanHolds (mergeSweep io requireCi target vi { state := s }).1.actions ∧
        MergesChecked (mergeSweep io requireCi target vi { state := s }).1.actions ↔
      SweepChecks io requireCi target s) ∧
    (MergesChecked (forceMergeJob fio vi num requestedBy { state := s }).actions ↔
      ForceMergeChecks fio num) :=
  ⟨mergeSweep_checked_iff, forceMergeJob_checked_iff⟩

def heldPr : PullRequest where
  number    := 7
  base      := "main"
  mergeable := true

-- A store and a forge that fail.
def failingSweep : SweepIo where
  openPrs := .ok [heldPr]
  loads   := false
  diff _  := .error (.backend "rate limit")

-- The diff has conflict markers, and nobody asks for it.
def forcedMerge : ForceMergeIo where
  openPrs := .ok [heldPr]
  diff    := .ok "+<<<<<<< HEAD"
  polls _ := .ok []

theorem merges_unchecked :
    let s : ProjectState := { humanHolds := .single 7 "touches .github/workflows" }
    ¬MergesUnheld s.humanHolds (mergeSweep failingSweep true "main" false { state := s }).1.actions ∧
    ¬MergesChecked (mergeSweep failingSweep true "main" false { state := s }).1.actions ∧
    ¬MergesChecked (forceMergeJob forcedMerge false 7 "ann" { state := s }).actions := by
  intro s
  have hs : (mergeSweep failingSweep true "main" false { state := s }).1.actions =
      [.prDiff 7 (.error (.backend "rate limit")), .mergePr 7 (.ok ())] := by
    rw [mergeSweep_actions rfl]
    rfl
  have hf : ∃ text, (forceMergeJob forcedMerge false 7 "ann" { state := s }).actions =
      [.report "SA" text, .mergePr 7 (.ok ())] :=
    ⟨_, rfl⟩
  have ⟨text, hf⟩ := hf
  rw [hs, hf]
  refine ⟨fun h => ?_, by simp [MergesChecked, Guarded, CleanDiffRead],
    by simp [MergesChecked, Guarded, CleanDiffRead]⟩
  exact h 7 (.ok ()) (by simp) (by decide)
