import CoxAgent.Lib.Lists
import CoxAgent.Ops.Theorems.Leader

variable (setup : OpsSetup)

-- In the cycle the revision was deployed, it was healthy, and the test suite was green or there is none.
structure Verified (sha : String) (io : DeployIo) : Prop where
  head     : attemptSha setup io = some sha
  deployed : ∃ r, io.deploy = .ok r ∧ r.deployed ∧ r.success
  healthy  : (runHealthCheck setup io.health).1
  tested   : ∃ r, io.tests = .ok r ∧ (r.deployed → r.success)

-- The test suite runs in a cycle that would make its revision the known-good one.
def TestsRun (s : ProjectState) : LeaderEvent → Prop
  | .deploy io => deployDue setup io s → cameUp setup io → (attemptSha setup io).isSome →
      ¬io.knownGood.fails → io.tests.isOk
  | _          => True

variable {setup} {s : ProjectState} {sha : String} {e : LeaderEvent} {es : List LeaderEvent}

theorem verified_of_promotes (h : Promotes setup s e) (ht : TestsRun setup s e)
    (hr : revision setup s e = some sha) : ∃ io, e = .deploy io ∧ Verified setup sha io := by
  cases e
  case monitor => contradiction
  case others  => contradiction
  case deploy io =>
    obtain ⟨hd, hc, hb, hs, hf⟩ := h
    have ho : io.tests.isOk := ht hd hc hs hf
    refine ⟨io, rfl, hr, ?_, ?_, ?_⟩
    case refine_1 =>
      cases hd : io.deploy with
      | error _ => simp [cameUp, hd] at hc
      | ok r    =>
        simp only [cameUp, hd, Bool.and_eq_true] at hc
        exact ⟨r, rfl, hc.left, hc.right.left⟩
    case refine_2 =>
      cases hd : io.deploy with
      | error _ => simp [cameUp, hd] at hc
      | ok r    =>
        simp only [cameUp, hd, Bool.and_eq_true] at hc
        exact hc.right.right
    case refine_3 =>
      cases ht : io.tests with
      | error _ => simp [ht, Except.isOk, Except.toBool] at ho
      | ok r    =>
        refine ⟨r, rfl, fun hr => ?_⟩
        simpa [testsBad, ht, hr] using hb

-- A step that changes the known-good deploy has verified it.
theorem leaderStep_verified (ht : TestsRun setup s e) {good : KnownGoodDeploy}
    (h : (leaderStep setup s e).lastGoodDeploy = some good) (hn : s.lastGoodDeploy ≠ some good) :
    ∃ io, e = .deploy io ∧ Verified setup good.sha io := by
  cases leaderStep_effect s setup e
  case keeps hp hb hk  => exact absurd (hk.good ▸ h) hn
  case breaks hb hr    => exact absurd (hr.good ▸ h) hn
  case promotes sha hp hr hs =>
    obtain ⟨good', hg, rfl⟩ := hs.good
    cases h.symm.trans hg
    exact verified_of_promotes hp ht hr

-- Every known-good deploy is verified in the cycle that stores it, in every run in which the tests run.
theorem lastGoodDeploy_verified (hm : Run.Meets (leaderStep setup) (TestsRun setup) s es) :
    (∀ pre e post good, es = pre ++ e :: post →
      (leaderStep setup (pre.foldl (leaderStep setup) s) e).lastGoodDeploy = some good →
      (pre.foldl (leaderStep setup) s).lastGoodDeploy ≠ some good →
      ∃ io, e = .deploy io ∧ Verified setup good.sha io) ∧
    ∀ good, (es.foldl (leaderStep setup) s).lastGoodDeploy = some good →
      s.lastGoodDeploy = some good ∨ ∃ io, .deploy io ∈ es ∧ Verified setup good.sha io := by
  constructor
  case left =>
    rintro pre e post good rfl h hn
    exact leaderStep_verified hm.of_append h hn
  case right =>
    intro good h
    refine (Run.holds_cases (P := fun s : ProjectState => s.lastGoodDeploy = some good) h).imp_right ?_
    rintro ⟨pre, e, post, rfl, hn, h⟩
    obtain ⟨io, rfl, hv⟩ := leaderStep_verified hm.of_append h hn
    exact ⟨io, by simp, hv⟩

def upReport : DeployReport where
  success  := true
  deployed := true
  summary  := "up"

-- A cycle that ships a revision which comes up.
def ships (sha : String) : DeployIo where
  shipped := true
  head    := .ok sha
  deploy  := .ok upReport
  tests   := .ok upReport
  revert  := { deploy := .ok upReport }

-- A cycle that ships a revision which does not come up, and rolls back.
def fails (sha : String) : DeployIo where
  shipped := true
  head    := .ok sha
  deploy  := .ok { upReport with success := false }
  tests   := .ok upReport
  revert  := { deploy := .ok upReport }

-- A revision is shipped, the next one is rolled back, and the one after that fixes it.
def rolledForward : List LeaderEvent :=
  [.deploy (ships "a1"), .deploy (fails "b2"), .deploy (ships "c3")]

def rollsBack : OpsSetup where
  config := { autoRollback := true }

theorem lastGoodDeploy_verified_rolledForward :
    (∀ pre e post good, rolledForward = pre ++ e :: post →
      (leaderStep rollsBack (pre.foldl (leaderStep rollsBack) {}) e).lastGoodDeploy = some good →
      (pre.foldl (leaderStep rollsBack) {}).lastGoodDeploy ≠ some good →
      ∃ io, e = .deploy io ∧ Verified rollsBack good.sha io) ∧
    ∀ good, (rolledForward.foldl (leaderStep rollsBack) {}).lastGoodDeploy = some good →
      ({} : ProjectState).lastGoodDeploy = some good ∨
        ∃ io, .deploy io ∈ rolledForward ∧ Verified rollsBack good.sha io :=
  lastGoodDeploy_verified ⟨fun _ _ _ _ => rfl, fun _ _ _ _ => rfl, fun _ _ _ _ => rfl, trivial⟩

-- A suite that cannot be run does not keep the revision from becoming the known-good one.
theorem lastGoodDeploy_not_verified :
    let io := { ships "a1" with tests := .error (.backend "cargo not found") }
    ((leaderStep {} {} (.deploy io)).lastGoodDeploy.map (·.sha)) = some "a1" ∧
      ¬Verified {} "a1" io := by
  constructor
  case left  => decide +kernel
  case right =>
    rintro ⟨-, -, -, r, ht, -⟩
    simp at ht

-- The incidents that are not dropped for the next one.
def ProjectState.keptIncidents (s : ProjectState) : List IncidentRecord :=
  s.incidents.drop (s.incidents.length + 1 - maxIncidents)

variable (setup) in
-- A revision that is written down as broken is not in the ledger yet, and one that is promoted was never
-- written down as broken.
def Fresh (s : ProjectState) (e : LeaderEvent) : Prop :=
  (Breaks setup s e → ∀ sha, revision setup s e = some sha → sha ≠ "" →
    sha ∉ s.keptIncidents.map (·.failedSha)) ∧
  (Promotes setup s e → ∀ sha, revision setup s e = some sha → sha ∉ s.rolledBackCommits.keys)

-- The ledger has at most one incident for every revision.
def OneIncidentEach (s : ProjectState) : Prop :=
  ∀ sha, sha ≠ "" → (s.incidents.map (·.failedSha)).count sha ≤ 1

theorem OneIncidentEach.congr {s s' : ProjectState} (h : OneIncidentEach s)
    (he : s'.incidents = s.incidents) : OneIncidentEach s' := by
  unfold OneIncidentEach
  rw [he]
  exact h

theorem keptIncidents_eq : s.keptIncidents = s.incidents.rtake (maxIncidents - 1) := by
  rw [ProjectState.keptIncidents, List.rtake]
  congr 1

theorem OneIncidentEach.recorded {s s' : ProjectState} {failed : String} (h : OneIncidentEach s)
    (hr : Recorded failed s s') (hf : failed ≠ "" → failed ∉ s.keptIncidents.map (·.failedSha)) :
    OneIncidentEach s' := by
  obtain ⟨i, rfl, hi⟩ := hr.incidents
  intro sha hs
  have hk : s'.incidents = s.keptIncidents ++ [i] := by
    rw [hi, List.length_append, List.length_singleton, List.drop_append_of_le_length ?_]
    · rfl
    · simp [maxIncidents]
  have hle : (s.keptIncidents.map (·.failedSha)).count sha ≤ 1 :=
    (((s.incidents.drop_sublist _).map _).count_le sha).trans (h sha hs)
  rw [hk, List.map_append, List.count_append, List.map_singleton]
  by_cases he : i.failedSha = sha
  case pos =>
    subst he
    rw [List.count_eq_zero_of_not_mem (hf hs), List.count_singleton_self]
  case neg =>
    rw [List.count_singleton, if_neg (by simpa using he)]
    exact hle

theorem oneIncidentEach_leaderStep (h : OneIncidentEach s) (hf : Fresh setup s e) :
    OneIncidentEach (leaderStep setup s e) := by
  cases leaderStep_effect s setup e
  case keeps hp hb hk => exact h.congr hk.incidents
  case promotes sha hp hr hs => exact h.congr hs.incidents
  case breaks hb hr =>
    refine h.recorded hr fun hn => ?_
    cases hs : revision setup s e with
    | none     => simp [hs] at hn
    | some sha => exact hf.left hb sha hs (by simpa [hs] using hn)

-- A commit that was rolled back stays so.
theorem rolledBackCommits_mono (h : sha ∈ s.rolledBackCommits.keys) :
    sha ∈ (leaderStep setup s e).rolledBackCommits.keys := by
  cases leaderStep_effect s setup e
  case keeps hp hb hk => exact hk.broken ▸ h
  case promotes hp hr hs => exact hs.broken ▸ h
  case breaks hb hr =>
    rw [hr.broken]
    split
    case isTrue  => exact h
    case isFalse => exact BTreeMap.mem_keys_insert.mpr (.inr h)

theorem leaderStep_not_repromoted (hf : Fresh setup s e) (h : sha ∈ s.rolledBackCommits.keys)
    {good : KnownGoodDeploy} (hg : (leaderStep setup s e).lastGoodDeploy = some good)
    (hs : good.sha = sha) : s.lastGoodDeploy = some good := by
  cases leaderStep_effect s setup e
  case keeps hp hb hk => exact hk.good ▸ hg
  case breaks hb hr   => exact hr.good ▸ hg
  case promotes sha' hp hr hp' =>
    obtain ⟨good', hg', rfl⟩ := hp'.good
    cases hg.symm.trans hg'
    exact absurd (hs ▸ h) (hf.right hp _ hr)

section Retries

variable (setup) in
-- The revisions that a run writes down as broken, in their order.
def failures (s : ProjectState) : List LeaderEvent → List String
  | []      => []
  | e :: es =>
    (if Breaks setup s e then [(revision setup s e).getD ""] else []) ++ failures (leaderStep setup s e) es

variable (setup) in
-- No revision that failed, as one of the last, fails again when it is retried, and none that ever failed
-- passes when it is retried.
structure NoRelapse (s : ProjectState) (es : List LeaderEvent) : Prop where
  fails  : ∀ pre e post sha, es = pre ++ e :: post → Breaks setup (pre.foldl (leaderStep setup) s) e →
             revision setup (pre.foldl (leaderStep setup) s) e = some sha → sha ≠ "" →
             sha ∉ (s.incidents.map (·.failedSha) ++ failures setup s pre).rtake (maxIncidents - 1)
  passes : ∀ pre e post sha, es = pre ++ e :: post → Promotes setup (pre.foldl (leaderStep setup) s) e →
             revision setup (pre.foldl (leaderStep setup) s) e = some sha →
             sha ∉ s.rolledBackCommits.keys ∧ (sha ≠ "" → sha ∉ failures setup s pre)

theorem not_breaks_of_promotes (h : Promotes setup s e) : ¬Breaks setup s e := by
  cases e
  case monitor => contradiction
  case others  => contradiction
  case deploy io =>
    rintro ⟨-, hb, -⟩
    obtain ⟨-, hc, ht, -⟩ := h
    exact hb.elim (not_deployBad_of_cameUp hc) ht

theorem incidents_leaderStep :
    (leaderStep setup s e).incidents.map (·.failedSha) = if Breaks setup s e then
      (s.incidents.map (·.failedSha) ++ [(revision setup s e).getD ""]).rtake maxIncidents
    else
      s.incidents.map (·.failedSha) := by
  cases leaderStep_effect s setup e
  case keeps hp hb hk         => rw [if_neg hb, hk.incidents]
  case promotes sha hp hr hs => rw [if_neg (not_breaks_of_promotes hp), hs.incidents]
  case breaks hb hr          =>
    obtain ⟨i, hi, hl⟩ := hr.incidents
    rw [if_pos hb, hl, List.map_drop, List.map_append, List.map_singleton, hi, List.rtake]
    simp only [List.length_append, List.length_map, List.length_singleton]

theorem mem_rolledBackCommits_leaderStep :
    sha ∈ (leaderStep setup s e).rolledBackCommits.keys ↔ sha ∈ s.rolledBackCommits.keys ∨
      Breaks setup s e ∧ sha ≠ "" ∧ sha = (revision setup s e).getD "" := by
  cases leaderStep_effect s setup e
  case keeps hp hb hk         => simp [hk.broken, hb]
  case promotes sha hp hr hs => simp [hs.broken, not_breaks_of_promotes hp]
  case breaks hb hr          =>
    rw [hr.broken]
    split
    case isTrue he  => grind
    case isFalse he =>
      rw [BTreeMap.mem_keys_insert]
      grind

-- The last incidents are those of the run, and before them those that were there.
theorem incidents_run (s : ProjectState) (es : List LeaderEvent) :
    ((es.foldl (leaderStep setup) s).incidents.map (·.failedSha)).rtake (maxIncidents - 1) =
      (s.incidents.map (·.failedSha) ++ failures setup s es).rtake (maxIncidents - 1) := by
  induction es generalizing s
  case nil          => simp [failures]
  case cons e es hi =>
    rw [List.foldl_cons, hi, incidents_leaderStep, failures]
    split
    case isFalse => rw [List.nil_append]
    case isTrue  => rw [Lists.rtake_rtake_append (Nat.sub_le ..), List.append_assoc]

theorem mem_rolledBackCommits_run (s : ProjectState) (es : List LeaderEvent) :
    sha ∈ (es.foldl (leaderStep setup) s).rolledBackCommits.keys ↔
      sha ∈ s.rolledBackCommits.keys ∨ sha ≠ "" ∧ sha ∈ failures setup s es := by
  induction es generalizing s
  case nil          => simp [failures]
  case cons e es hi =>
    rw [List.foldl_cons, hi, mem_rolledBackCommits_leaderStep, failures]
    split
    case isFalse hb => simp only [hb, false_and, or_false, List.nil_append]
    case isTrue hb  =>
      simp only [hb, true_and, List.mem_append, List.mem_singleton]
      tauto

-- A run without a relapse is one of fresh steps.
theorem meets_fresh_iff : Run.Meets (leaderStep setup) (Fresh setup) s es ↔ NoRelapse setup s es := by
  rw [Run.meets_iff_forall]
  constructor
  case mp =>
    intro h
    constructor
    case fails =>
      intro pre e post sha he hb hr hn
      have hf := (h pre e post he).left hb sha hr hn
      rwa [keptIncidents_eq, List.rtake, List.map_drop, ← List.length_map (f := (·.failedSha)), ← List.rtake,
        incidents_run] at hf
    case passes =>
      intro pre e post sha he hp hr
      have hf := (h pre e post he).right hp sha hr
      rw [mem_rolledBackCommits_run] at hf
      tauto
  case mpr =>
    rintro h pre e post he
    refine ⟨fun hb sha hr hn => ?_, fun hp sha hr => ?_⟩
    case refine_1 =>
      have hf := h.fails pre e post sha he hb hr hn
      rwa [keptIncidents_eq, List.rtake, List.map_drop, ← List.length_map (f := (·.failedSha)), ← List.rtake,
        incidents_run]
    case refine_2 =>
      have hf := h.passes pre e post sha he hp hr
      rw [mem_rolledBackCommits_run]
      tauto

end Retries

-- A broken revision has one incident and does not become the known-good one again, in every run without
-- a relapse.
theorem oneIncidentEach_and_not_repromoted (h : OneIncidentEach s) (hm : NoRelapse setup s es) :
    OneIncidentEach (es.foldl (leaderStep setup) s) ∧
    ∀ pre mid e post, es = pre ++ mid ++ e :: post →
      ∀ sha ∈ (pre.foldl (leaderStep setup) s).rolledBackCommits.keys, ∀ good,
        (leaderStep setup ((pre ++ mid).foldl (leaderStep setup) s) e).lastGoodDeploy = some good →
        good.sha = sha → ((pre ++ mid).foldl (leaderStep setup) s).lastGoodDeploy = some good := by
  have hm := meets_fresh_iff.mpr hm
  constructor
  case left => exact Run.inv (fun _ _ hf h => oneIncidentEach_leaderStep h hf) hm h
  case right =>
    rintro pre mid e post rfl sha hr good hg hs
    refine leaderStep_not_repromoted hm.of_append ?_ hg hs
    rw [List.foldl_append]
    refine Run.inv_all (J := fun s : ProjectState => sha ∈ s.rolledBackCommits.keys) ?_ hr
    exact fun _ _ => rolledBackCommits_mono

theorem oneIncidentEach_and_not_repromoted_rolledForward :
    OneIncidentEach (rolledForward.foldl (leaderStep rollsBack) {}) ∧
    ∀ pre mid e post, rolledForward = pre ++ mid ++ e :: post →
      ∀ sha ∈ (pre.foldl (leaderStep rollsBack) {}).rolledBackCommits.keys, ∀ good,
        (leaderStep rollsBack ((pre ++ mid).foldl (leaderStep rollsBack) {}) e).lastGoodDeploy = some good →
        good.sha = sha → ((pre ++ mid).foldl (leaderStep rollsBack) {}).lastGoodDeploy = some good := by
  have hr : ∀ {s sha sha'}, revision rollsBack s (.deploy (ships sha')) = some sha → sha = sha' := by
    rintro s sha sha' ⟨⟩
    rfl
  have hf : ∀ {s sha sha'}, revision rollsBack s (.deploy (fails sha')) = some sha → sha = sha' := by
    rintro s sha sha' ⟨⟩
    rfl
  refine oneIncidentEach_and_not_repromoted (by simp [OneIncidentEach]) (meets_fresh_iff.mp
    ⟨⟨?_, ?_⟩, ⟨?_, ?_⟩, ⟨?_, ?_⟩, trivial⟩)
  case refine_1 => exact fun _ _ h _ => hr h ▸ by decide +kernel
  case refine_2 => exact fun _ _ h => hr h ▸ by decide +kernel
  case refine_3 => exact fun _ _ h _ => hf h ▸ by decide +kernel
  case refine_4 => exact fun _ _ h => hf h ▸ by decide +kernel
  case refine_5 => exact fun _ _ h _ => hr h ▸ by decide +kernel
  case refine_6 => exact fun _ _ h => hr h ▸ by decide +kernel

def failsTwice : List LeaderEvent :=
  [.deploy (ships "a1"), .deploy (fails "b2"), .deploy (fails "b2")]

def passesLater : List LeaderEvent :=
  failsTwice ++ [.deploy (ships "b2")]

-- A revision that fails twice has two incidents, and it becomes the known-good one once it passes.
theorem twoIncidents_and_repromoted :
    ¬OneIncidentEach (failsTwice.foldl (leaderStep rollsBack) {}) ∧
    "b2" ∈ (failsTwice.foldl (leaderStep rollsBack) {}).rolledBackCommits.keys ∧
    (failsTwice.foldl (leaderStep rollsBack) {}).lastGoodDeploy.map (·.sha) = some "a1" ∧
    (passesLater.foldl (leaderStep rollsBack) {}).lastGoodDeploy.map (·.sha) = some "b2" := by
  refine ⟨fun h => ?_, by decide +kernel, by decide +kernel, by decide +kernel⟩
  have hi : (failsTwice.foldl (leaderStep rollsBack) {}).incidents.map (·.failedSha) = ["b2", "b2"] := by
    decide +kernel
  have hc := h "b2" (by decide)
  simp [hi] at hc
