import CoxAgent.Cycle.Runner
import CoxAgent.Json.Theorems.Leases

open JsonStateStore
open CoordRun (Before)

namespace Runners

variable {ι : Type} [DecidableEq ι] {parse : String → Option Int} {worker : ι → String}
variable {leaderElection : ι → Bool} {s : Runners ι} {e : RunnerEvent ι} {i j : ι}
variable {since since' now : String}

variable (parse) in
-- Time does not go back, a coordination file that is there can be read, and only runners stand for
-- election.
def Regular (s : Runners ι) : RunnerEvent ι → Prop
  | .tick now   => Before parse s.clock now
  | .elect _ io => io.reads
  | .call c io  => io.reads ∧ ∀ worker now, c ≠ .acquireLeader worker now
  | _           => True

variable (parse worker) in
-- Whoever was answered that it leads has a lease since the time that it read.
structure Elected (s : Runners ι) : Prop where
  clock  : Before parse s.clock s.clock
  starts : ∀ i now, s.phase i = .starting now → Before parse now s.clock
  lease  : ∃ told, (ttlClock parse leaderTtlSecs).Sound s.clock (s.file.getD {}).leaderSlot told ∧
             ∀ i since, s.phase i = .leading since true → told (worker i) = some since

omit [DecidableEq ι] in
theorem elected_init {file : Option Coord} {clock : String} (h : Before parse clock clock) :
    Elected parse worker ({ file, clock } : Runners ι) where
  clock      := h
  starts _ _ := nofun
  lease      := ⟨fun _ => none, nofun, nofun⟩

-- A runner goes on to a phase in which it was not answered that it leads.
theorem Elected.goTo {p : RunnerPhase} (h : Elected parse worker s)
    (hs : ∀ now, p = .starting now → Before parse now s.clock)
    (hl : ∀ since, p ≠ .leading since true) :
    Elected parse worker { s with phase := Function.update s.phase i p } := by
  refine ⟨h.clock, fun j now hp => ?_, ?_⟩
  case refine_1 =>
    by_cases hj : j = i
    case pos =>
      subst hj
      exact hs now (by simpa using hp)
    case neg => exact h.starts j now (by simpa [hj] using hp)
  case refine_2 =>
    obtain ⟨told, hk, ht⟩ := h.lease
    refine ⟨told, hk, fun j since hp => ?_⟩
    by_cases hj : j = i
    case pos =>
      subst hj
      exact absurd (by simpa using hp) (hl since)
    case neg => exact ht j since (by simpa [hj] using hp)

-- A runner is answered that it leads.
theorem Elected.lead {file : Option Coord} (hw : Function.Injective worker)
    (h : Elected parse worker s) (hp : s.phase i = .starting now)
    (hst : (ttlClock parse leaderTtlSecs).Step now (s.file.getD {}).leaderSlot (some (worker i))
      (file.getD {}).leaderSlot) :
    Elected parse worker
      { s with file, phase := Function.update s.phase i (.leading now true) } := by
  refine ⟨h.clock, fun j now' hp' => ?_, ?_⟩
  case refine_1 =>
    by_cases hj : j = i
    case pos => simp [hj] at hp'
    case neg => exact h.starts j now' (by simpa [hj] using hp')
  case refine_2 =>
    obtain ⟨told, hk, ht⟩ := h.lease
    refine ⟨_, hst.sound_some (h.starts i now hp) hk, fun j since hp' => ?_⟩
    by_cases hj : j = i
    case pos =>
      subst hj
      simp only [Function.update_self, RunnerPhase.leading.injEq] at hp' ⊢
      rw [hp'.left]
    case neg =>
      rw [Function.update_of_ne (hw.ne hj)]
      exact ht j since (by simpa [hj] using hp')

theorem Elected.elect {io : CoordIo} (hw : Function.Injective worker) (h : Elected parse worker s)
    (hr : io.reads) : Elected parse worker (s.elect parse worker leaderElection i io) := by
  unfold Runners.elect
  cases hp : s.phase i
  case starting now =>
    cases leaderElection i
    case false => exact h.goTo (by simp) (by simp)
    case true  =>
      have hst := acquireLeader_step parse s.file (worker i) now hr
      dsimp only
      rw [if_pos rfl]
      cases acquireLeader_cases parse s.file (worker i) now hr
      case inl hc =>
        obtain ⟨r, hn, hc⟩ := hc
        rw [hc]
        have hr' : (∀ now', elected now r ≠ .starting now') ∧
            ∀ since, elected now r ≠ .leading since true := by
          cases r
          case error => simp [elected]
          case ok b  => cases b <;> simp_all [elected]
        exact h.goTo (fun now' he => absurd he (hr'.left now')) hr'.right
      case inr hc =>
        rw [hc.right] at hst ⊢
        exact h.lead hw hp hst
  all_goals exact h

theorem Elected.start (h : Elected parse worker s) : Elected parse worker (s.start i) := by
  unfold Runners.start
  cases s.phase i
  case idle =>
    refine h.goTo (fun now hp => ?_) (by simp)
    cases hp
    exact h.clock
  all_goals exact h

theorem Elected.step (hw : Function.Injective worker) (h : Elected parse worker s)
    (he : Regular parse s e) : Elected parse worker (s.step parse worker leaderElection e) := by
  cases e
  case tick now =>
    refine ⟨he.right, fun i now hp => (h.starts i now hp).trans he, ?_⟩
    obtain ⟨told, hs, ht⟩ := h.lease
    exact ⟨told, hs.later he, ht⟩
  case start i    => exact h.start
  case elect i io => exact h.elect hw he
  case finish i   => exact h.goTo (by simp) (by simp)
  case call c io  =>
    obtain ⟨told, hs, ht⟩ := h.lease
    have hc : ((({ file := s.file } : CoordRun).call parse io c).file.getD {}).leaderSlot =
        (s.file.getD {}).leaderSlot := CoordRun.leaderSlot_call he.left he.right
    exact ⟨h.clock, h.starts, told, hc ▸ hs, ht⟩

variable (parse) in
-- The runner was answered that it leads, and the lease of the answer has not run out.
def Covered (s : Runners ι) (i : ι) : Prop :=
  ∃ since, s.phase i = .leading since true ∧ ageSecs parse since s.clock ≤ leaderTtlSecs

-- Two runners do not lead at the same time as long as the leases last that they were granted.
theorem not_both_covered {file : Option Coord} {clock : String} {es : List (RunnerEvent ι)}
    (hw : Function.Injective worker) (h : Before parse clock clock)
    (hm : Run.Meets (step parse worker leaderElection) (Regular parse) { file, clock } es)
    (hij : i ≠ j) :
    let s := es.foldl (step parse worker leaderElection) { file, clock }
    ¬(s.Covered parse i ∧ s.Covered parse j) := by
  rintro s ⟨⟨since, hi, ha⟩, ⟨since', hj, ha'⟩⟩
  have he : Elected parse worker s := Run.inv (fun _ _ hr he => he.step hw hr) hm (elected_init h)
  obtain ⟨told, hs, ht⟩ := he.lease
  exact hij (hw (hs.unique (ht i since hi) (ht j since' hj) (CoordRun.not_expired ha)
    (CoordRun.not_expired ha')))

-- Two runners that stand for election.
def workerSample (i : Bool) : String :=
  if i then "chopper@mac" else "luffy@mac"

theorem workerSample_injective : Function.Injective workerSample := by
  intro i j h
  revert h
  cases i <;> cases j <;> simp [workerSample]

-- The second runner starts while the first is still in a long cycle.
def longCycle : List (RunnerEvent Bool) :=
  [.start true, .elect true {}, .tick "2026-07-15T00:05:00Z", .start false, .elect false {}]

-- The lock file cannot be opened.
def storeDown : List (RunnerEvent Bool) :=
  [.start true, .elect true { lock := some "denied" }, .start false,
   .elect false { lock := some "denied" }]

-- The second runner cannot read the file in which the first has become the leader.
def fileUnreadable : List (RunnerEvent Bool) :=
  [.start true, .elect true {}, .start false, .elect false { reads := false }]

def runSample (es : List (RunnerEvent Bool)) : Runners Bool :=
  es.foldl (step CoordRun.parseSample workerSample fun _ => true) { clock := "2026-07-15T00:00:00Z" }

theorem longCycle_regular :
    Run.Meets (step CoordRun.parseSample workerSample fun _ => true) (Regular CoordRun.parseSample)
      { clock := "2026-07-15T00:00:00Z" } longCycle := by
  simp [Run.Meets, longCycle, Regular, step, elect, start, Before, CoordRun.parseSample]

theorem not_both_covered_longCycle :
    ¬((runSample longCycle).Covered CoordRun.parseSample true ∧
      (runSample longCycle).Covered CoordRun.parseSample false) :=
  not_both_covered workerSample_injective (by simp [Before, CoordRun.parseSample]) longCycle_regular
    (by decide)

-- Both runners lead.
theorem leaders_overlap :
    ((runSample longCycle).phase true = .leading "2026-07-15T00:00:00Z" true ∧
      (runSample longCycle).phase false = .leading "2026-07-15T00:05:00Z" true) ∧
    ((runSample storeDown).phase true = .leading "2026-07-15T00:00:00Z" false ∧
      (runSample storeDown).phase false = .leading "2026-07-15T00:00:00Z" false) ∧
    (runSample fileUnreadable).phase true = .leading "2026-07-15T00:00:00Z" true ∧
      (runSample fileUnreadable).phase false = .leading "2026-07-15T00:00:00Z" true :=
  ⟨⟨rfl, rfl⟩, ⟨rfl, rfl⟩, rfl, rfl⟩

end Runners
