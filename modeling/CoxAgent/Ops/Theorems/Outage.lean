import CoxAgent.Lib.Lists
import CoxAgent.Lib.Streak
import CoxAgent.Ops.Leader

-- How often the monitor of the live app rolls back in an outage.

-- What the state says about an outage.
def outageView (s : ProjectState) : Bool × Nat :=
  (s.opsDown, s.opsDownStreak)

def ProjectState.withOutage (s : ProjectState) (opsDown : Bool) (opsDownStreak : Nat) : ProjectState :=
  { s with opsDown, opsDownStreak }

@[simp]
theorem outage_withOutage {s : ProjectState} {opsDown : Bool} {opsDownStreak : Nat} :
    outageView (s.withOutage opsDown opsDownStreak) = (opsDown, opsDownStreak) :=
  rfl

section Kept

variable {setup : OpsSetup} {o : OpsRun} {e : EditIo} {f : ProjectState → ProjectState} {io : RevertIo}
  {r : Reverting} {reason summary : String} {failedSha : Option String}

theorem outage_edit (h : outageView (f o.state) = outageView o.state) : outageView (o.edit e f).state = outageView o.state := by
  rw [PortRun.state_edit]
  split
  case isTrue  => rfl
  case isFalse => exact h

theorem outage_postMortem {rolledForward : Bool} {failureSummary : Option String} :
    outageView (postMortem e r rolledForward summary failureSummary o).state = outageView o.state := by
  unfold postMortem
  simp only [PortRun.state_act, PortRun.state_edit, ProjectState.postChatIn, outageView]
  cases e.fails
  case false =>
    rw [if_neg Bool.false_ne_true]
  case true  => rfl

theorem outage_finishRollback {ok : Bool} {failureSummary : Option String} {b : Option Record} :
    outageView (finishRollback io r ok summary failureSummary b o).state = outageView o.state := by
  unfold finishRollback
  dsimp only
  generalize ho : o.edit io.record _ = o'
  have hk : outageView o'.state = outageView o.state := by
    rw [← ho]
    apply outage_edit
    split <;> rfl
  split
  case isTrue  => rw [outage_postMortem, PortRun.state_act, hk]
  case isFalse => rw [PortRun.state_act, PortRun.state_act, hk]

theorem outage_recordRollbackSkipped {stale migrationBlocked : Bool} :
    outageView (recordRollbackSkipped io r summary stale migrationBlocked o).state = outageView o.state := by
  unfold recordRollbackSkipped
  dsimp only
  rw [outage_postMortem, PortRun.state_act]
  exact outage_edit rfl

theorem outage_rollBack : outageView (rollBack setup io r o).state = outageView o.state := by
  unfold rollBack
  cases io.worktreeAdd with
  | error e => exact outage_finishRollback
  | ok _    => exact outage_finishRollback

theorem outage_revertToKnownGood :
    outageView (revertToKnownGood setup io reason failedSha o).state = outageView o.state := by
  unfold revertToKnownGood
  split
  case isTrue  => rfl
  case isFalse =>
    split
    case h_1 => rfl
    case h_2 =>
      dsimp only
      split
      case isTrue  => rfl
      case isFalse =>
        split
        case isTrue  => exact outage_recordRollbackSkipped
        case isFalse =>
          split
          case isTrue  => exact outage_recordRollbackSkipped
          case isFalse => exact outage_rollBack

theorem outage_attemptLiveHealthRollback :
    outageView (attemptLiveHealthRollback setup io failedSha o).state = outageView o.state := by
  unfold attemptLiveHealthRollback
  split
  case isTrue  => exact outage_revertToKnownGood
  case isFalse => rfl

end Kept

inductive Probe
  | healthy
  | unhealthy
  | error
deriving DecidableEq, Repr

def probeOf : Except PortError Bool → Probe
  | .ok true  => .healthy
  | .ok false => .unhealthy
  | .error _  => .error

section Tick

variable (setup : OpsSetup) (io : MonitorIo) (s : ProjectState)

def rollbackThreshold : Nat :=
  max setup.config.liveHealthFailChecks 1

-- What the monitor learns about the app, if it asks.
def monitorProbe : Option Probe :=
  if setup.config.hostPort.isNone || !setup.opsMonitor || !setup.deploy || !io.loads || s.history.isEmpty then
    none
  else
    some (probeOf io.health)

-- Whether the monitor attempts a rollback.
def monitorRollsBack : Bool :=
  monitorProbe setup io s = some .unhealthy && min (s.opsDownStreak + 1) u32Max = rollbackThreshold setup

-- What the write of the probe makes of the outage, if there is one and it succeeds.
def outageWritten : Option (Bool × Nat) :=
  match monitorProbe setup io s with
  | none            => none
  | some .unhealthy => if io.streak.fails then none else some (true, min (s.opsDownStreak + 1) u32Max)
  | some _          => if !s.opsDown || io.streak.fails then none else some (false, 0)

-- The monitor but for the rollback.
def monitorTick (o : OpsRun) : OpsRun :=
  match monitorProbe setup io o.state with
  | none            => o
  | some .unhealthy =>
    let o' := o.edit io.streak fun s => s.withOutage true (min (s.opsDownStreak + 1) u32Max)
    if o.state.opsDown then
      o'
    else
      let port := setup.config.hostPort.getD 0
      o'.act (.fileAppDown port) |>.act (.notify "ops_down"
        s!"App is DOWN — nothing responding on port {port}. Filed a high-priority bug.")
  | some _          =>
    if o.state.opsDown then
      let port := setup.config.hostPort.getD 0
      o.edit io.streak (·.withOutage false 0)
        |>.act (.notify "ops_up" s!"App recovered — responding on port {port} again.")
    else
      o

variable {setup io} {o : OpsRun}

theorem opsMonitor_eq : opsMonitor setup io o =
    if monitorRollsBack setup io o.state then
      attemptLiveHealthRollback setup io.revert (o.state.deploy >>= (·.commitSha)) (monitorTick setup io o)
    else
      monitorTick setup io o := by
  unfold opsMonitor monitorRollsBack monitorTick monitorProbe
  cases setup.config.hostPort with
  | none      => rfl
  | some port =>
    by_cases hg : (!setup.opsMonitor || !setup.deploy || !io.loads || o.state.history.isEmpty) = true
    case pos => simp only [hg, Option.isNone_some, Bool.false_or, if_true]; rfl
    case neg =>
      simp only [hg, Option.isNone_some, Bool.false_or, Bool.false_eq_true, if_false]
      cases io.health with
      | error e => rfl
      | ok b    =>
        cases b with
        | true  => rfl
        | false =>
          have hu : (!(Except.ok false : Except PortError Bool).toOption.getD true) = true := rfl
          rw [if_pos hu]
          have hr : (decide (some (probeOf (.ok false)) = some Probe.unhealthy) &&
                decide (min (o.state.opsDownStreak + 1) u32Max = rollbackThreshold setup)) = true ↔
              min (o.state.opsDownStreak + 1) u32Max = max setup.config.liveHealthFailChecks 1 := by
            rw [Bool.and_eq_true, decide_eq_true_iff, decide_eq_true_iff]
            exact and_iff_right rfl
          by_cases ht : min (o.state.opsDownStreak + 1) u32Max = max setup.config.liveHealthFailChecks 1
          case pos => exact (if_pos ht).trans (if_pos (hr.mpr ht)).symm
          case neg => exact (if_neg ht).trans (if_neg fun h => ht (hr.mp h)).symm

theorem outage_monitorTick : outageView (monitorTick setup io o).state =
    (outageWritten setup io o.state).getD (outageView o.state) := by
  have he (f : ProjectState → ProjectState) : outageView (o.edit io.streak f).state =
      (if io.streak.fails then none else some (outageView (f o.state))).getD (outageView o.state) := by
    rw [PortRun.state_edit]
    cases io.streak.fails <;> rfl
  unfold monitorTick outageWritten
  split
  case h_1 => rfl
  case h_2 =>
    dsimp only
    split
    case isTrue  => exact he _
    case isFalse =>
      rw [PortRun.state_act, PortRun.state_act]
      exact he _
  case h_3 =>
    dsimp only
    cases o.state.opsDown with
    | false => rfl
    | true  =>
      rw [if_pos rfl, PortRun.state_act]
      exact he _

-- The attempt leaves alone what the state says about the outage.
theorem outage_opsMonitor : outageView (opsMonitor setup io o).state =
    (outageWritten setup io o.state).getD (outageView o.state) := by
  rw [opsMonitor_eq]
  split
  case isTrue  => rw [outage_attemptLiveHealthRollback, outage_monitorTick]
  case isFalse => exact outage_monitorTick

end Tick

-- The monitor of a cycle, or what everybody else makes of the state. Nobody else writes down outages.
inductive MonitorEvent
  | monitor (io : MonitorIo)
  | others (s : ProjectState)

def monitorStep (setup : OpsSetup) (s : ProjectState) : MonitorEvent → ProjectState
  | .monitor io => (opsMonitor setup io { state := s }).state
  | .others s'  => s'.withOutage s.opsDown s.opsDownStreak

-- What the monitor finds, whether it rolls back, and what it writes about the outage.
structure MonitorEntry where
  probe     : Option Probe
  stores    : Bool
  streak    : Nat
  rollsBack : Bool
  written   : Option (Bool × Nat)
deriving DecidableEq, Repr

section Log

variable (setup : OpsSetup)

def monitorEntry (io : MonitorIo) (s : ProjectState) : MonitorEntry where
  probe     := monitorProbe setup io s
  stores    := !io.streak.fails
  streak    := s.opsDownStreak
  rollsBack := monitorRollsBack setup io s
  written   := outageWritten setup io s

def monitorLog (s : ProjectState) : List MonitorEvent → List MonitorEntry
  | []               => []
  | .monitor io :: l => monitorEntry setup io s :: monitorLog (monitorStep setup s (.monitor io)) l
  | .others s' :: l  => monitorLog (monitorStep setup s (.others s')) l

end Log

namespace MonitorEntry

-- The app does not answer, and the monitor writes it down.
def raises (e : MonitorEntry) : Bool :=
  e.probe = some .unhealthy && e.stores

-- What the monitor takes for an answer, and writes down.
def recovers (e : MonitorEntry) : Bool :=
  e.probe.isSome && e.probe ≠ some .unhealthy && e.stores

def streakCounter : Streak MonitorEntry where
  raises   := raises
  resets   := recovers
  cap      := u32Max
  disjoint := by
    intro e hr hs
    simp only [raises, recovers, Bool.and_eq_true, decide_eq_true_eq] at hr hs
    exact hs.left.right hr.left

end MonitorEntry

section Chain

variable {setup : OpsSetup} {s : ProjectState} {io : MonitorIo} {events : List MonitorEvent}
  {e : MonitorEntry} {pre post : List MonitorEntry}

open MonitorEntry

-- The flag and the streak describe the same fact.
def OutageAgrees (s : ProjectState) : Prop :=
  s.opsDown ↔ 0 < s.opsDownStreak

theorem outageWritten_agrees {down : Bool} {streak : Nat} (h : outageWritten setup io s = some (down, streak)) :
    down ↔ 0 < streak := by
  unfold outageWritten at h
  have hu : 0 < min (s.opsDownStreak + 1) u32Max := by
    unfold u32Max
    omega
  grind

theorem agrees_of_outage {s' : ProjectState} (h : OutageAgrees s)
    (ho : outageView s' = (outageWritten setup io s).getD (outageView s)) : OutageAgrees s' := by
  have hd : s'.opsDown = ((outageWritten setup io s).getD (outageView s)).1 := congrArg Prod.fst ho
  have hs : s'.opsDownStreak = ((outageWritten setup io s).getD (outageView s)).2 := congrArg Prod.snd ho
  unfold OutageAgrees
  rw [hd, hs]
  cases hw : outageWritten setup io s with
  | none   => exact h
  | some p => exact outageWritten_agrees hw

theorem streak_of_outage (h : OutageAgrees s) : ((outageWritten setup io s).getD (outageView s)).2 =
    streakCounter.next s.opsDownStreak (monitorEntry setup io s) := by
  unfold outageWritten Streak.next streakCounter raises recovers monitorEntry outageView
  dsimp only
  unfold OutageAgrees at h
  cases monitorProbe setup io s with
  | none   => rfl
  | some p =>
    cases hf : io.streak.fails with
    | true  => cases p <;> simp
    | false =>
      cases p with
      | unhealthy => simp
      | healthy   => cases hd : s.opsDown <;> simp_all
      | error     => cases hd : s.opsDown <;> simp_all

theorem agrees_monitorStep (setup : OpsSetup) (event : MonitorEvent) (h : OutageAgrees s) :
    OutageAgrees (monitorStep setup s event) := by
  cases event with
  | others s'  => exact h
  | monitor io => exact agrees_of_outage h outage_opsMonitor

-- Each entry finds the streak that the entries before it have made.
theorem streak_of_split (h : OutageAgrees s) (hl : monitorLog setup s events = pre ++ e :: post) :
    e.streak = pre.foldl streakCounter.next s.opsDownStreak := by
  induction events generalizing s pre with
  | nil             => simp [monitorLog] at hl
  | cons event l hi =>
    have hstep := agrees_monitorStep setup event h
    cases event with
    | others s'  =>
      rw [monitorLog] at hl
      exact hi (s := monitorStep setup s (.others s')) hstep hl
    | monitor io =>
      rw [monitorLog] at hl
      cases pre with
      | nil          =>
        obtain ⟨rfl, -⟩ := List.cons.inj hl
        rfl
      | cons e' pre  =>
        obtain ⟨rfl, htl⟩ := List.cons.inj hl
        have ho : (monitorStep setup s (.monitor io)).opsDownStreak = _ :=
          congrArg Prod.snd (@outage_opsMonitor setup io { state := s })
        rw [hi hstep htl, ho, List.foldl_cons, streak_of_outage h]

theorem exists_of_mem_monitorLog (he : e ∈ monitorLog setup s events) :
    ∃ s' io, e = monitorEntry setup io s' := by
  induction events generalizing s with
  | nil             => simp [monitorLog] at he
  | cons event l hi =>
    cases event with
    | others s'  =>
      rw [monitorLog] at he
      exact hi he
    | monitor io =>
      rw [monitorLog] at he
      rcases List.mem_cons.mp he with rfl | he
      · exact ⟨s, io, rfl⟩
      · exact hi he

theorem rollsBack_iff (he : e ∈ monitorLog setup s events) : e.rollsBack ↔
    e.probe = some .unhealthy ∧ streakCounter.Short (rollbackThreshold setup) e.streak := by
  obtain ⟨s', io, rfl⟩ := exists_of_mem_monitorLog he
  simp [monitorEntry, monitorRollsBack, Streak.Short, streakCounter]

end Chain

open MonitorEntry

-- Between two healthy probes the monitor rolls back at most once, and once if its writes succeed and enough
-- probes in a row find the app down. What it writes is one fact.
structure RollsBackOnce (setup : OpsSetup) (log : List MonitorEntry) : Prop where
  atMost  : ∀ pre mid post, log = pre ++ mid ++ post → (∀ e ∈ mid, e.probe ≠ some .healthy) →
    mid.countP (·.rollsBack) ≤ 1
  exactly : ∀ pre mid post, log = pre ++ mid ++ post → (∀ e ∈ mid, e.probe ≠ some .healthy) →
    (pre = [] ∨ ∃ pre' e, pre = pre' ++ [e] ∧ e.probe = some .healthy ∧ e.stores) → (∀ e ∈ mid, e.stores) →
    (∃ a b c, mid = a ++ b ++ c ∧ (∀ e ∈ b, e.probe ≠ some .error) ∧
      rollbackThreshold setup ≤ b.countP (·.probe = some .unhealthy)) →
    mid.countP (·.rollsBack) = 1
  agrees  : ∀ e ∈ log, ∀ down streak, e.written = some (down, streak) → (down ↔ 0 < streak)

-- After an unhealthy probe that finds the streak one short of the threshold, no unhealthy probe before the
-- next healthy one finds it so again.
def CrossesOnce (setup : OpsSetup) (log : List MonitorEntry) : Prop :=
  ∀ pre i mid j post, log = pre ++ i :: mid ++ j :: post → i.probe = some .unhealthy →
    j.probe = some .unhealthy → (∀ e ∈ mid, e.probe ≠ some .healthy) →
    streakCounter.Short (rollbackThreshold setup) i.streak →
    ¬streakCounter.Refinds (rollbackThreshold setup) (i :: mid)

section Once

variable {setup : OpsSetup} {events : List MonitorEvent} {log : List MonitorEntry}

theorem outageAgrees_empty : OutageAgrees {} := by
  simp [OutageAgrees]

theorem streak_eq {e : MonitorEntry} {pre post : List MonitorEntry}
    (hl : monitorLog setup {} events = pre ++ e :: post) : e.streak = pre.foldl streakCounter.next 0 :=
  streak_of_split outageAgrees_empty hl

theorem countP_le_one_of_crossesOnce (h : CrossesOnce setup (monitorLog setup {} events))
    {pre mid post : List MonitorEntry} (hl : monitorLog setup {} events = pre ++ mid ++ post)
    (hn : ∀ e ∈ mid, e.probe ≠ some .healthy) : mid.countP (·.rollsBack) ≤ 1 := by
  rw [Lists.countP_le_one_iff]
  rintro a i b j c rfl ⟨hi, hj⟩
  have hli : monitorLog setup {} events = (pre ++ a) ++ i :: b ++ j :: (c ++ post) := by simp [hl]
  have hlj : monitorLog setup {} events = ((pre ++ a) ++ i :: b) ++ j :: (c ++ post) := hli
  rw [rollsBack_iff (by rw [hl]; simp)] at hi hj
  refine h (pre ++ a) i b j (c ++ post) hli hi.left hj.left (fun e he => hn e (by simp [he])) hi.right ?_
  have his : i.streak = (pre ++ a).foldl streakCounter.next 0 :=
    streak_eq (hli.trans (List.append_assoc _ (i :: b) _))
  rw [streak_eq hlj, List.foldl_append, ← his] at hj
  have hle : i.streak ≤ streakCounter.cap := by
    rw [his]
    exact Streak.foldl_le (Nat.zero_le _)
  exact (Streak.short_foldl_iff hle hi.right).mp hj.right

theorem crossesOnce_of_atMost
    (h : ∀ pre mid post, monitorLog setup {} events = pre ++ mid ++ post →
      (∀ e ∈ mid, e.probe ≠ some .healthy) → mid.countP (·.rollsBack) ≤ 1) :
    CrossesOnce setup (monitorLog setup {} events) := by
  intro pre i mid j post hl hi hj hn hs hr
  have hne : ∀ e ∈ i :: mid ++ [j], e.probe ≠ some .healthy := by
    simp only [List.mem_append, List.mem_cons, List.not_mem_nil, or_false]
    rintro e ((rfl | he) | rfl)
    · simp [hi]
    · exact hn e he
    · simp [hj]
  have hc := h pre (i :: mid ++ [j]) post (by simp [hl]) hne
  rw [Lists.countP_le_one_iff] at hc
  refine hc [] i mid j [] (by simp) ⟨?_, ?_⟩
  case refine_1 => exact (rollsBack_iff (by rw [hl]; simp)).mpr ⟨hi, hs⟩
  case refine_2 =>
    have his : i.streak = pre.foldl streakCounter.next 0 :=
      streak_eq (hl.trans (List.append_assoc pre (i :: mid) _))
    have hle : i.streak ≤ streakCounter.cap := by
      rw [his]
      exact Streak.foldl_le (Nat.zero_le _)
    refine (rollsBack_iff (by rw [hl]; simp)).mpr ⟨hj, ?_⟩
    rw [streak_eq hl, List.foldl_append, ← his]
    exact (Streak.short_foldl_iff hle hs).mpr hr

-- The streak starts at zero, and enough probes in a row bring it to the threshold.
-- Where every probe gets an answer that is written down, there is no second crossing.
theorem crossesOnce_of_stores (ht : rollbackThreshold setup ≠ u32Max)
    (h : ∀ e ∈ log, e.probe ≠ some .error ∧ (e.probe = some .unhealthy → e.stores)) : CrossesOnce setup log := by
  rintro pre i mid j post rfl hi hj hn hs hr
  have hi' : i.raises := by simp [raises, hi, (h i (by simp)).right hi]
  have hm : ∀ e ∈ i :: mid, ¬streakCounter.resets e := by
    intro e he hc
    simp only [streakCounter, recovers, Bool.and_eq_true, decide_eq_true_eq, Option.isSome_iff_exists] at hc
    obtain ⟨⟨⟨p, hp⟩, hu⟩, -⟩ := hc
    have hh : e.probe ≠ some .healthy := by
      rw [List.mem_cons] at he
      obtain rfl | he := he
      case inl => simp [hi]
      case inr => exact hn e he
    have he' : e.probe ≠ some .error := (h e (by simp only [List.mem_append]; exact .inl (.inr he))).left
    cases p <;> simp_all
  obtain ⟨before, e, after, he, hc, -⟩ | ⟨-, hc | hc⟩ := hr
  case inl     => exact hm e (by simp [he]) hc
  case inr.inl => exact hc i (by simp) hi'
  case inr.inr => exact ht hc

theorem exists_rollsBack (hu : setup.config.liveHealthFailChecks ≤ u32Max) {pre mid post : List MonitorEntry}
    (hl : monitorLog setup {} events = pre ++ mid ++ post) (hn : ∀ e ∈ mid, e.probe ≠ some .healthy)
    (hpre : pre = [] ∨ ∃ pre' e, pre = pre' ++ [e] ∧ e.probe = some .healthy ∧ e.stores)
    (hw : ∀ e ∈ mid, e.stores) {a b c : List MonitorEntry} (hmid : mid = a ++ b ++ c)
    (hb : ∀ e ∈ b, e.probe ≠ some .error)
    (ht : rollbackThreshold setup ≤ b.countP (·.probe = some .unhealthy)) : ∃ e ∈ mid, e.rollsBack := by
  subst hmid
  have hzero : pre.foldl streakCounter.next 0 = 0 := by
    rcases hpre with rfl | ⟨pre', e, rfl, hp, he⟩
    · rfl
    · rw [List.foldl_append, List.foldl_cons, List.foldl_nil]
      exact Streak.next_of_resets (by simp [streakCounter, recovers, hp, he])
  have hreset : ∀ e ∈ b, ¬streakCounter.resets e := by
    intro e he hr
    cases hp : e.probe with
    | none   => simp [streakCounter, recovers, hp] at hr
    | some p =>
      cases p with
      | healthy   => exact hn e (by simp [he]) hp
      | unhealthy => simp [streakCounter, recovers, hp] at hr
      | error     => exact hb e he hp
  have hraise : b.countP streakCounter.raises = b.countP (·.probe = some .unhealthy) := by
    refine List.countP_congr fun e he => ?_
    simp [streakCounter, raises, hw e (by simp [he])]
  have hcap : rollbackThreshold setup ≤ streakCounter.cap := by
    unfold rollbackThreshold
    exact max_le hu (by decide)
  have ⟨before, e, after, hs, hr, hsh⟩ := Streak.exists_short (c := streakCounter) (n := 0) hcap
    (Nat.lt_of_lt_of_le Nat.zero_lt_one (le_max_right _ _)) hreset (ht.trans_eq hraise.symm) (Eq.refl (a ++ b))
  have hm : e ∈ a ++ b ++ c := by rw [hs]; simp
  have hle : monitorLog setup {} events = (pre ++ before) ++ e :: (after ++ c ++ post) := by
    rw [hl, hs]
    simp
  refine ⟨e, hm, (rollsBack_iff (by rw [hle]; simp)).mpr ⟨?_, ?_⟩⟩
  case refine_1 =>
    simp only [streakCounter, raises, Bool.and_eq_true, decide_eq_true_eq] at hr
    exact hr.left
  case refine_2 =>
    rw [streak_eq hle, List.foldl_append, hzero]
    exact hsh

end Once

theorem rolls_back_once_iff {setup : OpsSetup} (hu : setup.config.liveHealthFailChecks ≤ u32Max)
    {events : List MonitorEvent} : RollsBackOnce setup (monitorLog setup {} events) ↔
      CrossesOnce setup (monitorLog setup {} events) := by
  constructor
  case mp  => exact fun h => crossesOnce_of_atMost h.atMost
  case mpr =>
    intro h
    refine ⟨fun _ _ _ => countP_le_one_of_crossesOnce h, ?_, ?_⟩
    case refine_1 =>
      rintro pre mid post hl hn hpre hw ⟨a, b, c, hmid, hb, ht⟩
      have ⟨e, he, hr⟩ := exists_rollsBack hu hl hn hpre hw hmid hb ht
      have hpos : 0 < mid.countP (·.rollsBack) := List.countP_pos_iff.mpr ⟨e, he, hr⟩
      have := countP_le_one_of_crossesOnce h hl hn
      omega
    case refine_2 =>
      intro e he down streak hwr
      obtain ⟨s, io, rfl⟩ := exists_of_mem_monitorLog he
      exact outageWritten_agrees hwr

def impatientSetup : OpsSetup where
  config := { hostPort := some 8080, liveHealthFailChecks := 1 }

def deployedState : ProjectState where
  history := [{ version := {}, ticket := ⟨"F1"⟩, title := "", at' := "" }]

-- A probe that finds the app down, and whose write may fail.
def downProbe (fails : Bool) : MonitorIo where
  health := .ok false
  streak := { fails }
  revert := { deploy := .error (.conflict "") }

-- After a write that fails the next probe finds the streak where it was.
theorem not_rolls_back_once : ¬∀ (setup : OpsSetup) (events : List MonitorEvent),
    setup.config.liveHealthFailChecks ≤ u32Max → RollsBackOnce setup (monitorLog setup {} events) := by
  intro h
  let events : List MonitorEvent :=
    [.others deployedState, .monitor (downProbe true), .monitor (downProbe false)]
  have hm := (h impatientSetup events (by decide)).atMost [] (monitorLog impatientSetup {} events) [] (by simp)
  revert hm
  decide +kernel

def patientSetup : OpsSetup where
  config := { hostPort := some 8080, liveHealthFailChecks := 2 }

def upProbe : MonitorIo where
  health := .ok true
  revert := { deploy := .error (.conflict "") }

-- Two outages with an answer between them. The first one lasts longer than it takes to roll back.
def twoOutages : List MonitorEvent := [
  .others deployedState, .monitor (downProbe false), .monitor (downProbe false), .monitor (downProbe false),
  .monitor upProbe, .monitor (downProbe false), .monitor (downProbe false)
]

theorem rolls_back_once_twoOutages : patientSetup.config.liveHealthFailChecks ≤ u32Max ∧
    (monitorLog patientSetup {} twoOutages).map (·.rollsBack) = [false, true, false, false, false, true] ∧
    RollsBackOnce patientSetup (monitorLog patientSetup {} twoOutages) :=
  ⟨by decide, by decide +kernel,
    (rolls_back_once_iff (by decide)).mpr (crossesOnce_of_stores (by decide) (by decide +kernel))⟩
