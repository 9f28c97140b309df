import CoxAgent.Json.Theorems.Coord

open JsonStateStore

variable {parse : String → Option Int} {file : Option Coord} {s : CoordRun} {e : CoordCall × CoordIo}
variable {es : List (CoordCall × CoordIo)} {id : TicketId} {stage worker holder now a n : String}

namespace CoordRun

variable (parse) in
-- The time of a call is readable and not before that of the last one, and if there is a coordination
-- file then it can be read.
def Timely (s : CoordRun) (e : CoordCall × CoordIo) : Prop :=
  e.2.reads ∧ ∀ now ∈ e.1.time, s.Reaches parse now

variable (parse) in
def run (file : Option Coord) (es : List (CoordCall × CoordIo)) : CoordRun :=
  es.foldl (step parse) { file }

variable (parse) in
-- At most one worker leads, and at most one holds a stage of a ticket.
def Exclusive (s : CoordRun) : Prop :=
  ∀ now, s.Reaches parse now →
    (∀ w w', s.Leads parse now w → s.Leads parse now w' → w = w') ∧
    ∀ id stage w w', s.HoldsStage parse id stage now w → s.HoldsStage parse id stage now w' → w = w'

variable (parse) in
-- What the workers know is what is stored, or it has run out.
structure Sound (s : CoordRun) : Prop where
  leads  : ∀ now, s.Reaches parse now →
             (ttlClock parse leaderTtlSecs).Sound now (s.file.getD {}).leaderSlot s.leads
  stages : ∀ id stage now, s.Reaches parse now → (ttlClock parse stageTtlSecs).Sound now
             ((s.file.getD {}).stageSlot id stage) (s.stages (id, stage))

theorem sound_init : Sound parse { file } where
  leads _ _      := by simp [LeaseClock.Sound]
  stages _ _ _ _ := by simp [LeaseClock.Sound]

theorem Reaches.of_step (h : (s.step parse e).Reaches parse now) (ht : e.1.time = some n) :
    Before parse n now := by
  apply h.right n
  simp [step, ht]

-- A step of a lease at the time of the call keeps it sound at all times that follow.
theorem sound_of_step {ttl : Int} {slot slot' : List (String × String)} {w : Option String}
    {told : String → Option String}
    (hs : ∀ now, s.Reaches parse now → (ttlClock parse ttl).Sound now slot told)
    (hn : s.Reaches parse n) (hst : (ttlClock parse ttl).Step n slot w slot') (ht : e.1.time = some n)
    (h : (s.step parse e).Reaches parse now) :
    (ttlClock parse ttl).Sound now slot'
      (w.elim told fun w => Function.update told w (some n)) := by
  refine LeaseClock.Sound.later ?_ (h.of_step ht)
  cases w
  case none   => exact hst.sound_none hn.left (hs n hn)
  case some w => exact hst.sound_some hn.left (hs n hn)

theorem told_eq (r : Except PortError Bool) (known : String → Option String) :
    told worker now r known =
      (winner worker r).elim known fun w => Function.update known w (some now) := by
  cases r
  case error e => rfl
  case ok b    => cases b <;> rfl

-- What is known after a release was known before.
theorem of_released {known : TicketId × String → String → Option String} {k k' : TicketId × String}
    {w : String}
    (h : Function.update known k (Function.update (known k) worker none) k' w = some a) :
    known k' w = some a := by
  by_cases hk : k' = k
  case neg => rwa [Function.update_of_ne hk] at h
  case pos =>
    subst hk
    rw [Function.update_self] at h
    by_cases hw : w = worker
    case neg => rwa [Function.update_of_ne hw] at h
    case pos => simp [hw] at h

-- A call that does not claim the stage.
def Passes (id : TicketId) (stage : String) (e : CoordCall × CoordIo) : Prop :=
  ∀ worker now, e.1 ≠ .claimStage id stage worker now

theorem Passes.key_ne {id' : TicketId} {stage' : String} {io : CoordIo}
    (hp : Passes id' stage' (.claimStage id stage worker n, io)) : (id', stage') ≠ (id, stage) := by
  intro hk
  cases hk
  exact hp worker n rfl

-- Such calls take no lease of the stage away that has not run out.
theorem stageSlot_step (hr : e.2.reads) (hp : Passes id stage e) (ht : e.1.time = some n) :
    (ttlClock parse stageTtlSecs).Step n ((s.file.getD {}).stageSlot id stage) none
      (((s.step parse e).file.getD {}).stageSlot id stage) := by
  obtain ⟨c, io⟩ := e
  cases c
  case acquireLeader worker n' =>
    have hl : ((s.step parse (.acquireLeader worker n', io)).file.getD {}).stageSlot id stage =
        (s.file.getD {}).stageSlot id stage := acquireLeader_stageSlot hr
    rw [hl]
    exact .keep
  case claimStage id' stage' worker n' =>
    cases ht
    exact claimStage_step_ne worker hr hp.key_ne
  case releaseStage => contradiction
  case heartbeat worker role ticket caps n' =>
    have hl : ((s.step parse (.heartbeat worker role ticket caps n', io)).file.getD {}).stageSlot
        id stage = (s.file.getD {}).stageSlot id stage := (heartbeatWorker_frame id stage hr).right
    rw [hl]
    exact .keep

-- Only the election touches the leader.
theorem leaderSlot_call {c : CoordCall} {io : CoordIo} (hr : io.reads)
    (hc : ∀ worker now, c ≠ .acquireLeader worker now) :
    ((s.call parse io c).file.getD {}).leaderSlot = (s.file.getD {}).leaderSlot := by
  cases c
  case acquireLeader worker n  => exact absurd rfl (hc worker n)
  case claimStage id stage _ _ => exact claimStage_leaderSlot hr
  case releaseStage            => rfl
  case heartbeat               => exact (heartbeatWorker_frame ⟨""⟩ "" hr).left

theorem Sound.leads_step (hs : Sound parse s) (he : Timely parse s e)
    (hr : (s.step parse e).Reaches parse now) : (ttlClock parse leaderTtlSecs).Sound now
      ((s.step parse e).file.getD {}).leaderSlot (s.step parse e).leads := by
  obtain ⟨c, io⟩ := e
  cases c
  case acquireLeader worker n =>
    have := sound_of_step hs.leads (he.right n rfl)
      (acquireLeader_step parse s.file worker n he.left) rfl hr
    rw [← told_eq] at this
    exact this
  case claimStage id stage worker n =>
    have hc : ((s.step parse (.claimStage id stage worker n, io)).file.getD {}).leaderSlot =
        (s.file.getD {}).leaderSlot := leaderSlot_call he.left (by simp)
    rw [hc]
    exact sound_of_step hs.leads (he.right n rfl) .keep rfl hr
  case releaseStage => exact hs.leads now hr
  case heartbeat worker role ticket caps n =>
    have hc : ((s.step parse (.heartbeat worker role ticket caps n, io)).file.getD {}).leaderSlot =
        (s.file.getD {}).leaderSlot := leaderSlot_call he.left (by simp)
    rw [hc]
    exact sound_of_step hs.leads (he.right n rfl) .keep rfl hr

theorem Sound.stages_step (hs : Sound parse s) (he : Timely parse s e)
    (hr : (s.step parse e).Reaches parse now) : (ttlClock parse stageTtlSecs).Sound now
      (((s.step parse e).file.getD {}).stageSlot id stage)
      ((s.step parse e).stages (id, stage)) := by
  obtain ⟨c, io⟩ := e
  cases c
  case acquireLeader worker n =>
    exact sound_of_step (hs.stages id stage) (he.right n rfl)
      (stageSlot_step he.left (by simp [Passes]) rfl) rfl hr
  case claimStage id' stage' worker n =>
    by_cases hk : (id, stage) = (id', stage')
    case pos =>
      cases hk
      have := sound_of_step (hs.stages id stage) (he.right n rfl)
        (claimStage_step worker he.left) rfl hr
      rw [← told_eq,
        ← Function.update_self (id, stage) (told worker n _ (s.stages (id, stage))) s.stages] at this
      exact this
    case neg =>
      have := sound_of_step (hs.stages id stage) (he.right n rfl)
        (claimStage_step_ne worker he.left hk) rfl hr
      rw [← Function.update_of_ne hk (told worker n _ (s.stages (id', stage'))) s.stages] at this
      exact this
  case releaseStage id' stage' worker =>
    exact (hs.stages id stage now hr).forget fun w a ha => of_released ha
  case heartbeat worker role ticket caps n =>
    exact sound_of_step (hs.stages id stage) (he.right n rfl)
      (stageSlot_step he.left (by simp [Passes]) rfl) rfl hr

theorem Sound.step (hs : Sound parse s) (he : Timely parse s e) : Sound parse (s.step parse e) where
  leads _ hr      := hs.leads_step he hr
  stages _ _ _ hr := hs.stages_step he hr

theorem sound_of_meets (hm : Run.Meets (step parse) (Timely parse) { file } es) :
    Sound parse (run parse file es) :=
  Run.inv (fun _ _ he hs => hs.step he) hm sound_init

theorem not_expired {ttl : Int} (h : ageSecs parse a n ≤ ttl) : ¬(ttlClock parse ttl).expired a n := by
  simpa [ttlClock] using h

theorem Sound.exclusive (hs : Sound parse s) : Exclusive parse s := by
  intro now hr
  constructor
  case left =>
    rintro w w' ⟨a, ha, hl⟩ ⟨a', ha', hl'⟩
    exact (hs.leads now hr).unique ha ha' (not_expired hl) (not_expired hl')
  case right =>
    rintro id stage w w' ⟨a, ha, hl⟩ ⟨a', ha', hl'⟩
    exact (hs.stages id stage now hr).unique ha ha' (not_expired hl) (not_expired hl')

variable (parse) in
-- The lease that the worker was granted at `a` is the only one for the stage, or it has run out and
-- there is none.
def Kept (id : TicketId) (stage holder a : String) (s : CoordRun) : Prop :=
  ∀ now, s.Reaches parse now → (s.file.getD {}).stageSlot id stage = [(holder, a)] ∨
    (s.file.getD {}).stageSlot id stage = [] ∧ (ttlClock parse stageTtlSecs).expired a now

theorem Kept.step (hk : Kept parse id stage holder a s) (he : Timely parse s e)
    (hp : Passes id stage e) : Kept parse id stage holder a (s.step parse e) := by
  intro now hr
  cases ht : e.1.time
  case none =>
    obtain ⟨c, io⟩ := e
    cases c
    case releaseStage => exact hk now hr
    all_goals contradiction
  case some n =>
    have hn : s.Reaches parse n := he.right n ht
    have hb : Before parse n now := hr.of_step ht
    have hst : (ttlClock parse stageTtlSecs).Step n ((s.file.getD {}).stageSlot id stage) none
        (((s.step parse e).file.getD {}).stageSlot id stage) := stageSlot_step he.left hp ht
    cases hk n hn
    case inl h =>
      exact (hst.mem_or_expired h).imp_right (.imp_right (LeaseClock.expired_mono _ · hb))
    case inr h =>
      refine .inr ⟨?_, LeaseClock.expired_mono _ h.right hb⟩
      rw [h.left] at hst
      exact hst.nil_of_nil

theorem Kept.run (hk : Kept parse id stage holder a s)
    (hm : Run.Meets (CoordRun.step parse) (Timely parse) s es) (hp : ∀ e ∈ es, Passes id stage e) :
    Kept parse id stage holder a (es.foldl (CoordRun.step parse) s) := by
  induction es generalizing s
  case nil          => exact hk
  case cons e es hi =>
    have ⟨he, hes⟩ := List.forall_mem_cons.mp hp
    exact hi (hk.step hm.left he) hm.right hes

-- Another worker gets the stage if and only if the lease that is kept has run out.
theorem Kept.claim_iff (hk : Kept parse id stage holder a s) {io : CoordIo}
    (he : Timely parse s (.claimStage id stage worker now, io)) (hw : worker ≠ holder) :
    (claimStage parse io id stage worker now s.file).1 = .ok true ↔
      (io.lock = none ∧ io.write = none) ∧ ageSecs parse a now > stageTtlSecs := by
  rw [claimStage_ok_iff he.left, heldByOther_iff]
  refine and_congr_right fun _ => ?_
  cases hk now (he.right now rfl)
  case inl h =>
    rw [h, LeaseClock.live_singleton]
    split
    case isTrue hx  => simpa [ttlClock] using hx
    case isFalse hx =>
      have hx : ageSecs parse a now ≤ stageTtlSecs := by simpa [ttlClock] using hx
      simpa [hw.symm] using hx
  case inr h => simpa [h.left, ttlClock] using h.right

variable (parse file) in
-- The holder of a stage, who was granted it at `a`, has released it while its lease ran, and nobody has
-- claimed it since.
def Released (es : List (CoordCall × CoordIo)) (id : TicketId) (stage holder a : String) : Prop :=
  ∃ es₁ io es₂ now, es = es₁ ++ (.releaseStage id stage holder, io) :: es₂ ∧
    (run parse file es₁).Reaches parse now ∧
    (run parse file es₁).stages (id, stage) holder = some a ∧ ageSecs parse a now ≤ stageTtlSecs ∧
    ∀ e ∈ es₂, Passes id stage e

theorem Released.kept (h : Released parse file es id stage holder a)
    (hm : Run.Meets (step parse) (Timely parse) { file } es) :
    Kept parse id stage holder a (run parse file es) := by
  obtain ⟨es₁, io, es₂, now, he, hr, hs, hl, hp⟩ := h
  subst he
  have ⟨hm₁, hm₂⟩ := Run.meets_append.mp hm
  have hs₁ := (sound_of_meets hm₁).stages id stage now hr
  have hk : Kept parse id stage holder a (run parse file es₁) :=
    fun _ _ => .inl ((hs₁ holder a hs).resolve_right (not_expired hl))
  rw [CoordRun.run, List.foldl_append]
  exact hk.run hm₂ (List.forall_mem_cons.mpr ⟨by simp [Passes], hp⟩)

-- The leases are exclusive, and a stage that was released is free for others once the lease that it was
-- held by has run out.
theorem exclusive_and_released_iff (hm : Run.Meets (step parse) (Timely parse) { file } es) :
    Exclusive parse (run parse file es) ∧
    ∀ id stage holder a, Released parse file es id stage holder a → ∀ worker now io,
      worker ≠ holder → Timely parse (run parse file es) (.claimStage id stage worker now, io) →
      ((claimStage parse io id stage worker now (run parse file es).file).1 = .ok true ↔
        (io.lock = none ∧ io.write = none) ∧ ageSecs parse a now > stageTtlSecs) :=
  ⟨(sound_of_meets hm).exclusive, fun _ _ _ _ h _ _ _ hw he => (h.kept hm).claim_iff he hw⟩

-- The instants that a few texts stand for.
def parseSample (t : String) : Option Int :=
  if t = "2026-07-15T00:00:00Z" then some 1784073600000000000
  else if t = "2026-07-15T00:00:05Z" then some 1784073605000000000
  else if t = "2026-07-15T00:05:00Z" then some 1784073900000000000
  else none

def claimThenRelease : List (CoordCall × CoordIo) :=
  [(.claimStage ⟨"CXA-F001"⟩ "sa" "chopper@mac" "2026-07-15T00:00:00Z", {}),
   (.releaseStage ⟨"CXA-F001"⟩ "sa" "chopper@mac", {})]

theorem claimThenRelease_meets :
    Run.Meets (step parseSample) (Timely parseSample) { file := none } claimThenRelease := by
  simp [Run.Meets, claimThenRelease, Timely, CoordCall.time, Reaches, Before, parseSample]

theorem exclusive_and_released_iff_claimThenRelease :
    Exclusive parseSample (run parseSample none claimThenRelease) ∧
    ∀ id stage holder a, Released parseSample none claimThenRelease id stage holder a →
      ∀ worker now io, worker ≠ holder → Timely parseSample (run parseSample none claimThenRelease)
        (.claimStage id stage worker now, io) →
      ((claimStage parseSample io id stage worker now
          (run parseSample none claimThenRelease).file).1 = .ok true ↔
        (io.lock = none ∧ io.write = none) ∧ ageSecs parseSample a now > stageTtlSecs) :=
  exclusive_and_released_iff claimThenRelease_meets

-- The second of two workers cannot read the file in which the first has become the leader.
def leadUnread : List (CoordCall × CoordIo) :=
  [(.acquireLeader "chopper@mac" "2026-07-15T00:00:00Z", {}),
   (.acquireLeader "luffy@mac" "2026-07-15T00:00:05Z", { reads := false })]

-- Five seconds after the release another worker still does not get the stage, and with a file that
-- cannot be read there are two leaders.
theorem stage_not_free_and_two_leaders :
    (Run.Meets (step parseSample) (Timely parseSample) { file := none } claimThenRelease ∧
      Released parseSample none claimThenRelease ⟨"CXA-F001"⟩ "sa" "chopper@mac"
        "2026-07-15T00:00:00Z" ∧
      Timely parseSample (run parseSample none claimThenRelease)
        (.claimStage ⟨"CXA-F001"⟩ "sa" "luffy@mac" "2026-07-15T00:00:05Z", {}) ∧
      (claimStage parseSample {} ⟨"CXA-F001"⟩ "sa" "luffy@mac" "2026-07-15T00:00:05Z"
        (run parseSample none claimThenRelease).file).1 = .ok false) ∧
    (run parseSample none leadUnread).Leads parseSample "2026-07-15T00:00:05Z" "chopper@mac" ∧
      (run parseSample none leadUnread).Leads parseSample "2026-07-15T00:00:05Z" "luffy@mac" := by
  refine ⟨⟨claimThenRelease_meets, ?_, ?_, rfl⟩, ⟨_, rfl, by decide⟩, ⟨_, rfl, by decide⟩⟩
  case refine_1 =>
    refine ⟨claimThenRelease.take 1, {}, [], "2026-07-15T00:00:00Z", rfl, ?_, rfl, by decide, by simp⟩
    simp [Reaches, Before, parseSample, run, step, claimThenRelease, CoordCall.time]
  case refine_2 =>
    simp [Timely, Reaches, Before, parseSample, run, step, claimThenRelease, CoordCall.time]

end CoordRun
