import CoxAgent.Cycle.Runner

-- Past the gate, but not yet in the cycle.
def LoopAt.passed : LoopAt → Bool
  | workspace | starting _ => true
  | _                      => false

-- Where commands cannot be missed.
def LoopAt.away : LoopAt → Bool
  | gate | parked true | inCycle _ | pausing | sleeping => true
  | _                                                  => false

namespace Runner

variable {r : Runner} {c : RunnerCall} {cs : List RunnerCall}

-- The commands that are not lost in the gaps of the loop: none lands between the check of what it asks
-- for and the registration of the waiter, a stop does not land between the gate and the cycle, and it is
-- not overwritten before the loop has seen it, neither from outside nor by the loop itself.
def Harmless (r : Runner) : RunnerCall → Prop
  | .resume    => (r.wasStopped → r.loop = .returned) ∧ r.loop ≠ .register ∧ (r.loop = .swap → r.step)
  | .pause     => r.wasStopped → r.loop = .returned
  | .step      => r.loop ≠ .register ∧ (r.loop = .swap → ¬r.wasStopped)
  | .stop      => ¬r.loop.passed ∧ (r.loop = .swap → ¬r.step)
  | .advance _ => r.loop = .pausing → ¬r.wasStopped

instance : ∀ c, Decidable (Harmless r c)
  | .resume    => inferInstanceAs (Decidable (_ ∧ _))
  | .pause     => inferInstanceAs (Decidable (_ → _))
  | .step      => inferInstanceAs (Decidable (_ ∧ _))
  | .stop      => inferInstanceAs (Decidable (_ ∧ _))
  | .advance _ => inferInstanceAs (Decidable (_ → _))

-- The loop does not miss what it was asked for, and one that was stopped is on its way out.
structure Orderly (r : Runner) : Prop where
  inTime  : ¬r.startedAfter
  stopped : r.wasStopped → r.loop = .returned ∨
              r.mode = .stopped ∧ ¬r.loop.passed ∧ (r.loop = .swap → ¬r.step)
  swap    : r.loop = .swap → r.mode = .running → r.step
  waits   : r.loop = .register ∨ r.loop = .parked false → r.mode ≠ .running ∧ ¬r.step

theorem orderly_init : Orderly {} := by
  constructor <;> simp

theorem Orderly.not_lost (h : Orderly r) : ¬r.Lost := by
  rintro ⟨hl, hr | hs⟩
  case inl => exact (h.waits (.inr hl)).left hr
  case inr => exact (h.waits (.inr hl)).right hs

-- A wake-up takes the loop from the state in which it could miss something.
theorem notifyWaiters_loop :
    r.notifyWaiters.loop = r.loop ∧ (∀ b, r.loop ≠ .parked b) ∨
      r.notifyWaiters.loop = .parked true ∧ ∃ b, r.loop = .parked b := by
  unfold notifyWaiters
  cases h : r.loop <;> simp [h]

theorem notifyWaiters_eq : r.notifyWaiters = { r with loop := r.notifyWaiters.loop } := by
  unfold notifyWaiters
  split <;> rfl

theorem Orderly.notifyWaiters (ht : ¬r.startedAfter)
    (hs : r.wasStopped → r.loop = .returned ∨
      r.mode = .stopped ∧ ¬r.loop.passed ∧ (r.loop = .swap → ¬r.step))
    (hsw : r.loop = .swap → r.mode = .running → r.step)
    (hr : r.loop = .register → r.mode ≠ .running ∧ ¬r.step) : Orderly r.notifyWaiters := by
  rw [notifyWaiters_eq]
  cases notifyWaiters_loop (r := r)
  case inl h =>
    rw [h.left]
    exact ⟨ht, hs, hsw, fun hl => hl.elim hr fun hp => absurd hp (h.right false)⟩
  case inr h =>
    obtain ⟨hl, b, hb⟩ := h
    rw [hl]
    refine ⟨ht, fun hw => .inr ⟨?_, by simp [LoopAt.passed], nofun⟩, nofun, by simp⟩
    simpa [hb] using (hs hw).imp_right And.left

theorem Orderly.resume (h : Orderly r) (hc : Harmless r .resume) : Orderly r.resume := by
  refine .notifyWaiters h.inTime (fun hw => .inl (hc.left hw)) (fun hl _ => hc.right.right hl) ?_
  exact fun hl => absurd hl hc.right.left

theorem Orderly.pause (h : Orderly r) (hc : Harmless r .pause) : Orderly r.pause where
  inTime     := h.inTime
  stopped hw := .inl (hc hw)
  swap _     := nofun
  waits hl   := ⟨nofun, (h.waits hl).right⟩

theorem Orderly.requestStep (h : Orderly r) (hc : Harmless r .step) : Orderly r.requestStep := by
  refine .notifyWaiters h.inTime (fun hw => ?_) (fun _ _ => rfl) (fun hl => absurd hl hc.left)
  exact (h.stopped hw).imp_right fun hs => ⟨hs.left, hs.right.left, fun hl => absurd hw (hc.right hl)⟩

theorem Orderly.stop (h : Orderly r) (hc : Harmless r .stop) : Orderly r.stop := by
  refine .notifyWaiters h.inTime (fun _ => .inr ⟨rfl, hc.left, hc.right⟩) (fun _ => nofun) ?_
  exact fun hl => ⟨nofun, (h.waits (.inl hl)).right⟩

-- A loop that was stopped does not get past the gate.
theorem Orderly.stopped_of_passed (h : Orderly r) (hp : r.loop.passed) : ¬r.wasStopped := by
  intro hw
  cases h.stopped hw
  case inl hr => simp [hr, LoopAt.passed] at hp
  case inr hs => exact hs.right.left hp

theorem Orderly.mode_of_stopped (h : Orderly r) (hl : r.loop ≠ .returned) (hw : r.wasStopped) :
    r.mode = .stopped :=
  ((h.stopped hw).resolve_left hl).left

-- The loop goes on to a place where it misses nothing.
theorem Orderly.goAway (h : Orderly r) (hl : r.loop ≠ .returned) {l : LoopAt} (ha : l.away)
    {streak : Nat} : Orderly { r with loop := l, infraStreak := streak } := by
  refine ⟨h.inTime, fun hw => .inr ⟨h.mode_of_stopped hl hw, ?_, ?_⟩, ?_, ?_⟩
  case refine_1 => cases l <;> simp_all [LoopAt.away, LoopAt.passed]
  case refine_2 => cases l <;> simp_all [LoopAt.away]
  case refine_3 => cases l <;> simp_all [LoopAt.away]
  case refine_4 =>
    rintro (he | he)
    all_goals
      cases he
      contradiction

theorem Orderly.endCycle (h : Orderly r) (hl : r.loop ≠ .returned) {stepping : Bool}
    {report : CycleOutcome} : Orderly (r.endCycle stepping report) := by
  unfold Runner.endCycle
  dsimp only
  split
  case isTrue  => exact h.goAway hl rfl
  case isFalse =>
    split
    case isTrue  => exact h.goAway hl rfl
    case isFalse => split <;> exact h.goAway hl rfl

theorem Orderly.advance_gate (h : Orderly r) (hl : r.loop = .gate) {io : LoopIo} :
    Orderly (r.advance io) := by
  have hw : r.mode ≠ .stopped → ¬r.wasStopped :=
    fun hm hw => hm (h.mode_of_stopped (by simp [hl]) hw)
  unfold Runner.advance
  rw [hl]
  dsimp only
  cases hm : r.mode
  case stopped => exact ⟨h.inTime, fun _ => .inl rfl, nofun, by simp⟩
  case running => exact ⟨h.inTime, fun h => absurd h (hw (by simp [hm])), nofun, by simp⟩
  case paused  => exact ⟨h.inTime, fun h => absurd h (hw (by simp [hm])), fun _ => nofun, by simp⟩

-- The check of the step flag is the last before the registration.
theorem Orderly.advance_swap (h : Orderly r) (hl : r.loop = .swap) {io : LoopIo} :
    Orderly (r.advance io) := by
  have hs := h.stopped
  unfold Runner.advance
  rw [hl] at hs ⊢
  dsimp only
  split
  case isTrue hstep =>
    have hw : ¬r.wasStopped := fun hw => by simpa [hstep] using hs hw
    exact ⟨h.inTime, fun h => absurd h hw, nofun, by simp⟩
  case isFalse hstep =>
    refine ⟨h.inTime, fun hw => .inr ⟨h.mode_of_stopped (by simp [hl]) hw, by simp [LoopAt.passed],
      nofun⟩, nofun, fun _ => ⟨fun hm => hstep (h.swap hl hm), hstep⟩⟩

theorem Orderly.advance (h : Orderly r) {io : LoopIo} (hc : Harmless r (.advance io)) :
    Orderly (r.advance io) := by
  cases hl : r.loop
  case gate => exact h.advance_gate hl
  case swap => exact h.advance_swap hl
  case register =>
    simp only [Runner.advance, hl]
    refine ⟨h.inTime, fun hw => .inr ⟨h.mode_of_stopped (by simp [hl]) hw, by simp [LoopAt.passed],
      nofun⟩, nofun, fun _ => h.waits (.inl hl)⟩
  case parked woken =>
    simp only [Runner.advance, hl]
    cases woken
    case true  => exact h.goAway (by simp [hl]) rfl
    case false => exact h
  case workspace =>
    have hw : ¬r.wasStopped := h.stopped_of_passed (by simp [hl, LoopAt.passed])
    simp only [Runner.advance, hl]
    split <;> exact ⟨h.inTime, fun h => absurd h hw, nofun, by simp⟩
  case starting stepping =>
    have hw : ¬r.wasStopped := h.stopped_of_passed (by simp [hl, LoopAt.passed])
    simp only [Runner.advance, hl]
    exact ⟨by simpa [hw] using h.inTime, fun h => absurd h hw, nofun, by simp⟩
  case inCycle stepping =>
    simp only [Runner.advance, hl]
    exact h.endCycle (by simp [hl])
  case pausing =>
    have hw : ¬r.wasStopped := hc hl
    simp only [Runner.advance, hl]
    exact ⟨h.inTime, fun h => absurd h hw, nofun, by simp⟩
  case sleeping =>
    simp only [Runner.advance, hl]
    exact h.goAway (by simp [hl]) rfl
  case returned =>
    simp only [Runner.advance, hl]
    exact h

theorem Orderly.handle (h : Orderly r) (hc : Harmless r c) : Orderly (r.handle c) := by
  cases c
  case resume     => exact h.resume hc
  case pause      => exact h.pause hc
  case step       => exact h.requestStep hc
  case stop       => exact h.stop hc
  case advance io => exact h.advance hc

-- No cycle starts after a stop, and the loop does not sleep over a command, in every run of harmless
-- steps.
theorem not_startedAfter_and_not_lost (hm : Run.Meets handle Harmless {} cs) :
    ¬(cs.foldl handle {}).startedAfter ∧ ¬(cs.foldl handle {}).Lost := by
  have h : Orderly (cs.foldl handle {}) := Run.inv (fun _ _ hc h => h.handle hc) hm orderly_init
  exact ⟨h.inTime, h.not_lost⟩

-- A runner that is resumed, runs two cycles and is stopped in the third.
def stoppedInCycle : List RunnerCall :=
  List.replicate 3 (.advance {}) ++ .resume :: List.replicate 14 (.advance {}) ++
    .stop :: List.replicate 3 (.advance {})

theorem not_startedAfter_and_not_lost_stoppedInCycle :
    ¬(stoppedInCycle.foldl handle {}).startedAfter ∧ ¬(stoppedInCycle.foldl handle {}).Lost :=
  not_startedAfter_and_not_lost (by decide)

-- A cycle that ran a step pauses over the stop, and the next resume starts a cycle. A resume between
-- the check of the mode and the registration leaves the loop parked.
theorem startedAfter_and_lost :
    ([.step, .advance {}, .advance {}, .advance {}, .stop, .advance {}, .advance {}, .resume,
      .advance {}, .advance {}, .advance {}].foldl handle ({} : Runner)).startedAfter ∧
    ([.advance {}, .resume, .advance {}, .advance {}].foldl handle ({} : Runner)).Lost := by
  decide

end Runner
