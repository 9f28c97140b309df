import CoxAgent.Cycle.QueueRecovery
import CoxAgent.Lib.Run
import CoxAgent.Lib.Streak

variable {maxOpenPrs opened : Nat} {vi : Bool} {io : QueueIo} {o : ForgeRun}

theorem lt_recoveryThreshold : maxOpenPrs < recoveryThreshold maxOpenPrs := by
  unfold recoveryThreshold
  omega

namespace PortRun

theorem queueRecovery_log {edits : Nat → EditIo} {action : String} :
    (o.log edits action).state.queueRecovery = o.state.queueRecovery := by
  unfold log logGit
  rw [state_edit]
  split <;> rfl

theorem queueRecovery_declareRecovered :
    (o.declareRecovered maxOpenPrs vi io opened).state.queueRecovery =
      (o.state.queueRecovery && (io.edits o.edits).fails) := by
  unfold declareRecovered save
  simp only [state_edit]
  cases hf : (io.edits o.edits).fails <;> cases hq : o.state.queueRecovery <;>
    simp [hq, ProjectState.postChatIn]

theorem queueRecovery_enterRecovery :
    (o.enterRecovery maxOpenPrs vi io opened).state.queueRecovery =
      (o.state.queueRecovery || !(io.edits o.edits).fails) := by
  unfold enterRecovery save
  simp only [state_edit]
  cases hf : (io.edits o.edits).fails <;> cases hq : o.state.queueRecovery <;>
    simp [hq, ProjectState.postChatIn, ProjectState.postComment]

-- The rest of a call in recovery leaves the mode alone.
theorem queueRecovery_postDrainStatus :
    (o.postDrainStatus vi io opened).state.queueRecovery = o.state.queueRecovery := by
  unfold postDrainStatus save
  cases (if io.forge then io.prsStatus.toOption else none)
  case none => rfl
  case some =>
    simp only [state_edit]
    cases (io.edits o.edits).fails <;> cases hq : o.state.queueRecovery <;>
      simp [hq, ProjectState.postChatIn]

theorem queueRecovery_closeResolver {at' : PullRequest × Nat} :
    (o.closeResolver io at').state.queueRecovery = o.state.queueRecovery := by
  unfold closeResolver
  dsimp only
  cases io.close at'.2
  case error => rfl
  case ok    =>
    simp only [queueRecovery_log, save, state_edit]
    split <;> rfl

theorem queueRecovery_closeResolvers :
    (o.closeResolvers io).state.queueRecovery = o.state.queueRecovery := by
  unfold closeResolvers
  cases (if io.forge then io.prsClose.toOption else none)
  case none     => rfl
  case some prs =>
    dsimp only
    generalize (prs.filter _).zipIdx = queue
    induction queue generalizing o
    case nil               => rfl
    case cons at' queue hi => rw [List.foldl_cons, hi, queueRecovery_closeResolver]

end PortRun

-- The mode that the announcements of recovery promise: on from the threshold until the limit is reached.
def queueLatch (maxOpenPrs : Nat) : Latch QueueCall where
  set   := (·.enters maxOpenPrs)
  reset := (·.leaves maxOpenPrs)

namespace QueueCall

variable {call : QueueCall} {s : ProjectState}

-- The call answers what the mode says, and stores it.
def Conforms (maxOpenPrs : Nat) (vi : Bool) (s : ProjectState) (call : QueueCall) : Prop :=
  (call.run maxOpenPrs vi s).2 = (queueLatch maxOpenPrs).next s.queueRecovery call ∧
    (call.step maxOpenPrs vi s).queueRecovery = (queueLatch maxOpenPrs).next s.queueRecovery call

-- A count in between, or none at all, comes outside of recovery only, and the store takes a change of the
-- mode.
def Clear (maxOpenPrs : Nat) (s : ProjectState) (call : QueueCall) : Prop :=
  if call.enters maxOpenPrs then
    s.queueRecovery ∨ !(call.io.edits 0).fails
  else if call.leaves maxOpenPrs then
    !s.queueRecovery ∨ !(call.io.edits 0).fails
  else
    !s.queueRecovery

instance : Decidable (call.Clear maxOpenPrs s) := by
  unfold Clear
  infer_instance

theorem conforms_iff : call.Conforms maxOpenPrs vi s ↔ call.Clear maxOpenPrs s := by
  have hl : maxOpenPrs < recoveryThreshold maxOpenPrs := lt_recoveryThreshold
  unfold Conforms Clear step run runQueueRecovery Latch.next queueLatch enters leaves
  cases ho : call.opened
  case none        => simp [ho, call.keeps]
  case some opened =>
    simp only [ho, Option.any_some, decide_eq_true_eq]
    by_cases ht : opened < recoveryThreshold maxOpenPrs
    case neg =>
      simp [ht, PortRun.queueRecovery_closeResolvers, PortRun.queueRecovery_postDrainStatus,
        PortRun.queueRecovery_enterRecovery, call.keeps, Nat.not_lt.mp ht]
    case pos =>
      have ht' : ¬recoveryThreshold maxOpenPrs ≤ opened := Nat.not_le.mpr ht
      by_cases hm : opened ≤ maxOpenPrs
      case pos =>
        cases hq : s.queueRecovery <;>
          simp [ht, ht', hm, PortRun.queueRecovery_declareRecovered, call.keeps, hq]
      case neg => simp [ht, ht', hm, call.keeps]

variable {calls : List QueueCall}

-- Over the calls recovery lasts from the first count at the threshold until the first at the limit: each
-- call answers so, and leaves the stored mode so.
def Hysteretic (maxOpenPrs : Nat) (vi : Bool) (s : ProjectState) (calls : List QueueCall) : Prop :=
  ∀ pre call post, calls = pre ++ call :: post →
    let s' := pre.foldl (step maxOpenPrs vi) s
    let on := (queueLatch maxOpenPrs).OnAfter s.queueRecovery (pre ++ [call])
    ((call.run maxOpenPrs vi s').2 ↔ on) ∧ ((call.step maxOpenPrs vi s').queueRecovery ↔ on)

theorem conforms_queueRecovery (h : Run.Meets (step maxOpenPrs vi) (Conforms maxOpenPrs vi) s calls) :
    (calls.foldl (step maxOpenPrs vi) s).queueRecovery =
      calls.foldl (queueLatch maxOpenPrs).next s.queueRecovery := by
  induction calls generalizing s
  case nil                => rfl
  case cons call calls hi => rw [List.foldl_cons, List.foldl_cons, hi h.right, h.left.right]

-- As long as the calls before it conform, a call conforms if it answers and stores what the run says.
theorem conforms_iff_onAfter (h : Run.Meets (step maxOpenPrs vi) (Conforms maxOpenPrs vi) s calls) :
    let s' := calls.foldl (step maxOpenPrs vi) s
    let on := (queueLatch maxOpenPrs).OnAfter s.queueRecovery (calls ++ [call])
    ((call.run maxOpenPrs vi s').2 ↔ on) ∧ ((call.step maxOpenPrs vi s').queueRecovery ↔ on) ↔
      call.Conforms maxOpenPrs vi s' := by
  intro s' on
  have hon : on ↔ (queueLatch maxOpenPrs).next s'.queueRecovery call := by
    rw [conforms_queueRecovery h]
    exact Latch.foldl_next.symm.trans (by rw [List.foldl_concat])
  rw [hon, ← Bool.eq_iff_iff, ← Bool.eq_iff_iff]
  rfl

theorem meets_conforms_iff :
    Run.Meets (step maxOpenPrs vi) (Conforms maxOpenPrs vi) s calls ↔
      Hysteretic maxOpenPrs vi s calls := by
  rw [Run.meets_iff_forall]
  constructor
  case mp =>
    rintro h pre call post rfl
    refine (conforms_iff_onAfter (Run.meets_iff_forall.mpr ?_)).mpr (h pre call post rfl)
    rintro pre' call' post' rfl
    exact h pre' call' (post' ++ call :: post) (by simp)
  case mpr =>
    intro h pre
    induction hn : pre.length using Nat.strong_induction_on generalizing pre
    case h n hi =>
      rintro call post rfl
      refine (conforms_iff_onAfter (Run.meets_iff_forall.mpr ?_)).mp (h pre call post rfl)
      rintro pre' call' post' rfl
      exact hi pre'.length (by simp [← hn]) pre' rfl call' (post' ++ call :: post) (by simp)

-- Recovery is hysteretic over those calls of which none in recovery sees a count between the limit and the
-- threshold, or no count, and none enters or leaves it without the store.
theorem hysteretic_iff :
    Hysteretic maxOpenPrs vi s calls ↔
      Run.Meets (step maxOpenPrs vi) (fun s call => call.Clear maxOpenPrs s) s calls := by
  rw [← meets_conforms_iff]
  simp only [Run.meets_iff_forall, conforms_iff]

-- Ten open pull requests at a limit of five enter recovery. The call that sees seven of them does normal
-- work, with the mode still stored.
theorem hysteretic_lost :
    ¬Hysteretic 5 false {} [{ opened := some 10, io := {} }, { opened := some 7, io := {} }] := by
  rw [← meets_conforms_iff]
  rintro ⟨-, h, -⟩
  rw [conforms_iff] at h
  revert h
  decide

end QueueCall
