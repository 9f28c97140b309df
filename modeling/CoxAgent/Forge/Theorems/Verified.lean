import CoxAgent.Forge.Review
import CoxAgent.Forge.Theorems.Expiry

def ForgeCall.verifies (n : Nat) : ForgeCall → Bool
  | .verifyMergedResult k _ => k = n
  | _                       => false

-- How the merged result of a pull request has been verified.
def verifications (n : Nat) (o : ForgeRun) : List ForgeCall :=
  o.actions.filter (·.verifies n)

section Frame

variable {config : GitConfig} {edits : Nat → EditIo} {prs : List PullRequest} {merged : List (Nat × String)}
variable {pr : PullRequest} {io : ReviewIo} {hio : HoldIo} {tid headSha diff : String} {n : Nat}
variable {o : ForgeRun}

theorem mem_verifications :
    verifications n o ≠ [] ↔ ∃ answer, .verifyMergedResult n answer ∈ o.actions := by
  rw [ne_eq, verifications, List.filter_eq_nil_iff]
  push Not
  constructor
  case mp =>
    rintro ⟨c, hc, hv⟩
    cases c <;> simp only [ForgeCall.verifies, Bool.false_eq_true, decide_eq_true_eq] at hv
    case verifyMergedResult answer =>
      subst hv
      exact ⟨answer, hc⟩
  case mpr =>
    rintro ⟨answer, hc⟩
    exact ⟨_, hc, by simp [ForgeCall.verifies]⟩

@[simp]
theorem verifications_act {c : ForgeCall} :
    verifications n (o.act c) = verifications n o ++ if c.verifies n then [c] else [] := by
  simp [verifications, List.filter_singleton]

@[simp]
theorem verifications_save {f : EditIo → ProjectState → ProjectState} :
    verifications n (o.save edits f) = verifications n o :=
  rfl

@[simp]
theorem verifications_log {action : String} : verifications n (o.log edits action) = verifications n o :=
  rfl

@[simp]
theorem verifications_closePr {answer : Except PortError Unit} {note why action : String} :
    verifications n (o.closePr edits pr answer note why action) = verifications n o := by
  unfold PortRun.closePr PortRun.announcePrClose
  cases answer <;> simp [ForgeCall.verifies]

@[simp]
theorem verifications_holdBack {reason action : String} :
    verifications n (holdBack edits pr headSha reason action o) = verifications n o := by
  simp [holdBack, ForgeCall.verifies]

@[simp]
theorem verifications_openHoldRound {loads landable : Bool} {reason : String} :
    verifications n (openHoldRound config edits pr loads reason headSha landable o).1 =
      verifications n o := by
  unfold openHoldRound
  dsimp only
  split <;> simp [ForgeCall.verifies]

theorem verifications_andThen {p : ReviewPhase} {f : ForgeRun → ReviewPhase}
    (hf : ∀ o, verifications n (f o).1 = verifications n o) :
    verifications n (p.andThen f).1 = verifications n p.1 := by
  unfold ReviewPhase.andThen
  split
  case isTrue  => exact hf _
  case isFalse => rfl

@[simp]
theorem verifications_reviewElsewhere :
    verifications n (reviewElsewhere config edits merged pr hio tid headSha o).1 = verifications n o := by
  unfold reviewElsewhere
  dsimp only
  split
  case isTrue  => rfl
  case isFalse =>
    split
    case isTrue  => simp [ForgeCall.verifies]
    case isFalse =>
      split
      case h_1 => simp [ForgeCall.verifies]
      case h_2 => split <;> simp [ForgeCall.verifies]
      case h_3 => simp [ForgeCall.verifies]

@[simp]
theorem verifications_landSettled :
    verifications n (landSettled edits pr hio tid o).1 = verifications n o := by
  unfold landSettled
  dsimp only
  split
  case isTrue  => rfl
  case isFalse =>
    split
    case isTrue  => simp [ForgeCall.verifies]
    case isFalse => split <;> simp [ForgeCall.verifies]

@[simp]
theorem verifications_holdSettled :
    verifications n (holdSettled config edits pr hio tid headSha o).1 = verifications n o := by
  unfold holdSettled
  dsimp only
  split <;> simp

@[simp]
theorem verifications_reviewSettled :
    verifications n (reviewSettled config edits pr hio tid headSha o).1 = verifications n o := by
  unfold reviewSettled
  split
  case h_1 => rfl
  case h_2 =>
    dsimp only
    split
    case isTrue  => simp [ForgeCall.verifies]
    case isFalse => simp [verifications_andThen, ForgeCall.verifies]

@[simp]
theorem verifications_reviewHolds :
    verifications n (reviewHolds config edits merged pr hio headSha o).1 = verifications n o := by
  unfold reviewHolds
  split
  case h_1 => rfl
  case h_2 => simp [verifications_andThen]

@[simp]
theorem verifications_reviewScratch :
    verifications n (reviewScratch edits io pr o).1 = verifications n o := by
  unfold reviewScratch
  dsimp only
  split <;> simp [ForgeCall.verifies]

@[simp]
theorem verifications_reviewClaim : verifications n (reviewClaim io pr headSha o).1 = verifications n o := by
  unfold reviewClaim
  split
  case isTrue  => rfl
  case isFalse => split <;> simp [ForgeCall.verifies]

@[simp]
theorem verifications_reviewGate :
    verifications n (reviewGate config edits pr headSha o).1 = verifications n o := by
  unfold reviewGate
  split
  case isTrue  => rfl
  case isFalse =>
    dsimp only
    split <;> simp

@[simp]
theorem verifications_closeDuplicate {winner loser : Nat} :
    verifications n (closeDuplicate edits io pr winner loser o).1 = verifications n o := by
  unfold closeDuplicate
  dsimp only
  cases io.closeCompeting <;> split <;> simp [ForgeCall.verifies]

@[simp]
theorem verifications_reviewCompeting :
    verifications n (reviewCompeting config edits prs io pr headSha diff o).1 = verifications n o := by
  unfold reviewCompeting
  split
  case h_1 => rfl
  case h_2 =>
    dsimp only
    split
    case h_1 => simp [ForgeCall.verifies]
    case h_2 =>
      split
      case h_1 winner _ _ =>
        generalize (if winner = pr.number then _ else _ : Bool) = ready
        cases ready <;> simp [ForgeCall.verifies]
      case h_2 => split <;> simp [ForgeCall.verifies]
      case h_3 => simp [ForgeCall.verifies]

@[simp]
theorem verifications_clearSkips : verifications n (clearSkips edits pr o) = verifications n o :=
  rfl

theorem verifications_landOverdue {age : Nat} (hn : pr.number ≠ n) :
    verifications n (landOverdue config edits io pr diff age o) = verifications n o := by
  unfold landOverdue verifyPr
  split
  case h_1 => simp
  case h_2 =>
    dsimp only
    cases verifyMergedResult io.verify pr.head config.flowBase with
    | error why => simp [ForgeCall.verifies, hn]
    | ok _      => cases io.merge <;> simp [ForgeCall.verifies, hn]

theorem verifications_reviewDeadline (hn : pr.number ≠ n) :
    verifications n (reviewDeadline config edits io pr diff o).1 = verifications n o := by
  unfold reviewDeadline
  dsimp only
  split
  case isFalse => rfl
  case isTrue  =>
    split
    case h_1 => rfl
    case h_2 =>
      split
      case isTrue  => simp [verifications_landOverdue hn]
      case isFalse => rfl

theorem verifications_landApproved (hn : pr.number ≠ n) :
    verifications n (landApproved config edits io pr headSha diff o) = verifications n o := by
  unfold landApproved verifyPr
  split
  case h_1 => simp [ForgeCall.verifies]
  case h_2 =>
    dsimp only
    cases verifyMergedResult io.verify pr.head config.flowBase with
    | error why => simp [ForgeCall.verifies, hn]
    | ok _      => cases io.merge <;> simp [ForgeCall.verifies, hn]

theorem verifications_reviewSkipped :
    verifications n (reviewSkipped config edits io pr headSha o) = verifications n o := by
  unfold reviewSkipped
  split
  case isTrue  => rfl
  case isFalse =>
    dsimp only
    generalize hs : PortRun.save edits o _ = o₁
    have h₁ : verifications n o₁ = verifications n o := hs ▸ verifications_save
    generalize (if io.skipsLoad then _ else _ : Nat) = skips
    split <;> simp [h₁, ForgeCall.verifies]

theorem verifications_reviewVerdict (hn : pr.number ≠ n) :
    verifications n (reviewVerdict config edits io pr headSha diff o) = verifications n o := by
  unfold reviewVerdict
  split
  case h_1 =>
    dsimp only
    split <;> simp [verifications_landApproved hn, ForgeCall.verifies]
  case h_2 => simp
  case h_3 => exact verifications_reviewSkipped

theorem verifications_reviewDiff (hn : pr.number ≠ n) :
    verifications n (reviewDiff config edits prs io pr headSha o) = verifications n o := by
  unfold reviewDiff
  dsimp only
  split
  case h_1 => simp [ForgeCall.verifies]
  case h_2 =>
    split
    case isTrue  => simp [ForgeCall.verifies]
    case isFalse =>
      split
      case isTrue  =>
        rw [verifications_reviewVerdict hn, verifications_andThen fun _ => verifications_reviewDeadline hn]
        simp [ForgeCall.verifies]
      case isFalse =>
        rw [verifications_andThen fun _ => verifications_reviewDeadline hn]
        simp [ForgeCall.verifies]

-- The review of another pull request does not verify this one.
theorem verifications_reviewPr (hn : pr.number ≠ n) :
    verifications n (reviewPr config edits prs io pr merged o) = verifications n o := by
  unfold reviewPr
  split
  case isTrue  => rfl
  case isFalse =>
    dsimp only
    split
    case isTrue  =>
      rw [verifications_reviewDiff hn]
      simp [verifications_andThen]
    case isFalse => simp [verifications_andThen]

end Frame
