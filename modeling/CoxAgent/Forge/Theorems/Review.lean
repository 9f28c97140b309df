import CoxAgent.Forge.Review
import CoxAgent.Lib.Run

-- The forge has closed the pull request or merged it.
def PrGone (past : List ForgeCall) (n : Nat) : Prop :=
  .closePr n (.ok ()) ∈ past ∨ .mergePr n (.ok ()) ∈ past

-- An edit leaves the tickets as they are, and the holds of what is still open.
structure Leaves (past : List ForgeCall) (s s' : ProjectState) : Prop where
  tickets : s'.tickets = s.tickets
  holds   : ∀ k, ¬PrGone past k → s'.prOpenHolds.get? k = s.prOpenHolds.get? k

-- What a review preserves, whatever the ports answer, is preserved by its calls and edits.
structure Closed (edits : Nat → EditIo) (I : ForgeRun → Prop) : Prop where
  call : ∀ {o c}, (∀ n r, c ≠ .mergePr n r) → I o → I (o.act c)
  save : ∀ {o f}, (∀ e s, Leaves o.actions s (f e s)) → I o → I (o.save edits f)

variable {config : GitConfig} {edits : Nat → EditIo} {prs : List PullRequest} {io : ReviewIo}
variable {pr : PullRequest} {headSha : String} {merged : List (Nat × String)} {I : ForgeRun → Prop}
variable {o : ForgeRun} {past : List ForgeCall} {s : ProjectState}

theorem Leaves.log {e : EditIo} {action : String} :
    Leaves past s (s.logActivity e.now "GIT" action none) :=
  ⟨rfl, fun _ _ => rfl⟩

-- The hold of a pull request that is gone may go.
theorem Leaves.remove {n : Nat} (h : PrGone past n) :
    Leaves past s { s with prOpenHolds := s.prOpenHolds.remove n } where
  tickets    := rfl
  holds k hk := by
    have hk : k ≠ n := by
      rintro rfl
      exact hk h
    simp [hk]

theorem Closed.log (h : Closed edits I) (ho : I o) {action : String} : I (o.log edits action) :=
  h.save (fun _ _ => Leaves.log) ho

theorem Closed.announcePrClose (h : Closed edits I) (ho : I o) {n : Nat} {title why : String}
    (hc : PrGone o.actions n) : I (o.announcePrClose edits n title why) := by
  unfold PortRun.announcePrClose
  refine h.call nofun (h.save (fun e s => ⟨?_, ?_⟩) ho)
  case refine_1 => rw [ProjectState.postChatIn]
  case refine_2 =>
    intro k hk
    rw [ProjectState.postChatIn]
    exact (Leaves.remove (s := s) hc).holds k hk

theorem Closed.closePr (h : Closed edits I) (ho : I o) {answer : Except PortError Unit}
    {note why action : String} : I (o.closePr edits pr answer note why action) := by
  unfold PortRun.closePr
  have hc (r) : I ((o.act (.commentPr pr.number note)).act (.closePr pr.number r)) :=
    h.call nofun (h.call nofun ho)
  cases answer
  case error => exact hc _
  case ok    => exact h.log (h.announcePrClose (hc _) (.inl (by simp)))

theorem Closed.heldBack (h : Closed edits I) (ho : I o) {reason action : String} :
    I (holdBack edits pr headSha reason action o) := by
  unfold holdBack
  exact h.log (h.call (by nofun) (h.call (by nofun) ho))

theorem Closed.skipsCleared (h : Closed edits I) (ho : I o) : I (clearSkips edits pr o) :=
  h.save (fun _ _ => ⟨rfl, fun _ _ => rfl⟩) ho

theorem Closed.scratch (h : Closed edits I) (ho : I o) : I (reviewScratch edits io pr o).1 := by
  unfold reviewScratch
  dsimp only
  have hd : I (o.act (.prDiff pr.number io.diffScratch)) := h.call nofun ho
  split
  case h_1 => exact hd
  case h_2 => exact h.closePr hd

theorem Closed.claim (h : Closed edits I) (ho : I o) : I (reviewClaim io pr headSha o).1 := by
  unfold reviewClaim
  split
  case isTrue  => exact ho
  case isFalse =>
    split
    case isTrue  => exact ho
    case isFalse => exact h.call nofun ho

theorem Closed.gate (h : Closed edits I) (ho : I o) : I (reviewGate config edits pr headSha o).1 := by
  unfold reviewGate
  split
  case isTrue  => exact ho
  case isFalse =>
    dsimp only
    split
    case h_1 => exact h.heldBack ho
    case h_2 => exact ho

-- What gets past the gate can be merged, and its CI does not speak against it.
theorem reviewGate_goesOn (h : (reviewGate config edits pr headSha o).2) :
    pr.mergeable ∧ (config.requireCi → pr.ci ≠ "failing" ∧ pr.ci ≠ "pending") := by
  unfold reviewGate at h
  split at h
  case isTrue      => contradiction
  case isFalse hpe =>
    dsimp only at h
    split at h
    case h_1     => contradiction
    case h_2 hbl =>
      split at hbl
      case isTrue      => contradiction
      case isFalse hfa =>
        split at hbl
        case isTrue     => contradiction
        case isFalse hm =>
          simp only [Bool.not_eq_true', Bool.not_eq_false] at hm
          exact ⟨hm, fun hr => by simp_all⟩

theorem Closed.duplicate (h : Closed edits I) (ho : I o) {winner loser : Nat} :
    I (closeDuplicate edits io pr winner loser o).1 := by
  unfold closeDuplicate
  dsimp only
  generalize hn : PortRun.act o _ = o₁
  have h₁ (r) : I (o₁.act (.closePr loser r)) := by
    rw [← hn]
    exact h.call nofun (h.call nofun ho)
  cases io.closeCompeting
  case error => split <;> exact h.log (h₁ _)
  case ok    =>
    have h₂ := h.save (f := fun _ s => { s with
      seenClosedPrs := s.seenClosedPrs.insert loser ()
      prOpenHolds   := s.prOpenHolds.remove loser
    }) (fun _ s => ⟨rfl, (Leaves.remove (s := s) (.inl (by simp))).holds⟩) (h₁ (.ok ()))
    split <;> exact h.log h₂

theorem Closed.competing (h : Closed edits I) (ho : I o) {diff : String} :
    I (reviewCompeting config edits prs io pr headSha diff o).1 := by
  unfold reviewCompeting
  split
  case h_1 => exact ho
  case h_2 other _ =>
    dsimp only
    have h₁ (d) : I (o.act (.prDiff other d)) := h.call nofun ho
    cases io.otherDiff
    case error => exact h.heldBack (h₁ _)
    case ok    =>
      dsimp only
      split
      case h_1 winner loser _ =>
        generalize (if winner = pr.number then _ else _ : Bool) = ready
        cases ready
        case true  => exact h.duplicate (h₁ _)
        case false => exact h.heldBack (h₁ _)
      case h_2 =>
        split
        case isTrue  => exact h.heldBack (h₁ _)
        case isFalse => exact h.log (h₁ _)
      case h_3 => exact h.heldBack (h₁ _)

-- What a merge after a review rests on.
structure Reviewed (config : GitConfig) (pr : PullRequest) (past : List ForgeCall) : Prop where
  autoMerge : config.autoMerge
  ci        : config.requireCi → pr.ci ≠ "failing" ∧ pr.ci ≠ "pending"
  diff      : ∃ d, .prDiff pr.number (.ok d) ∈ past ∧ ¬diffHasConflictMarkers d ∧
                needsHumanEyes d config.maxChangedLines = none
  verified  : .verifyMergedResult pr.number (.ok ()) ∈ past

-- The ticket of the pull request is merged elsewhere, and the hold on that has expired.
structure Expired (config : GitConfig) (merged : List (Nat × String)) (pr : PullRequest)
    (past : List ForgeCall) : Prop where
  elsewhere : ∃ tid ∈ merged.filterMap fun m => ticketIdIn m.2, ticketIdIn pr.title = some tid
  unmerged  : pr.number ∉ merged.map Prod.fst
  hold      : ∃ rounds, .holdRound pr.number (.land rounds) ∈ past ∧ config.holdMaxRounds ≤ rounds
  bounded   : 0 < config.holdMaxRounds

def Settled (pr : PullRequest) (s : ProjectState) : Prop :=
  ∃ tid, ticketIdIn pr.title = some tid ∧ (settledStatus tid s).isSome

-- The diff has been read, and has neither conflict markers nor scratch.
def SafeDiff (pr : PullRequest) (past : List ForgeCall) : Prop :=
  ∃ d, .prDiff pr.number (.ok d) ∈ past ∧ ¬diffHasConflictMarkers d ∧ commitsScratch d = none

-- What a merge rests on.
inductive MergeReason (config : GitConfig) (merged : List (Nat × String)) (pr : PullRequest)
    (s : ProjectState) (past : List ForgeCall) : Prop
  | reviewed (h : Reviewed config pr past)
  | expired (h : Expired config merged pr past) (hd : SafeDiff pr past)
  | settled (h : Settled pr s) (hd : SafeDiff pr past)

-- The merges are preserved as well.
def ClosedMerge (config : GitConfig) (merged : List (Nat × String)) (pr : PullRequest)
    (I : ForgeRun → Prop) : Prop :=
  ∀ o r, I o → pr.mergeable → MergeReason config merged pr o.state o.actions →
    I (o.act (.mergePr pr.number r))

section Land

variable {diff : String}

theorem personHold_none (h : personHold config io pr diff s = none) :
    needsHumanEyes diff config.maxChangedLines = none :=
  (Option.or_eq_none_iff.mp h).left

-- What holds once the diff of a pull request is judged.
structure Judged (config : GitConfig) (pr : PullRequest) (diff : String)
    (past : List ForgeCall) : Prop where
  mergeable : pr.mergeable
  ci        : config.requireCi → pr.ci ≠ "failing" ∧ pr.ci ≠ "pending"
  read      : .prDiff pr.number (.ok diff) ∈ past
  clean     : ¬diffHasConflictMarkers diff

theorem Judged.mono {past past' : List ForgeCall} (h : Judged config pr diff past)
    (hs : past ⊆ past') : Judged config pr diff past' :=
  ⟨h.mergeable, h.ci, hs h.read, h.clean⟩

-- A merge on a verified result, once nothing asks for a person.
theorem Closed.verifiedMerge (h : Closed edits I) (hm : ClosedMerge config merged pr I) (ho : I o)
    (hj : Judged config pr diff o.actions) (ha : config.autoMerge)
    (hn : personHold config io pr diff s = none) (r : Except PortError Unit) :
    I ((o.act (.verifyMergedResult pr.number (.ok ()))).act (.mergePr pr.number r)) := by
  have hv : I (o.act (.verifyMergedResult pr.number (.ok ()))) := h.call nofun ho
  refine hm _ r hv hj.mergeable (.reviewed ⟨ha, hj.ci, ⟨diff, ?_, hj.clean, personHold_none hn⟩, ?_⟩)
  · simp [hj.read]
  · simp

theorem Closed.overdue (h : Closed edits I) (hm : ClosedMerge config merged pr I) (ho : I o)
    (hj : Judged config pr diff o.actions) (ha : config.autoMerge) {age : Nat} :
    I (landOverdue config edits io pr diff age o) := by
  unfold landOverdue verifyPr
  split
  case h_1 => exact h.log ho
  case h_2 hn =>
    dsimp only
    have hv (r) : I (o.act (.verifyMergedResult pr.number r)) := h.call nofun ho
    cases verifyMergedResult io.verify pr.head config.flowBase with
    | error why => exact h.log (hv _)
    | ok _      =>
      dsimp only
      have hmd (r) := h.verifiedMerge hm ho hj ha hn r
      cases io.merge with
      | error e => exact h.log (hmd _)
      | ok _    =>
        refine h.save (fun _ s => Leaves.remove (.inr ?_)) (h.call (by nofun) (h.log (hmd _)))
        simp [PortRun.log, PortRun.logGit]

theorem Closed.deadline (h : Closed edits I) (hm : ClosedMerge config merged pr I) (ho : I o)
    (hj : Judged config pr diff o.actions) : I (reviewDeadline config edits io pr diff o).1 := by
  unfold reviewDeadline
  dsimp only
  split
  case isFalse   => exact ho
  case isTrue hd =>
    simp only [Bool.and_eq_true] at hd
    cases io.prAge with
    | none     => exact ho
    | some age =>
      dsimp only
      split
      case isTrue  => exact h.skipsCleared (h.overdue hm ho hj hd.left.left.left)
      case isFalse => exact ho

theorem Closed.approved (h : Closed edits I) (hm : ClosedMerge config merged pr I) (ho : I o)
    (hj : Judged config pr diff o.actions) (ha : config.autoMerge) :
    I (landApproved config edits io pr headSha diff o) := by
  unfold landApproved verifyPr
  split
  case h_1 => exact h.log (h.call (by nofun) (h.call (by nofun) (h.call (by nofun) ho)))
  case h_2 hn =>
    dsimp only
    have hv (r) : I (o.act (.verifyMergedResult pr.number r)) := h.call nofun ho
    cases verifyMergedResult io.verify pr.head config.flowBase with
    | error why => exact h.heldBack (hv _)
    | ok _      =>
      dsimp only
      have hmd (r) := h.verifiedMerge hm ho hj ha hn r
      cases io.merge with
      | error e => exact h.log (hmd _)
      | ok _    => exact h.log (h.save (fun _ s => Leaves.remove (.inr (by simp))) (hmd _))

theorem Closed.skipped (h : Closed edits I) (ho : I o) :
    I (reviewSkipped config edits io pr headSha o) := by
  unfold reviewSkipped
  split
  case isTrue  => exact ho
  case isFalse =>
    dsimp only
    generalize hs : PortRun.save edits o _ = o₁
    have h₁ : I o₁ := by
      rw [← hs]
      exact h.save (fun _ _ => ⟨rfl, fun _ _ => rfl⟩) ho
    generalize (if io.skipsLoad then _ else _ : Nat) = skips
    split
    case isTrue  => exact h.call (by nofun) (h.log (h.call (by nofun) (h.call (by nofun) h₁)))
    case isFalse => exact h.log h₁

theorem Closed.verdict (h : Closed edits I) (hm : ClosedMerge config merged pr I) (ho : I o)
    (hj : Judged config pr diff o.actions) : I (reviewVerdict config edits io pr headSha diff o) := by
  unfold reviewVerdict
  split
  case h_1 summary _ =>
    dsimp only
    have h₁ : I ((clearSkips edits pr o).act (.reportReview pr.number "approve" summary headSha)) :=
      h.call nofun (h.skipsCleared ho)
    split
    case isTrue ha => exact h.approved hm h₁ (hj.mono (by simp [clearSkips, PortRun.save])) ha
    case isFalse   => exact h.log h₁
  case h_2 => exact h.heldBack (h.skipsCleared ho)
  case h_3 => exact h.skipped ho

end Land

theorem Closed.and_mem (h : Closed edits I) {a : ForgeCall} :
    Closed edits fun o => I o ∧ a ∈ o.actions where
  call hc ho := ⟨h.call hc ho.left, by simp [ho.right]⟩
  save hf ho := ⟨h.save hf ho.left, ho.right⟩

theorem ClosedMerge.and_mem (h : ClosedMerge config merged pr I) {a : ForgeCall} :
    ClosedMerge config merged pr fun o => I o ∧ a ∈ o.actions :=
  fun o r ho hp hr => ⟨h o r ho.left hp hr, by simp [ho.right]⟩

theorem ReviewPhase.andThen_of {p : ReviewPhase} {f : ForgeRun → ReviewPhase} (h : I p.1)
    (hf : p.2 → I (f p.1).1) : I (p.andThen f).1 := by
  unfold ReviewPhase.andThen
  split
  case isTrue hp => exact hf hp
  case isFalse   => exact h

theorem Closed.diff (h : Closed edits I) (hm : ClosedMerge config merged pr I) (ho : I o)
    (hp : pr.mergeable) (hci : config.requireCi → pr.ci ≠ "failing" ∧ pr.ci ≠ "pending") :
    I (reviewDiff config edits prs io pr headSha o) := by
  unfold reviewDiff
  dsimp only
  have h₁ (d) : I (o.act (.prDiff pr.number d)) := h.call nofun ho
  cases io.diff with
  | error e => exact h₁ _
  | ok diff =>
    dsimp only
    split
    case isTrue     => exact h.heldBack (h₁ _)
    case isFalse hc =>
      have hJ {o} (ho : I o ∧ .prDiff pr.number (.ok diff) ∈ o.actions) : Judged config pr diff o.actions :=
        ⟨hp, hci, ho.right, hc⟩
      -- The diff has been read for good.
      have h' := h.and_mem (a := .prDiff pr.number (.ok diff))
      have hm' := hm.and_mem (a := .prDiff pr.number (.ok diff))
      generalize hq : reviewCompeting config edits prs io pr headSha diff _ = q
      have h₂ : I q.1 ∧ .prDiff pr.number (.ok diff) ∈ q.1.actions := by
        rw [← hq]
        exact h'.competing ⟨h₁ _, by simp⟩
      unfold ReviewPhase.andThen
      cases hg : q.2
      case false => simpa only [hg, Bool.false_eq_true, if_false] using h₂.left
      case true  =>
        rw [if_pos rfl]
        have h₃ : I (reviewDeadline config edits io pr diff q.1).1 ∧
            .prDiff pr.number (.ok diff) ∈ (reviewDeadline config edits io pr diff q.1).1.actions :=
          h'.deadline hm' h₂ (hJ h₂)
        split
        case isTrue  => exact h.verdict hm h₃.left (hJ h₃)
        case isFalse => exact h₃.left

theorem ReviewPhase.andThen_snd {p : ReviewPhase} {f : ForgeRun → ReviewPhase} :
    (p.andThen f).2 ↔ p.2 ∧ (f p.1).2 := by
  unfold ReviewPhase.andThen
  cases h : p.2 <;> simp [h]

-- After the holds a review goes on as long as nothing ends it.
theorem Closed.afterHolds (h : Closed edits I) (hm : ClosedMerge config merged pr I)
    (ho : pr.base ≠ config.flowBase → I o)
    (hh : I (reviewHolds config edits merged pr io.toHoldIo (prHeadSha io.lsRemote) o).1) :
    I (reviewPr config edits prs io pr merged o) := by
  unfold reviewPr
  split
  case isTrue hb => exact ho hb
  case isFalse   =>
    dsimp only
    generalize reviewHolds config edits merged pr io.toHoldIo (prHeadSha io.lsRemote) o = p₀ at *
    generalize hp₁ : p₀.andThen (reviewScratch edits io pr) = p₁
    generalize hp₂ : p₁.andThen (reviewClaim io pr (prHeadSha io.lsRemote)) = p₂
    have h₁ : I p₁.1 := hp₁ ▸ ReviewPhase.andThen_of hh fun _ => h.scratch hh
    have h₂ : I p₂.1 := hp₂ ▸ ReviewPhase.andThen_of h₁ fun _ => h.claim h₁
    have h₃ : I (p₂.andThen (reviewGate config edits pr (prHeadSha io.lsRemote))).1 :=
      ReviewPhase.andThen_of h₂ fun _ => h.gate h₂
    split
    case isFalse   => exact h₃
    case isTrue hg =>
      have ⟨hp, hci⟩ := reviewGate_goesOn (ReviewPhase.andThen_snd.mp hg).right
      exact h.diff hm h₃ hp hci
