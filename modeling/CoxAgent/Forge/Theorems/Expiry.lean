import CoxAgent.Forge.Theorems.Authority
import CoxAgent.Lib.Run

section Rounds

variable {prior : Option PrOpenHold} {reason headSha h : String} {landable : Bool} {maxRounds : Nat}
variable {pr : PullRequest} {e : EditIo} {s : ProjectState} {rounds : Nat}

-- How many rounds the hold has for the reason and the head.
def chain (reason h : String) (prior : Option PrOpenHold) : Nat :=
  (prior.filter fun p => p.reason = reason ∧ p.headSha = h).elim 0 (·.rounds)

theorem chain_some {p : PrOpenHold} :
    chain reason h (some p) = if p.reason = reason ∧ p.headSha = h then p.rounds else 0 := by
  unfold chain
  simp only [Option.filter_some, decide_eq_true_eq]
  split <;> rfl

-- A decision that ends the hold.
inductive HoldExpiry.Ends : HoldExpiry → Prop
  | land (rounds : Nat)  : Ends (.land rounds)
  | close (rounds : Nat) : Ends (.close rounds)

variable (prior reason landable) in
-- A round with the head adds one, as long as the bound allows, or it is the last.
theorem openHoldExpiry_readable (hh : h ≠ "") (hm : 0 < maxRounds) (hu : maxRounds ≤ u32Max) :
    (openHoldExpiry prior reason h landable maxRounds).Ends ∨
      openHoldExpiry prior reason h landable maxRounds = .keep (chain reason h prior + 1) ∧
        chain reason h prior + 1 < max maxRounds 2 := by
  unfold openHoldExpiry
  rw [if_neg (by omega)]
  cases prior with
  | none   => exact .inr ⟨rfl, by simp [chain]⟩
  | some p =>
    rw [chain_some]
    dsimp only
    by_cases hr : p.reason = reason
    case neg => simp [hr]
    case pos =>
      by_cases hp : p.headSha = h
      case neg => simp [hr, hh, hp]
      case pos =>
        have hle : min (p.rounds + 1) u32Max < maxRounds → min (p.rounds + 1) u32Max = p.rounds + 1 := by
          omega
        simp only [hr, hh, hp, ne_eq, not_true_eq_false, if_false, and_self, if_true]
        split
        case isTrue hlt => exact .inr ⟨by rw [hle hlt], by have := hle hlt; omega⟩
        case isFalse    =>
          refine .inl ?_
          split
          case isTrue  => exact .land _
          case isFalse => exact .close _

variable (prior reason h landable) in
-- A round without a head is kept, and loses nothing.
theorem openHoldExpiry_unreadable (hm : 0 < maxRounds) :
    ∃ rounds, openHoldExpiry prior reason "" landable maxRounds = .keep rounds ∧
      chain reason h prior ≤ rounds := by
  unfold openHoldExpiry
  rw [if_neg (by omega)]
  cases prior with
  | none   => exact ⟨1, rfl, by simp [chain]⟩
  | some p =>
    rw [chain_some]
    dsimp only
    by_cases hr : p.reason = reason
    case neg => exact ⟨1, by simp [hr], by simp [hr]⟩
    case pos =>
      refine ⟨max p.rounds 1, by simp [hr], ?_⟩
      split <;> omega

-- A round with the head that is kept is remembered with its count.
theorem chain_recordRound_readable (hh : h ≠ "") :
    chain reason h ((recordRound pr prior reason h (.keep rounds) e s).prOpenHolds.get? pr.number) =
      rounds := by
  simp only [recordRound, BTreeMap.get?_insert, if_true]
  rw [chain_some, if_neg hh, if_pos ⟨rfl, rfl⟩]

-- A round without a head that is kept leaves the head of the hold.
theorem chain_recordRound_unreadable (hc : chain reason h prior ≤ rounds) :
    chain reason h prior ≤
      chain reason h ((recordRound pr prior reason "" (.keep rounds) e s).prOpenHolds.get? pr.number) := by
  simp only [recordRound, BTreeMap.get?_insert, if_true]
  cases prior with
  | none   => simp [chain]
  | some p =>
    rw [chain_some] at hc ⊢
    split
    case isFalse   => omega
    case isTrue hp =>
      have hk : continuedHold (some p) reason "" = some p := by simp [continuedHold, hp.left]
      simpa [hk, chain_some, hp] using hc

end Rounds

-- The hold has come to its decision.
def Decided (past : List ForgeCall) (n : Nat) : Prop :=
  ∃ decision, decision.Ends ∧ .holdRound n decision ∈ past

-- As long as the pull request is open and its hold goes on, the board and the hold satisfy `Q`.
def StillOpen (n : Nat) (Q : List Ticket → Option PrOpenHold → Prop) (o : ForgeRun) : Prop :=
  (Decided o.actions n ∨ PrGone o.actions n) ∨ Q o.state.tickets (o.state.prOpenHolds.get? n)

section StillOpen

variable {config : GitConfig} {edits : Nat → EditIo} {merged : List (Nat × String)} {pr : PullRequest}
variable {n k : Nat} {Q Q' : List Ticket → Option PrOpenHold → Prop} {o : ForgeRun} {c : ForgeCall}
variable {past : List ForgeCall}

theorem over_mono {past past' : List ForgeCall} (h : Decided past n ∨ PrGone past n) (hs : past ⊆ past') :
    Decided past' n ∨ PrGone past' n := by
  refine h.imp ?_ ?_
  case refine_1 =>
    rintro ⟨d, hd, hm⟩
    exact ⟨d, hd, hs hm⟩
  case refine_2 => exact fun hg => hg.imp (hs ·) (hs ·)

theorem StillOpen.mono (h : StillOpen n Q o) (hq : ∀ {t w}, Q t w → Q' t w) : StillOpen n Q' o :=
  h.imp_right hq

theorem StillOpen.act (h : StillOpen n Q o) : StillOpen n Q (o.act c) :=
  h.imp_left fun h => over_mono h (by simp)

theorem StillOpen.save {f : EditIo → ProjectState → ProjectState} (h : StillOpen n Q o)
    (hf : ∀ e s, ¬PrGone o.actions n → (f e s).tickets = s.tickets ∧
      ((f e s).prOpenHolds.get? n = s.prOpenHolds.get? n ∨ ∀ {t w w'}, Q t w → Q t w')) :
    StillOpen n Q (o.save edits f) := by
  by_cases hg : PrGone o.actions n
  case pos => exact .inl (.inr hg)
  case neg =>
    refine h.imp_right fun hq => ?_
    unfold PortRun.save
    rw [PortRun.state_edit]
    split
    case isTrue  => exact hq
    case isFalse =>
      have ⟨ht, hs⟩ := hf (edits o.edits) o.state hg
      rw [ht]
      exact hs.elim (fun hs => hs ▸ hq) fun hall => hall hq

theorem stillOpen_closed : Closed edits (StillOpen n Q) where
  call _ ho  := ho.act
  save hf ho := ho.save fun e s hg => ⟨(hf e s).tickets, .inl ((hf e s).holds n hg)⟩

theorem stillOpen_closedSlot (hk : n ≠ k) : ClosedSlot edits k (StillOpen n Q) :=
  fun hf ho => ho.save fun e s _ => ⟨(hf e s).left, .inl ((hf e s).right n hk)⟩

-- Nothing undoes the end of a hold.
theorem over_closedSlot : ClosedSlot edits k (StillOpen n fun _ _ => False) :=
  fun hf ho => ho.save fun e s _ => ⟨(hf e s).left, .inr (·.elim)⟩

theorem stillOpen_closedMerge : ClosedMerge config merged pr (StillOpen n Q) :=
  fun _ _ ho _ _ => ho.act

end StillOpen

-- The two holds that keep a pull request open.
inductive HoldKind
  | elsewhere
  | settled
deriving DecidableEq

def HoldKind.reason (tid : String) : HoldKind → String
  | .elsewhere => s!"{tid} merged elsewhere but this diff is NOT on main"
  | .settled   => s!"{tid} is settled but the diff is NOT on main"

section Situation

variable (config : GitConfig) (merged : List (Nat × String)) (s : ProjectState) (pr : PullRequest)
variable (tid : String) (io : HoldIo)

def mergedElsewhere : Bool :=
  (merged.filterMap fun m => ticketIdIn m.2).contains tid && !merged.any (·.1 = pr.number)

-- Another pull request for the ticket is merged, and the diff is not on the main branch.
def elsewhereHolds : Bool :=
  mergedElsewhere merged pr tid && !io.diffElsewhere.toOption.any (diffLandedOnMain · io.onMainElsewhere)

-- The ticket is settled, the diff is not on the main branch, and it is not landed at once.
def settledHolds : Bool :=
  io.settledLoads && (settledStatus tid s).isSome &&
    !io.diffSettled.toOption.any (diffLandedOnMain · io.onMainSettled) &&
    !(pr.mergeable && safeToLand io.diffLand && io.mergeSettled.isOk)

-- The hold keeps the pull request open, and it is not closed for being on the main branch.
def HoldKind.Keeps : HoldKind → Prop
  | .elsewhere => elsewhereHolds merged pr tid io
  | .settled   => settledHolds s pr tid io ∧
      (mergedElsewhere merged pr tid → elsewhereHolds merged pr tid io)

end Situation

section Pass

variable {config : GitConfig} {edits : Nat → EditIo} {merged : List (Nat × String)} {pr : PullRequest}
variable {o : ForgeRun} {tid reason headSha h : String} {io : HoldIo} {s : ProjectState} {loads : Bool}
variable {landable : Bool} {v w : Option PrOpenHold} {kind : HoldKind}

-- A round with the head brings the hold one nearer to its bound, and any other leaves it where it is.
def Advances (config : GitConfig) (reason h headSha : String) (v w : Option PrOpenHold) : Prop :=
  if headSha = "" then
    chain reason h v ≤ chain reason h w
  else
    chain reason h w = chain reason h v + 1 ∧ chain reason h w < max config.holdMaxRounds 2

-- What a pass makes of the hold of a pull request that is still open.
def Round (config : GitConfig) (reason h headSha : String) (s : ProjectState) (v : Option PrOpenHold)
    (t : List Ticket) (w : Option PrOpenHold) : Prop :=
  t = s.tickets ∧ Advances config reason h headSha v w

theorem openHoldRound_keep {rounds : Nat} (hm : 0 < config.holdMaxRounds)
    (hf : ∀ k, ¬(edits k).fails)
    (hk : openHoldExpiry (priorHold config pr loads o.state) reason headSha landable
      config.holdMaxRounds = .keep rounds) :
    ∃ e, (openHoldRound config edits pr loads reason headSha landable o).1.state =
      recordRound pr (priorHold config pr loads o.state) reason headSha (.keep rounds) e o.state := by
  unfold openHoldRound
  dsimp only
  rw [if_neg (by omega), hk]
  unfold PortRun.save
  rw [PortRun.state_edit, if_neg (hf _)]
  exact ⟨_, rfl⟩

-- A round ends the hold, or the hold advances.
theorem openHoldRound_round (hm : 0 < config.holdMaxRounds) (hu : config.holdMaxRounds ≤ u32Max)
    (hh : h ≠ "") (hs : headSha = h ∨ headSha = "") (hl : loads) (hf : ∀ k, ¬(edits k).fails)
    (ht : o.state.tickets = s.tickets) (hv : o.state.prOpenHolds.get? pr.number = v) :
    StillOpen pr.number (Round config reason h headSha s v)
      (openHoldRound config edits pr loads reason headSha landable o).1 := by
  have hp : priorHold config pr loads o.state = v := by
    unfold priorHold
    rw [if_neg (by simp [hl]; omega), hv]
  obtain rfl | rfl := hs
  case inl =>
    cases openHoldExpiry_readable v reason landable hh hm hu
    case inl he =>
      refine .inl (.inl ⟨_, he, ?_⟩)
      rw [openHoldRound_actions, openHoldRound_snd, hp]
      simp
    case inr hk =>
      have ⟨e, hst⟩ := openHoldRound_keep hm hf (hp ▸ hk.left)
      refine .inr ⟨by rw [hst, recordRound_leaves.left, ht], ?_⟩
      unfold Advances
      rw [hst, hp, if_neg hh, chain_recordRound_readable hh]
      exact ⟨rfl, hk.right⟩
  case inr =>
    have ⟨rounds, hk, hc⟩ := openHoldExpiry_unreadable v reason h landable hm
    have ⟨e, hst⟩ := openHoldRound_keep hm hf (hp ▸ hk)
    refine .inr ⟨by rw [hst, recordRound_leaves.left, ht], ?_⟩
    unfold Advances
    rw [hst, hp, if_pos rfl]
    exact chain_recordRound_unreadable hc

theorem Closed.elsewhere_holds {I : ForgeRun → Prop} (h : Closed edits I) (hm : ∀ o c, I o → I (o.act c))
    (he : elsewhereHolds merged pr tid io)
    (hr : ∀ landable, I (openHoldRound config edits pr io.holdLoads (HoldKind.elsewhere.reason tid)
      headSha landable (o.act (.prDiff pr.number io.diffElsewhere))).1) :
    I (reviewElsewhere config edits merged pr io tid headSha o).1 := by
  unfold elsewhereHolds mergedElsewhere at he
  rw [Bool.and_eq_true, Bool.not_eq_true'] at he
  unfold reviewElsewhere
  dsimp only
  rw [if_neg (by rw [he.left]; nofun), if_neg (by rw [he.right]; nofun)]
  generalize hl : io.diffElsewhere.toOption.any _ = landable
  have h₁ := hr landable
  unfold HoldKind.reason at h₁
  generalize openHoldRound config edits pr io.holdLoads _ headSha landable _ = r at h₁ ⊢
  cases r.2 with
  | keep rounds  => exact h.log h₁
  | close rounds => exact h.closePr h₁
  | land rounds  =>
    have h₂ (a) : I (r.1.act (.mergePr pr.number a)) := hm _ _ h₁
    cases io.mergeExpired with
    | error e => exact h₂ _
    | ok _    => exact h.log (h.call (by nofun) (h₂ _))

theorem reviewElsewhere_of_not (hm : ¬mergedElsewhere merged pr tid) :
    reviewElsewhere config edits merged pr io tid headSha o = (o, true) := by
  unfold mergedElsewhere at hm
  unfold reviewElsewhere
  dsimp only
  rw [if_pos (by rw [Bool.eq_false_of_not_eq_true hm]; rfl)]

theorem landSettled_snd : (landSettled edits pr io tid o).2 =
    !(pr.mergeable && safeToLand io.diffLand && io.mergeSettled.isOk) := by
  unfold landSettled
  split
  case isTrue hp  => simp_all
  case isFalse hp =>
    dsimp only
    split
    case isTrue hs  => simp_all
    case isFalse hs => cases hr : io.mergeSettled <;> simp_all [Except.isOk, Except.toBool]

theorem settledStatus_congr (ht : o.state.tickets = s.tickets) :
    settledStatus tid o.state = settledStatus tid s := by
  unfold settledStatus
  rw [ht]

-- Without the hold of a settled ticket, nothing of the pull request is counted for that.
theorem Closed.settled_of_not {I : ForgeRun → Prop} (h : Closed edits I)
    (hm : ClosedMerge config merged pr I) (ho : I o) (ht : ticketIdIn pr.title = some tid)
    (hn : ¬settledHolds o.state pr tid io) :
    I (reviewSettled config edits pr io tid headSha o).1 := by
  unfold reviewSettled
  unfold settledHolds at hn
  split
  case h_1            => exact ho
  case h_2 status hst =>
    dsimp only
    have hst : io.settledLoads ∧ settledStatus tid o.state = some status := by
      split at hst
      case isTrue hl => exact ⟨hl, hst⟩
      case isFalse   => contradiction
    have h₁ : I (o.act (.prDiff pr.number io.diffSettled)) := h.call nofun ho
    split
    case isTrue      => exact h.closePr h₁
    case isFalse hla =>
      refine ReviewPhase.andThen_of (h.land hm h₁ ⟨tid, ht, by simp [hst.right]⟩) fun hgo => ?_
      rw [landSettled_snd] at hgo
      refine absurd ?_ hn
      rw [hst.left, hst.right, Bool.eq_false_of_not_eq_true hla, hgo]
      rfl

theorem Closed.settled_holds {I J : ForgeRun → Prop} (h : Closed edits I) (hJ : Closed edits J)
    (hm : ClosedMerge config merged pr J) (ho : J o) (ht : ticketIdIn pr.title = some tid)
    (hs : settledHolds o.state pr tid io)
    (hr : ∀ o, J o → I (openHoldRound config edits pr io.settledHold (HoldKind.settled.reason tid)
      headSha false o).1) :
    I (reviewSettled config edits pr io tid headSha o).1 := by
  unfold settledHolds at hs
  simp only [Bool.and_eq_true, Bool.not_eq_true', Option.isSome_iff_exists] at hs
  obtain ⟨⟨⟨hl, status, hst⟩, hla⟩, hgo⟩ := hs
  unfold reviewSettled
  rw [if_pos hl, hst]
  dsimp only
  rw [if_neg (by rw [hla]; nofun)]
  have h₁ : J (o.act (.prDiff pr.number io.diffSettled)) := hJ.call nofun ho
  have h₂ : J (landSettled edits pr io tid (o.act (.prDiff pr.number io.diffSettled))).1 :=
    hJ.land hm h₁ ⟨tid, ht, by simp [hst]⟩
  unfold ReviewPhase.andThen
  rw [if_pos (by rw [landSettled_snd, hgo]; rfl)]
  have h₃ := hr _ h₂
  unfold HoldKind.reason at h₃
  unfold holdSettled
  dsimp only
  generalize openHoldRound config edits pr io.settledHold _ headSha false _ = r at h₃ ⊢
  cases r.2 with
  | keep rounds  => exact h.log h₃
  | land rounds  => exact h.log h₃
  | close rounds => exact h.closePr h₃

theorem settledHolds_congr (ht : o.state.tickets = s.tickets) :
    settledHolds o.state pr tid io = settledHolds s pr tid io := by
  unfold settledHolds
  rw [settledStatus_congr ht]

-- One of the two holds keeps the pull request open, and the other one does not: then the round is counted.
theorem reviewHolds_round (hm : 0 < config.holdMaxRounds) (hu : config.holdMaxRounds ≤ u32Max)
    (hh : h ≠ "") (hs : headSha = h ∨ headSha = "") (ht : ticketIdIn pr.title = some tid)
    (hk : kind.Keeps merged s pr tid io)
    (hone : ¬(elsewhereHolds merged pr tid io ∧ settledHolds s pr tid io))
    (hl : io.holdLoads ∧ io.settledHold) (hf : ∀ k, ¬(edits k).fails)
    (hst : o.state.tickets = s.tickets) (hv : o.state.prOpenHolds.get? pr.number = v) :
    StillOpen pr.number (Round config (kind.reason tid) h headSha s v)
      (reviewHolds config edits merged pr io headSha o).1 := by
  have hcm {Q} : ClosedMerge config merged pr (StillOpen pr.number Q) := stillOpen_closedMerge
  unfold reviewHolds
  rw [ht]
  dsimp only
  cases kind with
  | elsewhere =>
    have h₁ : StillOpen pr.number (Round config (HoldKind.elsewhere.reason tid) h headSha s v)
        (reviewElsewhere config edits merged pr io tid headSha o).1 :=
      stillOpen_closed.elsewhere_holds (fun _ _ ho => ho.act) hk fun _ =>
        openHoldRound_round hm hu hh hs hl.left hf hst hv
    refine ReviewPhase.andThen_of h₁ fun _ => ?_
    obtain hover | hr := h₁
    case inl =>
      have h₂ : StillOpen pr.number (fun _ _ => False)
          (reviewSettled config edits pr io tid headSha _).1 :=
        stillOpen_closed.settled over_closedSlot hcm (.inl hover) ht
      exact h₂.mono False.elim
    case inr =>
      apply stillOpen_closed.settled_of_not hcm (.inr hr) ht
      rw [settledHolds_congr hr.left]
      exact fun hs => hone ⟨hk, hs⟩
  | settled   =>
    have he : ¬mergedElsewhere merged pr tid := fun he => hone ⟨hk.right he, hk.left⟩
    rw [reviewElsewhere_of_not he]
    unfold ReviewPhase.andThen
    rw [if_pos rfl]
    have h₁ : StillOpen pr.number (fun t w => t = s.tickets ∧ w = v) o := .inr ⟨hst, hv⟩
    refine stillOpen_closed.settled_holds stillOpen_closed hcm h₁ ht ?_ ?_
    case refine_1 =>
      rw [settledHolds_congr hst]
      exact hk.left
    case refine_2 =>
      intro o ho
      obtain hover | hq := ho
      case inl =>
        have h₂ : StillOpen pr.number (fun _ _ => False)
            (openHoldRound config edits pr io.settledHold (HoldKind.settled.reason tid) headSha false o).1 :=
          stillOpen_closed.round over_closedSlot (.inl hover)
        exact h₂.mono False.elim
      case inr => exact openHoldRound_round hm hu hh hs hl.right hf hq.left hq.right

end Pass

section Queue

variable {config : GitConfig} {edits : Nat → EditIo} {prs : List PullRequest} {pr : PullRequest}
variable {merged : List (Nat × String)} {review : Nat → ReviewIo} {io : ReviewIo} {o : ForgeRun}
variable {queue before after : List (PullRequest × Nat)} {n i : Nat}
variable {Q Q' : List Ticket → Option PrOpenHold → Prop}

-- What happens to another pull request does not touch the hold.
theorem reviewPr_stillOpen (hn : pr.number ≠ n) (ho : StillOpen n Q o) :
    StillOpen n Q (reviewPr config edits prs io pr merged o) := by
  have hcm : ClosedMerge config merged pr (StillOpen n Q) := stillOpen_closedMerge
  exact stillOpen_closed.afterHolds hcm (fun _ => ho)
    (stillOpen_closed.holds (stillOpen_closedSlot hn.symm) hcm ho)

variable (review) in
theorem foldl_reviewPr_stillOpen (hq : ∀ at' ∈ queue, at'.1.number ≠ n) (ho : StillOpen n Q o) :
    StillOpen n Q
      (queue.foldl (fun o at' => reviewPr config edits prs (review at'.2) at'.1 merged o) o) := by
  induction queue generalizing o
  case nil               => exact ho
  case cons at' queue hi =>
    have ⟨hn, hq⟩ := List.forall_mem_cons.mp hq
    rw [List.foldl_cons]
    exact hi hq (reviewPr_stillOpen hn ho)

-- Once the hold is over it stays so.
theorem reviewPr_over (ho : Decided o.actions n ∨ PrGone o.actions n) :
    StillOpen n Q (reviewPr config edits prs io pr merged o) := by
  have hcm : ClosedMerge config merged pr (StillOpen n fun _ _ => False) := stillOpen_closedMerge
  have h : StillOpen n (fun _ _ => False) (reviewPr config edits prs io pr merged o) :=
    stillOpen_closed.afterHolds hcm (fun _ => .inl ho)
      (stillOpen_closed.holds over_closedSlot hcm (.inl ho))
  exact h.mono False.elim

-- A pass makes of the hold what the review of the pull request makes of it.
theorem foldl_reviewPr_once (hq : queue.filter (·.1.number = n) = [(pr, i)]) (ho : StillOpen n Q o)
    (hr : ∀ o, Q o.state.tickets (o.state.prOpenHolds.get? n) →
      StillOpen n Q' (reviewPr config edits prs (review i) pr merged o)) :
    StillOpen n Q'
      (queue.foldl (fun o at' => reviewPr config edits prs (review at'.2) at'.1 merged o) o) := by
  obtain ⟨before, after, rfl, hb, -, ha⟩ := List.filter_eq_cons_iff.mp hq
  rw [List.foldl_append, List.foldl_cons]
  have hb : ∀ at' ∈ before, at'.1.number ≠ n := by simpa using hb
  have ha : ∀ at' ∈ after, at'.1.number ≠ n := by simpa using ha
  apply foldl_reviewPr_stillOpen review ha
  obtain hover | hq := foldl_reviewPr_stillOpen review hb ho
  case inl => exact reviewPr_over hover
  case inr => exact hr _ hq

end Queue

section Expiry

variable (config : GitConfig) (kind : HoldKind) (n : Nat) (tid h : String)

-- The pull requests that a pass reviews, each with its place.
def reviewQueue (pass : PassIo) : List (PullRequest × Nat) :=
  match pass.openPrs with
  | .ok prs  => (prs.reverse.take (reviewBatch config)).zipIdx
  | .error _ => []

def placesOf (pass : PassIo) : List (PullRequest × Nat) :=
  (reviewQueue config pass).filter (·.1.number = n)

def PassIo.merged (pass : PassIo) : List (Nat × String) :=
  pass.recentlyMerged.toOption.getD []

-- The pass reads the head of the pull request.
def readable : ReviewEvent → Bool
  | .pass pass => (placesOf config n pass).any fun at' => prHeadSha (pass.review at'.2).lsRemote ≠ ""
  | .others _  => false

-- A pass reviews the pull request, which is still at its head if that can be read, and the hold keeps it
-- open.
structure ReviewedHeld (s : ProjectState) (pass : PassIo) (pr : PullRequest) (i : Nat) : Prop where
  runs   : config.enabled ∧ (config.autoReview ∨ config.autoMerge) ∧ pass.forge
  place  : placesOf config n pass = [(pr, i)]
  base   : pr.base = config.flowBase
  ticket : ticketIdIn pr.title = some tid
  head   : prHeadSha (pass.review i).lsRemote = h ∨ prHeadSha (pass.review i).lsRemote = ""
  keeps  : kind.Keeps pass.merged s pr tid (pass.review i).toHoldIo

-- The pull request is held open, and nothing else than the end of the hold closes or merges it.
def StaysHeld (s : ProjectState) : ReviewEvent → Prop
  | .pass pass =>
    (∃ pr i, ReviewedHeld config kind n tid h s pass pr i) ∧
      (PrGone (reviewOpenPrs config pass { state := s }).actions n →
        Decided (reviewOpenPrs config pass { state := s }).actions n)
  | .others s' => s'.prOpenHolds.get? n = s.prOpenHolds.get? n

-- At most one of the two holds keeps the pull request open, and the store loads and takes the rounds.
def Counted (s : ProjectState) : ReviewEvent → Prop
  | .pass pass =>
    (∀ k, ¬(pass.edits k).fails) ∧
      ∀ at' ∈ placesOf config n pass,
        ((pass.review at'.2).holdLoads ∧ (pass.review at'.2).settledHold) ∧
          ¬(elsewhereHolds pass.merged at'.1 tid (pass.review at'.2).toHoldIo ∧
            settledHolds s at'.1 tid (pass.review at'.2).toHoldIo)
  | .others _  => True

def Decides (s : ProjectState) : ReviewEvent → Prop
  | .pass pass => Decided (reviewOpenPrs config pass { state := s }).actions n
  | .others _  => False

variable {config kind n tid h} {s : ProjectState} {pass : PassIo} {pr : PullRequest} {i : Nat}
variable {e : ReviewEvent} {es : List ReviewEvent}

theorem reviewOpenPrs_round (hm : 0 < config.holdMaxRounds) (hu : config.holdMaxRounds ≤ u32Max)
    (hh : h ≠ "") (hr : ReviewedHeld config kind n tid h s pass pr i)
    (hc : Counted config n tid s (.pass pass)) :
    StillOpen n (Round config (kind.reason tid) h (prHeadSha (pass.review i).lsRemote) s
      (s.prOpenHolds.get? n)) (reviewOpenPrs config pass { state := s }) := by
  have ⟨hen, hau, hfo⟩ := hr.runs
  have hq := hr.place
  unfold placesOf reviewQueue at hq
  unfold reviewOpenPrs
  have hau : (config.autoReview || config.autoMerge) = true := by simpa using hau
  rw [if_neg (by simp [hen, hau, hfo])]
  cases hprs : pass.openPrs with
  | error e => simp [hprs] at hq
  | ok prs  =>
    rw [hprs] at hq
    dsimp only at hq ⊢
    have ⟨hmem, hpn⟩ := List.mem_filter.mp (hq ▸ List.mem_singleton_self (pr, i))
    have hpr : pr ∈ prs := by simpa using List.mem_of_mem_take (List.fst_mem_of_mem_zipIdx hmem)
    rw [if_neg (by simpa using ⟨pr, hpr, hr.base⟩)]
    refine foldl_reviewPr_once hq (Q := fun t w => t = s.tickets ∧ w = s.prOpenHolds.get? n)
      (.inr ⟨rfl, rfl⟩) fun o ho => ?_
    have ⟨hload, hone⟩ := hc.right (pr, i) (by simp [hr.place])
    have hpn : pr.number = n := of_decide_eq_true hpn
    subst hpn
    refine stillOpen_closed.afterHolds stillOpen_closedMerge (fun hb => absurd hr.base hb) ?_
    exact reviewHolds_round hm hu hh hr.head hr.ticket hr.keeps hone hload hc.left ho.left ho.right

-- How many rounds the hold can still take.
def roundsLeft (config : GitConfig) (reason h : String) (n : Nat) (s : ProjectState) : Nat :=
  max config.holdMaxRounds 2 - 1 - chain reason h (s.prOpenHolds.get? n)

theorem roundsLeft_reviewStep (hm : 0 < config.holdMaxRounds) (hu : config.holdMaxRounds ≤ u32Max)
    (hh : h ≠ "") (hs : StaysHeld config kind n tid h s e) (hc : Counted config n tid s e)
    (hd : ¬Decides config n s e) :
    roundsLeft config (kind.reason tid) h n (reviewStep config s e) + (readable config n e).toNat ≤
      roundsLeft config (kind.reason tid) h n s := by
  unfold roundsLeft
  cases e with
  | others s' =>
    have hs : s'.prOpenHolds.get? n = s.prOpenHolds.get? n := hs
    simp [reviewStep, readable, hs]
  | pass pass =>
    obtain ⟨⟨pr, i, hr⟩, hgone⟩ := hs
    obtain hover | hround := reviewOpenPrs_round hm hu hh hr hc
    case inl => exact absurd (hover.elim id hgone) hd
    case inr =>
      have hadv := hround.right
      unfold Advances at hadv
      have hre : readable config n (.pass pass) =
          decide (prHeadSha (pass.review i).lsRemote ≠ "") := by
        simp [readable, hr.place]
      rw [hre]
      unfold reviewStep
      dsimp only
      split at hadv
      case isTrue he  => simp only [he, ne_eq, not_true_eq_false, decide_false, Bool.toNat_false]; omega
      case isFalse he => simp only [he, ne_eq, not_false_eq_true, decide_true, Bool.toNat_true]; omega

-- A hold comes to its decision, in every run in which it is the only one and its rounds are stored.
theorem hold_expires (hm : 0 < config.holdMaxRounds) (hu : config.holdMaxRounds ≤ u32Max) (hh : h ≠ "")
    (hr : Run.Meets (reviewStep config)
      (fun s e => StaysHeld config kind n tid h s e ∧ Counted config n tid s e) s es)
    (hc : max config.holdMaxRounds 2 ≤ es.countP (readable config n)) :
    ∃ pre pass post, es = pre ++ .pass pass :: post ∧
      Decided (reviewOpenPrs config pass { state := pre.foldl (reviewStep config) s }).actions n ∧
      pre.countP (readable config n) < max config.holdMaxRounds 2 := by
  have hlt : roundsLeft config (kind.reason tid) h n s < max config.holdMaxRounds 2 := by
    unfold roundsLeft
    omega
  have hstep : ∀ s e, StaysHeld config kind n tid h s e ∧ Counted config n tid s e →
      ¬Decides config n s e →
      roundsLeft config (kind.reason tid) h n (reviewStep config s e) + (readable config n e).toNat ≤
        roundsLeft config (kind.reason tid) h n s :=
    fun s e hse hd => roundsLeft_reviewStep hm hu hh hse.left hse.right hd
  obtain ⟨pre, e, post, rfl, hd, hle⟩ := Run.decides hstep hr (hlt.trans_le hc)
  cases e with
  | others s' => contradiction
  | pass pass => exact ⟨pre, pass, post, rfl, hd, hle.trans_lt hlt⟩

end Expiry

section Runs

variable {merged : List (Nat × String)}

def conflictedPr : PullRequest :=
  { fixPr with mergeable := false }

-- Passes over a pull request with conflicts, whose ticket was rejected.
def reviewsConflicted (merged : List (Nat × String)) : PassIo :=
  { reviewsFix (approves "+fixed") with
    openPrs        := .ok [conflictedPr]
    recentlyMerged := .ok merged
  }

def passesOver (merged : List (Nat × String)) (k : Nat) : List ReviewEvent :=
  List.replicate k (.pass (reviewsConflicted merged))

-- The call neither closes nor merges, and ends no hold.
def ForgeCall.isQuiet : ForgeCall → Bool
  | .closePr _ _           => false
  | .mergePr _ _           => false
  | .holdRound _ (.keep _) => true
  | .holdRound _ _         => false
  | _                      => true

theorem not_over_of_quiet {past : List ForgeCall} {n : Nat} (h : past.all (·.isQuiet)) :
    ¬PrGone past n ∧ ¬Decided past n := by
  rw [List.all_eq_true] at h
  constructor
  case left =>
    rintro (hc | hm)
    case inl => exact absurd (h _ hc) (by simp [ForgeCall.isQuiet])
    case inr => exact absurd (h _ hm) (by simp [ForgeCall.isQuiet])
  case right =>
    rintro ⟨d, hd, hm⟩
    have hq := h _ hm
    cases hd <;> simp [ForgeCall.isQuiet] at hq

def rejectedFix : Ticket where
  id     := ⟨"COX-B015"⟩
  kind   := .bug
  title  := "Crash on start"
  status := .rejected

-- A person has to decide about the pull request of a ticket that was rejected.
def rejectedBoard : ProjectState where
  tickets    := [rejectedFix]
  humanHolds := .single 7 "it changes Dockerfile, which decides how everything else ships"

def reviewer : GitConfig where
  enabled := true

theorem reviewedHeld_conflicted {s : ProjectState} (hs : settledStatus "COX-B015" s = some .rejected)
    (hm : mergedElsewhere merged conflictedPr "COX-B015" →
      elsewhereHolds merged conflictedPr "COX-B015" (approves "+fixed").toHoldIo) :
    ReviewedHeld reviewer .settled 7 "COX-B015" "a1" s (reviewsConflicted merged) conflictedPr 0 where
  runs   := ⟨rfl, .inl rfl, rfl⟩
  place  := rfl
  base   := by decide
  ticket := by decide +kernel
  head   := .inl (show prHeadSha (some (true, "a1 refs/heads/fix")) = "a1" by decide +kernel)
  keeps  := by
    refine ⟨?_, hm⟩
    have hd : ¬diffLandedOnMain "+fixed" fun _ => none := by decide +kernel
    simp [settledHolds, hs, reviewsConflicted, reviewsFix, approves, conflictedPr, Except.toOption, hd]

-- The board and the calls before and in the next of so many passes.
def boardAfter (merged : List (Nat × String)) (k : Nat) : ProjectState :=
  (passesOver merged k).foldl (reviewStep reviewer) rejectedBoard

def callsAfter (merged : List (Nat × String)) (k : Nat) : List ForgeCall :=
  (reviewOpenPrs reviewer (reviewsConflicted merged) { state := boardAfter merged k }).actions

theorem hold_expires_settled :
    ∃ pre pass post, passesOver [] 3 = pre ++ .pass pass :: post ∧
      Decided (reviewOpenPrs reviewer pass
        { state := pre.foldl (reviewStep reviewer) rejectedBoard }).actions 7 ∧
      pre.countP (readable reviewer 7) < max reviewer.holdMaxRounds 2 := by
  have hc (s) : Counted reviewer 7 "COX-B015" s (.pass (reviewsConflicted [])) := by
    refine ⟨fun _ => Bool.false_ne_true, fun at' hmem => ?_⟩
    have hmem : at' = (conflictedPr, 0) := List.mem_singleton.mp hmem
    subst hmem
    exact ⟨⟨rfl, rfl⟩, fun h => absurd h.left (by decide +kernel)⟩
  have hh {s} (hs : settledStatus "COX-B015" s = some .rejected) :
      ReviewedHeld reviewer .settled 7 "COX-B015" "a1" s (reviewsConflicted []) conflictedPr 0 :=
    reviewedHeld_conflicted hs (by decide +kernel)
  have hr : Run.Meets (reviewStep reviewer) (fun s e =>
      StaysHeld reviewer .settled 7 "COX-B015" "a1" s e ∧ Counted reviewer 7 "COX-B015" s e)
      rejectedBoard (passesOver [] 3) := by
    refine ⟨⟨⟨⟨_, _, hh ?_⟩, ?_⟩, hc _⟩, ⟨⟨⟨_, _, hh ?_⟩, ?_⟩, hc _⟩, ⟨⟨⟨_, _, hh ?_⟩, ?_⟩, hc _⟩,
      trivial⟩
    case refine_1 => decide +kernel
    case refine_2 =>
      have hq : (callsAfter [] 0).all (·.isQuiet) := by decide +kernel
      exact fun hg => absurd hg (not_over_of_quiet hq).left
    case refine_3 => exact show settledStatus "COX-B015" (boardAfter [] 1) = _ by decide +kernel
    case refine_4 =>
      have hq : (callsAfter [] 1).all (·.isQuiet) := by decide +kernel
      exact fun hg => absurd hg (not_over_of_quiet hq).left
    case refine_5 => exact show settledStatus "COX-B015" (boardAfter [] 2) = _ by decide +kernel
    case refine_6 =>
      have hd : (callsAfter [] 2)[2]? = some (.holdRound 7 (.close 3)) := rfl
      exact fun _ => ⟨_, .close 3, List.mem_of_getElem? hd⟩
  exact hold_expires (by decide) (by decide) (by decide) hr (by decide +kernel)

def earlierFix : List (Nat × String) :=
  [(5, "fix(COX-B015): restart")]

-- The two holds of a pull request whose ticket is settled and merged elsewhere start each other afresh,
-- so that neither of them ends.
theorem hold_never_expires :
    Run.Meets (reviewStep reviewer) (fun s e =>
      StaysHeld reviewer .settled 7 "COX-B015" "a1" s e ∧ ¬Decides reviewer 7 s e)
      rejectedBoard (passesOver earlierFix 4) ∧
    (passesOver earlierFix 4).countP (readable reviewer 7) = 4 ∧ reviewer.holdMaxRounds = 3 := by
  refine ⟨?_, by decide +kernel, rfl⟩
  have hm : mergedElsewhere earlierFix conflictedPr "COX-B015" →
      elsewhereHolds earlierFix conflictedPr "COX-B015" (approves "+fixed").toHoldIo := by
    decide +kernel
  have hstep {k} (hs : settledStatus "COX-B015" (boardAfter earlierFix k) = some .rejected)
      (hq : (callsAfter earlierFix k).all (·.isQuiet)) :
      StaysHeld reviewer .settled 7 "COX-B015" "a1" (boardAfter earlierFix k)
        (.pass (reviewsConflicted earlierFix)) ∧
      ¬Decides reviewer 7 (boardAfter earlierFix k) (.pass (reviewsConflicted earlierFix)) := by
    have ⟨hg, hd⟩ := not_over_of_quiet (n := 7) hq
    exact ⟨⟨⟨_, _, reviewedHeld_conflicted hs hm⟩, fun h => absurd h hg⟩, hd⟩
  refine ⟨hstep (k := 0) ?_ ?_, hstep (k := 1) ?_ ?_, hstep (k := 2) ?_ ?_, hstep (k := 3) ?_ ?_,
    trivial⟩
  all_goals decide +kernel

end Runs
