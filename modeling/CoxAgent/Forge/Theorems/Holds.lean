import CoxAgent.Forge.Holds
import CoxAgent.Forge.Theorems.Review
import CoxAgent.Lib.Run

section Reviewed

variable {config : GitConfig} {edits : Nat → EditIo} {prs : List PullRequest} {io : HoldIo}
variable {pr : PullRequest} {tid reason headSha : String} {merged : List (Nat × String)}
variable {I : ForgeRun → Prop} {o : ForgeRun} {loads landable : Bool}

-- The edits of the slot of a pull request are preserved.
def ClosedSlot (edits : Nat → EditIo) (n : Nat) (I : ForgeRun → Prop) : Prop :=
  ∀ {o f}, (∀ e s, (f e s).tickets = s.tickets ∧
    ∀ k, k ≠ n → (f e s).prOpenHolds.get? k = s.prOpenHolds.get? k) → I o → I (o.save edits f)

theorem openHoldExpiry_land {prior : Option PrOpenHold} {maxRounds rounds : Nat}
    (h : openHoldExpiry prior reason headSha landable maxRounds = .land rounds) :
    landable ∧ 0 < maxRounds ∧ maxRounds ≤ rounds := by
  unfold openHoldExpiry at h
  grind

theorem openHoldRound_snd :
    (openHoldRound config edits pr loads reason headSha landable o).2 =
      openHoldExpiry (priorHold config pr loads o.state) reason headSha landable config.holdMaxRounds := by
  unfold openHoldRound
  dsimp only
  split <;> rfl

-- The record of a round is the last that happens to the outside.
theorem openHoldRound_actions :
    (openHoldRound config edits pr loads reason headSha landable o).1.actions = o.actions ++
      [.holdRound pr.number (openHoldRound config edits pr loads reason headSha landable o).2] := by
  unfold openHoldRound
  dsimp only
  split <;> rfl

theorem recordRound_leaves {prior : Option PrOpenHold} {decision : HoldExpiry} {e : EditIo}
    {s : ProjectState} :
    (recordRound pr prior reason headSha decision e s).tickets = s.tickets ∧
      ∀ k, k ≠ pr.number →
        (recordRound pr prior reason headSha decision e s).prOpenHolds.get? k = s.prOpenHolds.get? k := by
  unfold recordRound
  cases decision <;> simp +contextual

theorem Closed.round (h : Closed edits I) (hs : ClosedSlot edits pr.number I) (ho : I o) :
    I (openHoldRound config edits pr loads reason headSha landable o).1 := by
  unfold openHoldRound
  dsimp only
  split
  case isTrue  => exact h.call nofun ho
  case isFalse =>
    have h₁ (d) : I (o.act (.holdRound pr.number d)) := h.call nofun ho
    exact hs (fun e s => recordRound_leaves) (h₁ _)

theorem landable_iff {diff : Except PortError String} :
    (diff.toOption.any fun d =>
      pr.mergeable && !diffHasConflictMarkers d && (commitsScratch d).isNone) ↔
      pr.mergeable ∧ ∃ d, diff = .ok d ∧ ¬diffHasConflictMarkers d ∧ commitsScratch d = none := by
  cases diff <;> simp [Except.toOption, and_assoc]

theorem Closed.elsewhere (h : Closed edits I) (hs : ClosedSlot edits pr.number I)
    (hm : ClosedMerge config merged pr I) (ho : I o) (ht : ticketIdIn pr.title = some tid) :
    I (reviewElsewhere config edits merged pr io tid headSha o).1 := by
  unfold reviewElsewhere
  dsimp only
  split
  case isTrue      => exact ho
  case isFalse hel =>
    simp only [Bool.not_eq_true', Bool.not_eq_false, Bool.and_eq_true, List.contains_iff_mem] at hel
    have h₁ : I (o.act (.prDiff pr.number io.diffElsewhere)) := h.call nofun ho
    split
    case isTrue  => exact h.closePr h₁
    case isFalse =>
      generalize hl : io.diffElsewhere.toOption.any _ = landable
      generalize hr : openHoldRound config edits pr io.holdLoads _ headSha landable _ = r
      have h₂ : I r.1 := hr ▸ h.round hs h₁
      have ha : r.1.actions = (o.act (.prDiff pr.number io.diffElsewhere)).actions ++
          [.holdRound pr.number r.2] := hr ▸ openHoldRound_actions
      have hd := hr ▸ (openHoldRound_snd (o := o.act (.prDiff pr.number io.diffElsewhere)))
      cases hrd : r.2 with
      | keep rounds  => exact h.log h₂
      | close rounds => exact h.closePr h₂
      | land rounds  =>
        have ⟨hla, hpos, hle⟩ := openHoldExpiry_land (hd.symm.trans hrd)
        have ⟨hp, hsd⟩ := landable_iff.mp (hl.trans hla)
        have hx : Expired config merged pr r.1.actions := by
          refine ⟨⟨tid, hel.left, ht⟩, fun hn => ?_, ⟨rounds, by simp [ha, hrd], hle⟩, hpos⟩
          have ⟨m, hmem, hmn⟩ := List.mem_map.mp hn
          have hany : merged.any (·.1 = pr.number) := List.any_eq_true.mpr ⟨m, hmem, by simp [hmn]⟩
          exact absurd hany (by simp [hel.right])
        have hs : SafeDiff pr r.1.actions := hsd.imp fun d hd => ⟨by simp [ha, hd.left], hd.right⟩
        have hmd (a) := hm r.1 a h₂ hp (.expired hx hs)
        cases io.mergeExpired with
        | error e => exact hmd _
        | ok _    => exact h.log (h.call (by nofun) (hmd _))

theorem safeToLand_iff {diff : Except PortError String} :
    safeToLand diff ↔ ∃ d, diff = .ok d ∧ ¬diffHasConflictMarkers d ∧ commitsScratch d = none := by
  unfold safeToLand
  cases diff <;> simp [Except.toOption]

theorem Closed.land (h : Closed edits I) (hm : ClosedMerge config merged pr I) (ho : I o)
    (hs : Settled pr o.state) : I (landSettled edits pr io tid o).1 := by
  unfold landSettled
  split
  case isTrue     => exact ho
  case isFalse hp =>
    simp only [Bool.not_eq_true', Bool.not_eq_false] at hp
    dsimp only
    have h₁ : I (o.act (.prDiff pr.number io.diffLand)) := h.call nofun ho
    split
    case isTrue      => exact h₁
    case isFalse hsd =>
      simp only [Bool.not_eq_true', Bool.not_eq_false] at hsd
      have hd : SafeDiff pr (o.act (.prDiff pr.number io.diffLand)).actions :=
        (safeToLand_iff.mp hsd).imp fun d hd => ⟨by simp [hd.left], hd.right⟩
      have hmd (r) := hm _ r h₁ hp (.settled hs hd)
      cases io.mergeSettled with
      | error e => exact hmd _
      | ok _    =>
        refine h.log (h.save (fun _ s => Leaves.remove (.inr ?_)) (h.call (by nofun) (hmd _)))
        simp

theorem Closed.hold (h : Closed edits I) (hs : ClosedSlot edits pr.number I) (ho : I o) :
    I (holdSettled config edits pr io tid headSha o).1 := by
  unfold holdSettled
  dsimp only
  generalize hr : openHoldRound config edits pr io.settledHold _ headSha false o = r
  have h₁ : I r.1 := hr ▸ h.round hs ho
  cases r.2 with
  | keep rounds  => exact h.log h₁
  | land rounds  => exact h.log h₁
  | close rounds => exact h.closePr h₁

theorem Closed.settled (h : Closed edits I) (hs : ClosedSlot edits pr.number I)
    (hm : ClosedMerge config merged pr I) (ho : I o) (ht : ticketIdIn pr.title = some tid) :
    I (reviewSettled config edits pr io tid headSha o).1 := by
  unfold reviewSettled
  split
  case h_1           => exact ho
  case h_2 status hst =>
    dsimp only
    have hst : Settled pr o.state := by
      refine ⟨tid, ht, ?_⟩
      split at hst
      case isTrue  => simp [hst]
      case isFalse => contradiction
    have h₁ : I (o.act (.prDiff pr.number io.diffSettled)) := h.call nofun ho
    split
    case isTrue  => exact h.closePr h₁
    case isFalse =>
      have h₂ : I (landSettled edits pr io tid (o.act (.prDiff pr.number io.diffSettled))).1 :=
        h.land hm h₁ hst
      exact ReviewPhase.andThen_of h₂ fun _ => h.hold hs h₂

theorem Closed.holds (h : Closed edits I) (hs : ClosedSlot edits pr.number I)
    (hm : ClosedMerge config merged pr I) (ho : I o) :
    I (reviewHolds config edits merged pr io headSha o).1 := by
  unfold reviewHolds
  split
  case h_1        => exact ho
  case h_2 tid ht =>
    have h₁ : I (reviewElsewhere config edits merged pr io tid headSha o).1 := h.elsewhere hs hm ho ht
    exact ReviewPhase.andThen_of h₁ fun _ => h.settled hs hm h₁ ht

end Reviewed

section Mirrored

namespace MirrorCall

-- The list of open pull requests is given, and leaves the number out.
def Closes (c : MirrorCall) (n : Nat) : Prop :=
  ∃ prs, c = setOpenPrs prs ∧ n ∉ prs.map (·.number)

-- Of what is held every pull request on the list is among those that the mirror keeps.
def KeepsHeld (s : ProjectState) : MirrorCall → Prop
  | setOpenPrs prs => ∀ n ∈ s.humanHolds.keys, n ∈ prs.map (·.number) →
      n ∈ (prs.take maxOpenPrs).map (·.number)
  | _              => True

end MirrorCall

namespace ProjectState

variable {s : ProjectState} {c : MirrorCall} {calls : List MirrorCall} {n number : Nat} {reason : String}
  {prs : List PrOpen} {pr : PrOpen}

@[simp]
theorem onMirror_setOpenPrs : (s.onMirror (.setOpenPrs prs)).humanHolds =
    s.humanHolds.retain fun n => (prs.take maxOpenPrs).any (·.number = n) :=
  rfl

@[simp]
theorem onMirror_hold :
    (s.onMirror (.hold number reason)).humanHolds = s.humanHolds.insert number reason := by
  rw [onMirror, holdPr]

theorem get?_setOpenPrs : (s.onMirror (.setOpenPrs prs)).humanHolds.get? n =
    if n ∈ (prs.take maxOpenPrs).map (·.number) then s.humanHolds.get? n else none := by
  rw [onMirror_setOpenPrs, BTreeMap.get?_retain]
  simp only [List.any_eq_true, decide_eq_true_eq, List.mem_map]

theorem mem_keys_of_get? (h : s.humanHolds.get? n = some reason) : n ∈ s.humanHolds.keys :=
  List.mem_map_of_mem (f := Prod.fst) (BTreeMap.get?_eq_some.mp h)

-- What a call leaves of a hold: the hold, the reason that it gives itself, or nothing if the number is not
-- on its list.
theorem hold_step (hk : c.KeepsHeld s) (h : s.humanHolds.get? n = some reason) :
    (s.onMirror c).humanHolds.get? n = some reason ∨
      (∃ reason', c = .hold n reason' ∧ (s.onMirror c).humanHolds.get? n = some reason') ∨ c.Closes n := by
  cases c with
  | upsertOpenPr pr        => exact .inl h
  | hold number reason'    =>
    rw [onMirror_hold, BTreeMap.get?_insert]
    by_cases hn : n = number
    case pos =>
      subst hn
      exact .inr (.inl ⟨reason', rfl, if_pos rfl⟩)
    case neg =>
      rw [if_neg hn]
      exact .inl h
  | setOpenPrs prs         =>
    by_cases hn : n ∈ prs.map (·.number)
    case pos =>
      have hm := hk n (mem_keys_of_get? h) hn
      rw [get?_setOpenPrs, if_pos hm]
      exact .inl h
    case neg => exact .inr (.inr ⟨prs, rfl, hn⟩)

theorem isSome_hold_step (hk : c.KeepsHeld s) (hc : ¬c.Closes n) (h : (s.humanHolds.get? n).isSome) :
    ((s.onMirror c).humanHolds.get? n).isSome := by
  obtain ⟨reason, hr⟩ := Option.isSome_iff_exists.mp h
  rcases hold_step hk hr with hs | ⟨reason', -, hs⟩ | hs
  · simp [hs]
  · simp [hs]
  · exact absurd hs hc

-- A hold goes only with a list that leaves it out, and one that a person has put on a pull request stays as
-- long as no list leaves it out.
structure HoldsSurvive (calls : List MirrorCall) : Prop where
  removed  : ∀ pre c post n, calls = pre ++ c :: post →
    ((pre.foldl onMirror {}).humanHolds.get? n).isSome →
    (((pre ++ [c]).foldl onMirror {}).humanHolds.get? n).isSome ∨ c.Closes n
  reason   : ∀ pre c post n reason, calls = pre ++ c :: post →
    (pre.foldl onMirror {}).humanHolds.get? n = some reason → (∀ reason', c ≠ .hold n reason') →
    ((pre ++ [c]).foldl onMirror {}).humanHolds.get? n = some reason ∨ c.Closes n
  survives : ∀ pre n reason mid post, calls = pre ++ .hold n reason :: mid ++ post →
    (∀ c ∈ mid, ¬c.Closes n) →
    (((pre ++ .hold n reason :: mid).foldl onMirror {}).humanHolds.get? n).isSome

theorem holds_survive_iff : HoldsSurvive calls ↔ Run.Meets onMirror MirrorCall.KeepsHeld {} calls := by
  constructor
  case mp =>
    intro h
    rw [Run.meets_iff_forall]
    intro pre c post hsplit
    cases c with
    | upsertOpenPr pr  => trivial
    | hold n reason    => trivial
    | setOpenPrs prs   =>
      intro n hn hmem
      by_contra hd
      have ⟨e, he, hen⟩ := List.mem_map.mp hn
      have hs : ((pre.foldl onMirror {}).humanHolds.get? n).isSome := by
        rw [Option.isSome_iff_exists]
        exact ⟨e.2, BTreeMap.get?_eq_some.mpr (hen ▸ he)⟩
      rcases h.removed pre _ post n hsplit hs with hs | ⟨prs', heq, hout⟩
      case inl =>
        rw [List.foldl_append, List.foldl_cons, List.foldl_nil, get?_setOpenPrs, if_neg hd] at hs
        contradiction
      case inr =>
        cases heq
        exact hout hmem
  case mpr =>
    intro h
    refine ⟨?_, ?_, ?_⟩
    case refine_1 =>
      rintro pre c post n rfl hs
      rw [List.foldl_append]
      by_cases hc : c.Closes n
      case pos => exact .inr hc
      case neg => exact .inl (isSome_hold_step h.of_append hc hs)
    case refine_2 =>
      rintro pre c post n reason rfl hs hne
      rw [List.foldl_append]
      rcases hold_step h.of_append hs with hs | ⟨reason', hc, -⟩ | hs
      · exact .inl hs
      · exact absurd hc (hne reason')
      · exact .inr hs
    case refine_3 =>
      rintro pre n reason mid post rfl hmid
      rw [List.append_assoc, Run.meets_append] at h
      have hm := (Run.meets_append.mp h.right.right).left
      rw [List.foldl_append, List.foldl_cons]
      -- The hold is there, and each of the calls keeps it.
      have hkeeps (s : ProjectState) (c : MirrorCall) (hc : c.KeepsHeld s ∧ ¬c.Closes n)
          (hs : (s.humanHolds.get? n).isSome) : ((s.onMirror c).humanHolds.get? n).isSome :=
        isSome_hold_step hc.left hc.right hs
      refine Run.inv (J := fun s : ProjectState => (s.humanHolds.get? n).isSome) hkeeps ?_ (by simp)
      rw [Run.meets_iff_forall] at hm ⊢
      rintro pre' c post' rfl
      exact ⟨hm pre' c post' rfl, hmid c (by simp)⟩

-- A hold on the pull request that comes last in a list of 51.
def longQueue : List MirrorCall :=
  [.hold 51 "needs human eyes",
    .setOpenPrs <| (List.range 51).map fun i =>
      { number := i + 1, title := "", head := "", base := "main", url := "", author := "", ci := "",
        mergeable := true, created := "" }]

theorem not_holds_survive : ¬∀ calls, HoldsSurvive calls := by
  intro h
  have hmid : ∀ c ∈ longQueue.drop 1, ¬c.Closes 51 := by
    rintro c hc ⟨prs, rfl, hn⟩
    obtain ⟨rfl⟩ := List.mem_singleton.mp hc
    revert hn
    decide
  have hs := (h longQueue).survives [] 51 "needs human eyes" (longQueue.drop 1) [] rfl hmid
  revert hs
  decide +kernel

end ProjectState

end Mirrored
