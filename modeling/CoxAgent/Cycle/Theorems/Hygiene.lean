import CoxAgent.Cycle.Hygiene
import CoxAgent.Lib.Run

open Git

section Phases

variable {C Δ : Type} {io : HygieneIo C} {base branch : String} {o : HygieneRun C Δ} {r r' : Repo C Δ}
variable {succeeds : Bool} {msg : Option String} {command : Repo C Δ → Option (Repo C Δ)}
variable {P : Repo C Δ → Prop}

@[simp]
theorem repo_run : (o.run succeeds command msg).repo = (attempt succeeds command o.repo).2 := by
  unfold HygieneRun.run
  split <;> simp_all [HygieneRun.logGit]

-- What holds of a repository holds after a command, if it does when that succeeds.
theorem attempt_of (h : P r) (hc : ∀ {r'}, command r = some r' → P r') :
    P (attempt succeeds command r).2 := by
  unfold attempt
  split
  case h_2 => exact h
  case h_1 r' hr =>
    cases succeeds
    case false => contradiction
    case true  => exact hc hr

theorem stashOrphans_of (h : P o.repo) (hs : ∀ {msg r'}, o.repo.stashPush msg = some r' → P r') :
    P (stashOrphans io base branch o).repo := by
  unfold stashOrphans
  dsimp only
  split
  case isTrue  => exact repo_run ▸ attempt_of h hs
  case isFalse =>
    split
    case isTrue  => exact repo_run ▸ attempt_of h hs
    case isFalse => exact h

theorem returnToBase_of (h : P o.repo)
    (hc : ∀ {r r'}, P r → r.checkout base = some r' → P r')
    (hd : ∀ {r r'}, P r → r.checkoutDetached (.remote base) = some r' → P r') :
    P (returnToBase io base branch o).repo := by
  unfold returnToBase
  split
  case isFalse => exact h
  case isTrue  =>
    have h₁ : P (attempt io.checkout (·.checkout base) o.repo).2 := attempt_of h (hc h)
    generalize attempt io.checkout (·.checkout base) o.repo = a at h₁ ⊢
    match a with
    | (true, r)  => exact h₁
    | (false, r) => exact repo_run ▸ attempt_of h₁ (hd h₁)

variable (io base branch) in
-- Up to the fetch nothing gets lost.
theorem beforeFetch_grows :
    Grows o.repo (returnToBase io base branch (stashOrphans io base branch o)).repo := by
  have h : Grows o.repo (stashOrphans io base branch o).repo := stashOrphans_of .refl .stashPush
  exact returnToBase_of (P := Grows o.repo) h (fun h hr => h.trans (.checkout hr))
    fun h hr => h.trans (.checkoutDetached hr)

theorem beforeFetch_tree :
    (returnToBase io base branch (stashOrphans io base branch o)).repo.tree =
      (stashOrphans io base branch o).repo.tree :=
  returnToBase_of (P := fun r => r.tree = (stashOrphans io base branch o).repo.tree) rfl
    (fun h hr => (tree_checkout hr).trans h) fun h hr => (tree_checkoutDetached hr).trans h

-- Whether a pass puts away what is not committed.
def stashes (io : HygieneIo C) (base branch : String) (r : Repo C Δ) : Bool :=
  seesDirt io r && (branch = base || branch ≠ "") && io.stash && r.headCommit.isSome

theorem stashOrphans_clean (h : stashes io base branch o.repo) :
    (stashOrphans io base branch o).repo.tree.isClean := by
  unfold stashes at h
  simp only [Bool.and_eq_true, Bool.or_eq_true, decide_eq_true_eq] at h
  obtain ⟨⟨⟨hd, hb⟩, hs⟩, hc⟩ := h
  have hp {msg : String} : (attempt io.stash (·.stashPush msg) o.repo).2.tree.isClean := by
    have ⟨r', hr⟩ : ∃ r', o.repo.stashPush msg = some r' := by
      unfold Repo.stashPush
      split
      case isTrue  => exact ⟨_, rfl⟩
      case isFalse =>
        have ⟨c, hc⟩ := Option.isSome_iff_exists.mp hc
        exact ⟨_, by rw [hc]; rfl⟩
    simpa [attempt, hs, hr] using isClean_stashPush hr
  unfold stashOrphans
  dsimp only
  rw [hd]
  by_cases hbb : branch = base
  case pos =>
    rw [if_neg (by simp [hbb]), if_pos (by simp [hbb])]
    exact repo_run ▸ hp
  case neg =>
    rw [if_pos (by simp [hbb, hb.resolve_left hbb])]
    exact repo_run ▸ hp

theorem stashOrphans_tree :
    (stashOrphans io base branch o).repo.tree = o.repo.tree ∨
      (stashOrphans io base branch o).repo.tree.isClean :=
  stashOrphans_of (P := fun r => r.tree = o.repo.tree ∨ r.tree.isClean) (.inl rfl) fun hr =>
    .inr (isClean_stashPush hr)

def prunes (io : HygieneIo C) (n : RefName) : Bool :=
  (prunedWipRefs io).map RefName.other |>.contains n

theorem pruneTicketWipRefs_eq : pruneTicketWipRefs io r = r.without (prunes io) := by
  unfold pruneTicketWipRefs prunes
  induction prunedWipRefs io generalizing r
  case nil         => simp [Repo.without]
  case cons n l hi =>
    rw [List.foldl_cons, hi]
    simp only [Repo.without, Repo.deleteRef, Function.update_apply, List.map_cons, List.contains_cons]
    congr 1
    funext m
    by_cases hm : m = .other n <;> simp [hm]

theorem fetchBase_keeps : (fetchBase io base o).repo.stash = o.repo.stash ∧
    (fetchBase io base o).repo.tree = o.repo.tree := by
  unfold fetchBase
  split <;> exact ⟨rfl, rfl⟩

theorem fetchBase_refs {n : RefName} (h : n ≠ .remote base ∨ io.fetch = none) :
    (fetchBase io base o).repo.refs n = o.repo.refs n := by
  unfold fetchBase
  split
  case h_2        => rfl
  case h_1 tip hf => exact Function.update_of_ne (h.resolve_right (by simp [hf])) _ _

end Phases

section Reset

variable {C Δ : Type} [DecidableEq C] {objects : Objects C Δ} {io : HygieneIo C} {base : String}
variable {o : HygieneRun C Δ} {r r' : Repo C Δ}

-- Whether the backup branch is moved to the base.
def movesBackup (objects : Objects C Δ) (io : HygieneIo C) (base : String) (r : Repo C Δ) : Bool :=
  commitsAhead objects io base r > 0 && io.backup && r.head ≠ .branch (backupBranch base)

-- Whether the base is reset to its remote.
def resets (objects : Objects C Δ) (io : HygieneIo C) (base : String) (r : Repo C Δ) : Bool :=
  commitsAhead objects io base r > 0 && currentBranch io.current r = base && io.reset

theorem backupBranch_ne : backupBranch base ≠ base := by
  intro h
  have h : "backup/" ++ base ++ "-hygiene" = base := h
  have hl : "backup/".length + base.length + "-hygiene".length = base.length := by
    rw [← String.length_append, ← String.length_append, h]
  have hp : 0 < "backup/".length := by decide
  omega

-- What there is to be reset is a base with a remote.
theorem commitsAhead_pos (h : commitsAhead objects io base r > 0) :
    base ≠ "" ∧ ∃ tip upstream, r.refs (.branch base) = some tip ∧ r.refs (.remote base) = some upstream := by
  unfold commitsAhead Repo.ahead at h
  cases ht : r.refs (.branch base) <;> cases hu : r.refs (.remote base) <;> by_cases hb : base = "" <;>
    simp_all

-- What is left of a repository after the reset of the base.
structure BaseReset (objects : Objects C Δ) (io : HygieneIo C) (name : String) (r r' : Repo C Δ) :
    Prop where
  stash  : r'.stash = r.stash
  others : ∀ n, n ≠ .branch name → n ≠ .branch (backupBranch name) → r'.refs n = r.refs n
  backup : r'.refs (.branch (backupBranch name)) =
    r.refs (.branch (if movesBackup objects io name r then name else backupBranch name))
  base   : ¬resets objects io name r → r'.refs (.branch name) = r.refs (.branch name)
  kept   : ¬resets objects io name r → r'.tree = r.tree
  reset  : resets objects io name r → ∃ c, r.refs (.remote name) = some c ∧
    r'.tree = { untracked := r.tree.untracked.filter (!objects.covers c ·) }

-- The backup before the reset.
theorem backup_spec (hz : commitsAhead objects io base r > 0) :
    ∃ r', (attempt io.backup (·.forceBranch (backupBranch base) (.branch base)) r).2 = r' ∧
      r'.stash = r.stash ∧ r'.tree = r.tree ∧ r'.head = r.head ∧ r'.currentBranch = r.currentBranch ∧
      (∀ n, n ≠ .branch (backupBranch base) → r'.refs n = r.refs n) ∧
      r'.refs (.branch (backupBranch base)) =
        r.refs (.branch (if movesBackup objects io base r then base else backupBranch base)) := by
  have ⟨hb, tip, upstream, ht, hu⟩ := commitsAhead_pos hz
  by_cases hm : movesBackup objects io base r
  case neg =>
    have hr : (attempt io.backup (·.forceBranch (backupBranch base) (.branch base)) r).2 = r := by
      unfold movesBackup at hm
      simp only [hz, decide_true, Bool.true_and, Bool.and_eq_true, decide_eq_true_eq, not_and,
        not_not] at hm
      unfold attempt Repo.forceBranch
      cases hi : io.backup
      case false => rfl
      case true  => simp [hm hi]
    exact ⟨r, hr, rfl, rfl, rfl, rfl, fun _ _ => rfl, by rw [if_neg hm]⟩
  case pos =>
    have hm' := hm
    unfold movesBackup at hm'
    simp only [Bool.and_eq_true, decide_eq_true_eq] at hm'
    have hr : (attempt io.backup (·.forceBranch (backupBranch base) (.branch base)) r).2 =
        r.setRef (.branch (backupBranch base)) tip := by
      simp [attempt, Repo.forceBranch, hm'.left.right, hm'.right, ht]
    refine ⟨_, hr, rfl, rfl, rfl, currentBranch_setRef hm'.right, fun n hn => ?_, ?_⟩
    case refine_1 => exact Function.update_of_ne hn _ _
    case refine_2 =>
      rw [if_pos hm, ht]
      exact Function.update_self ..

theorem resetBase_spec : BaseReset objects io base o.repo (resetBase objects io base o).repo := by
  unfold resetBase
  dsimp only
  split
  case isFalse hz =>
    have hm : ¬movesBackup objects io base o.repo := by simp_all [movesBackup]
    have hr : ¬resets objects io base o.repo := by simp_all [resets]
    exact ⟨rfl, fun _ _ _ => rfl, by rw [if_neg hm], fun _ => rfl, fun _ => rfl, fun h => absurd h hr⟩
  case isTrue hz  =>
    have ⟨hb, tip, upstream, ht, hu⟩ := commitsAhead_pos hz
    obtain ⟨r₁, hr₁, hs, htr, hh, hc, ho, hbk⟩ := backup_spec hz
    have hcur : currentBranch io.current r₁ = currentBranch io.current o.repo := by
      unfold currentBranch
      rw [hc]
    simp only [apply_ite HygieneRun.repo, repo_run, hr₁, hcur]
    have hbb : RefName.branch base ≠ .branch (backupBranch base) := by simpa using backupBranch_ne.symm
    have hre : r₁.refs (.remote base) = o.repo.refs (.remote base) := ho _ (by nofun)
    have hkeep (hn : ¬resets objects io base o.repo) : BaseReset objects io base o.repo r₁ :=
      ⟨hs, fun n _ => ho n, hbk, fun _ => ho _ hbb, fun _ => htr, fun h => absurd h hn⟩
    split
    case isFalse hne => exact hkeep (by simp [resets, hne])
    case isTrue heq  =>
      cases hi : io.reset
      case false => exact hkeep (by simp [resets, hi])
      case true  =>
        have hres : resets objects io base o.repo := by simp [resets, hz, heq, hi]
        have ⟨r₂, hr₂⟩ : ∃ r₂, r₁.resetHard objects (.remote base) = some r₂ := by
          unfold Repo.resetHard
          rw [hre, hu]
          exact ⟨_, rfl⟩
        have ha : (attempt true (·.resetHard objects (.remote base)) r₁).2 = r₂ := by simp [attempt, hr₂]
        rw [ha]
        have ⟨hs₂, c, hc₂, ht₂⟩ := resetHard_tree hr₂
        -- The branch that is reset is the base.
        have hhead (b) (hb' : r₁.head = .branch b) : b = base := by
          have hcb : o.repo.currentBranch = some base := by
            unfold currentBranch at heq
            split at heq
            case isFalse => exact absurd heq.symm hb
            case isTrue  =>
              cases hcb : o.repo.currentBranch with
              | none   => exact absurd (by simpa [hcb] using heq.symm) hb
              | some x => simpa [hcb] using heq
          have hd := currentBranch_eq_some hcb
          rw [← hh, hb'] at hd
          simpa using hd
        have hrefs (n) (hn : n ≠ .branch base) : r₂.refs n = r₁.refs n :=
          resetHard_refs hr₂ fun b hb' => hhead b hb' ▸ hn
        refine ⟨hs₂.trans hs, fun n hn hn' => (hrefs n hn).trans (ho n hn'), (hrefs _ hbb.symm).trans hbk,
          fun h => absurd hres h, fun h => absurd hres h, fun _ => ⟨c, ?_, ht₂.trans (by rw [htr])⟩⟩
        rw [← hre, hc₂]

end Reset

section Pass

variable {C Δ : Type} [DecidableEq C]
variable (objects : Objects C Δ) (io : HygieneIo C) (base branch : String) (r : Repo C Δ)

-- The repository that a pass looks at for commits that the remote of the base lacks.
def beforeReset : Repo C Δ :=
  { repo := r } |> stashOrphans io base branch |> returnToBase io base branch |> fetchBase io base |>.repo

-- The refs that a pass moves or deletes.
def releases (n : RefName) : Bool :=
  n = .remote base && io.fetch.isSome ||
    n = .branch (backupBranch base) && movesBackup objects io base (beforeReset io base branch r) ||
    prunes io n

-- A pass takes no work away: what is owed is on the tip that is fetched, or it is held by something else
-- than the refs that the pass moves or deletes. The base is reset only if its commits go to the backup
-- branch, and what is not committed has been stashed, or it is not touched by a reset.
structure TakesNoWork (owed : List (Work C Δ)) : Prop where
  apart : ∀ w ∈ owed, (∃ tip, io.fetch = some tip ∧ objects.Bears tip w) ∨
    Holds objects (r.without (releases objects io base branch r)) w
  saved : resets objects io base (beforeReset io base branch r) →
    movesBackup objects io base (beforeReset io base branch r)
  clean : resets objects io base (beforeReset io base branch r) → stashes io base branch r ∨
    r.tree.edits = [] ∧ ∀ tip, (beforeReset io base branch r).refs (.remote base) = some tip →
      ∀ δ ∈ r.tree.untracked, ¬objects.covers tip δ

variable {objects io base branch r} {w : Work C Δ} {owed : List (Work C Δ)}

theorem treeHygieneLeader_spec : BaseReset objects io base (beforeReset io base branch r)
    (treeHygieneLeader objects io base branch { repo := r }).repo :=
  resetBase_spec

-- A ref that a pass does not release is found again, if the base is saved.
theorem refs_treeHygieneLeader {n : RefName} {tip : C} (h : TakesNoWork objects io base branch r owed)
    (hn : ¬releases objects io base branch r n) (ht : (beforeReset io base branch r).refs n = some tip) :
    ∃ m, ¬prunes io m ∧
      (treeHygieneLeader objects io base branch { repo := r }).repo.refs m = some tip := by
  have hs : BaseReset objects io base (beforeReset io base branch r) _ := treeHygieneLeader_spec
  unfold releases at hn
  simp only [Bool.or_eq_true, Bool.and_eq_true, decide_eq_true_eq, not_or, not_and] at hn
  have ⟨⟨_, hbk⟩, hp⟩ := hn
  by_cases hb : n = .branch base
  case pos =>
    subst hb
    by_cases hr : resets objects io base (beforeReset io base branch r)
    case pos =>
      refine ⟨.branch (backupBranch base), by simp [prunes], ?_⟩
      rw [hs.backup, if_pos (h.saved hr), ht]
    case neg => exact ⟨_, hp, (hs.base hr).trans ht⟩
  case neg =>
    refine ⟨n, hp, ?_⟩
    by_cases hbn : n = .branch (backupBranch base)
    case neg => exact (hs.others n hb hbn).trans ht
    case pos =>
      subst hbn
      rw [hs.backup, if_neg (hbk rfl), ht]

-- What the stash has not taken stays in the tree.
theorem tree_treeHygieneLeader {δ : Δ} (h : TakesNoWork objects io base branch r owed)
    (hc : δ ∈ (stashOrphans io base branch { repo := r }).repo.tree.changes) :
    δ ∈ (treeHygieneLeader objects io base branch { repo := r }).repo.tree.changes := by
  have hs : BaseReset objects io base (beforeReset io base branch r) _ := treeHygieneLeader_spec
  have ht : (beforeReset io base branch r).tree = (stashOrphans io base branch { repo := r }).repo.tree :=
    fetchBase_keeps.right.trans beforeFetch_tree
  have hnc : ¬(stashOrphans io base branch { repo := r }).repo.tree.isClean := by
    intro hcl
    rw [WorkTree.changes_eq_nil_iff.mpr hcl] at hc
    contradiction
  by_cases hr : resets objects io base (beforeReset io base branch r)
  case neg =>
    rw [hs.kept hr, ht]
    exact hc
  case pos =>
    obtain hst | ⟨he, hu⟩ := h.clean hr
    case inl => exact absurd (stashOrphans_clean hst) hnc
    case inr =>
      have hrt : (stashOrphans io base branch { repo := r }).repo.tree = r.tree :=
        stashOrphans_tree.resolve_right hnc
      rw [hrt] at hc ht
      have hc : δ ∈ r.tree.untracked := by simpa [WorkTree.changes, he] using hc
      obtain ⟨c, hrc, htr⟩ := hs.reset hr
      rw [htr, ht]
      simp [WorkTree.changes, hc, hu c hrc δ hc]

theorem treeHygieneLeader_holds (h : TakesNoWork objects io base branch r owed) (hw : w ∈ owed) :
    Holds objects (pruneTicketWipRefs io
      (treeHygieneLeader objects io base branch { repo := r }).repo) w := by
  have hs : BaseReset objects io base (beforeReset io base branch r) _ := treeHygieneLeader_spec
  rw [pruneTicketWipRefs_eq]
  obtain ⟨tip, hf, hb⟩ | hh := h.apart w hw
  case inl =>
    have hr : (beforeReset io base branch r).refs (.remote base) = some tip := by
      simp [beforeReset, fetchBase, hf, Repo.setRef]
    refine .ref (n := .remote base) ?_ hb
    simp [Repo.without, prunes, hs.others, hr]
  case inr =>
    have hg := beforeFetch_grows io base branch (o := { repo := r })
    refine ((hg.without _).holds hh).transfer (fun n tip hn hb => ?_) ?_ fun δ hc => ?_
    case refine_1 =>
      simp only [Repo.without] at hn
      split at hn
      case isTrue       => contradiction
      case isFalse hrel =>
        have hfr : n ≠ .remote base ∨ io.fetch = none := by
          simp only [releases, Bool.or_eq_true, not_or] at hrel
          cases hf : io.fetch <;> simp_all
        obtain ⟨m, hm, hmt⟩ := refs_treeHygieneLeader h hrel ((fetchBase_refs hfr).trans hn)
        refine .ref (n := m) ?_ hb
        simp [Repo.without, hm, hmt]
    case refine_2 =>
      show _ ⊆ (treeHygieneLeader objects io base branch { repo := r }).repo.stash
      rw [hs.stash]
      exact fetchBase_keeps.left ▸ List.Subset.refl _
    case refine_3 =>
      exact .tree (tree_treeHygieneLeader h (beforeFetch_tree (o := { repo := r }) ▸ hc))

end Pass

section Run

variable {C Δ : Type} {objects : Objects C Δ} {config : GitConfig} {base : String} {r : Repo C Δ}
variable {w : Work C Δ}

theorem mem_workOf_commit {tip c : C} (ht : r.refs (.branch base) = some tip)
    (hc : c ∈ objects.history tip) : .commit c ∈ workOf objects base r := by
  simp [workOf, ht, hc]

theorem mem_workOf_change {δ : Δ} (hc : δ ∈ r.tree.changes) : .change δ ∈ workOf objects base r := by
  simp [workOf, hc]

theorem holds_workOf (h : w ∈ workOf objects base r) : Holds objects r w := by
  unfold workOf at h
  obtain h | h := List.mem_append.mp h
  case inl =>
    obtain ⟨c, hc, rfl⟩ := List.mem_map.mp h
    cases ht : r.refs (.branch base) with
    | none     => simp [ht] at hc
    | some tip => exact .ref ht (show c ∈ objects.history tip by simpa [ht] using hc)
  case inr =>
    obtain ⟨δ, hc, rfl⟩ := List.mem_map.mp h
    exact .tree hc
variable [DecidableEq C] {s : HygieneState C Δ} {e : HygieneEvent C Δ} {es : List (HygieneEvent C Δ)}

-- A pass takes no work away that was there before it or before an earlier one, and others do not lose any.
def SparesWork (objects : Objects C Δ) (config : GitConfig) (s : HygieneState C Δ) :
    HygieneEvent C Δ → Prop
  | .pass io     => config.enabled → io.isRepo →
      TakesNoWork objects io config.flowBase (currentBranch io.branch s.repo) s.repo
        (s.owed ++ workOf objects config.flowBase s.repo)
  | .others repo => ∀ w ∈ s.owed, Holds objects s.repo w → Holds objects repo w

theorem treeHygiene_holds {io : HygieneIo C} {owed : List (Work C Δ)}
    (h : config.enabled → io.isRepo →
      TakesNoWork objects io config.flowBase (currentBranch io.branch r) r owed)
    (hw : w ∈ owed) (hh : Holds objects r w) : Holds objects (treeHygiene objects io config r).repo w := by
  unfold treeHygiene
  split
  case isTrue     => exact hh
  case isFalse he =>
    simp only [Bool.or_eq_true, Bool.not_eq_true', not_or, Bool.not_eq_false] at he
    have hl := treeHygieneLeader_holds (h he.left he.right) hw
    dsimp only
    split <;> exact hl

-- What is owed is still held.
def Keeps (objects : Objects C Δ) (s : HygieneState C Δ) : Prop :=
  ∀ w ∈ s.owed, Holds objects s.repo w

theorem keeps_hygieneStep (hs : SparesWork objects config s e) (h : Keeps objects s) :
    Keeps objects (hygieneStep objects config s e) := by
  intro w hw
  cases e with
  | others repo => exact hs w hw (h w hw)
  | pass io     =>
    have hh : Holds objects s.repo w := (List.mem_append.mp hw).elim (h w) holds_workOf
    exact treeHygiene_holds hs hw hh

-- What is owed stays so.
theorem owed_foldl : s.owed ⊆ (es.foldl (hygieneStep objects config) s).owed := by
  refine Run.inv_all (J := fun s' : HygieneState C Δ => s.owed ⊆ s'.owed) (fun s' e h => ?_)
    (List.Subset.refl _)
  cases e with
  | others repo => exact h
  | pass io     => exact List.Subset.trans h (List.subset_append_left ..)

-- Every commit that was on the local base before a pass and every change that was not committed can be
-- reached after any number of passes, in every run that spares them.
theorem treeHygiene_keeps_work (hm : Run.Meets (hygieneStep objects config) (SparesWork objects config)
    { repo := r } es) {pre post : List (HygieneEvent C Δ)} {io : HygieneIo C}
    (he : es = pre ++ .pass io :: post) :
    (∀ tip c, (pre.foldl (hygieneStep objects config) { repo := r }).repo.refs (.branch config.flowBase) =
        some tip → c ∈ objects.history tip →
      Holds objects (es.foldl (hygieneStep objects config) { repo := r }).repo (.commit c)) ∧
    ∀ δ ∈ (pre.foldl (hygieneStep objects config) { repo := r }).repo.tree.changes,
      Holds objects (es.foldl (hygieneStep objects config) { repo := r }).repo (.change δ) := by
  have hk : Keeps objects (es.foldl (hygieneStep objects config) { repo := r }) :=
    Run.inv (fun _ _ => keeps_hygieneStep) hm (by simp [Keeps])
  have ho : workOf objects config.flowBase
      (pre.foldl (hygieneStep objects config) { repo := r }).repo ⊆
      (es.foldl (hygieneStep objects config) { repo := r }).owed := by
    rw [he, List.foldl_append, List.foldl_cons]
    generalize pre.foldl (hygieneStep objects config) { repo := r } = s
    have ho : (hygieneStep objects config s (.pass io)).owed ⊆
        (post.foldl (hygieneStep objects config) (hygieneStep objects config s (.pass io))).owed :=
      owed_foldl
    exact List.Subset.trans (List.subset_append_right ..) ho
  exact ⟨fun tip c ht hc => hk _ (ho (mem_workOf_commit ht hc)), fun δ hc => hk _ (ho (mem_workOf_change hc))⟩

end Run

section Runs

-- Commits that are all built on the first one.
def siblings : Objects Nat String where
  history n          := if n = 0 then [0] else [n, 0]
  self_mem n         := by split <;> simp_all
  history_mono {m n} := by
    intro h
    split at h
    case isTrue  => simp_all
    case isFalse =>
      have h : m = n ∨ m = 0 := by simpa using h
      cases h <;> simp_all
  nodup n            := by split <;> simp_all
  brings _ _         := false
  covers _ _         := false

def tidies : GitConfig where
  enabled := true

-- A commit was merged into the local base by mistake.
def polluted : Repo Nat String where
  refs := Function.update (Function.update (fun _ => none) (.remote "main") (some 0)) (.branch "main")
    (some 1)
  head := .branch "main"

def allSucceed : HygieneIo Nat where
  fetch := some 0

-- One more commit is merged into the base by mistake.
def pollutedAgain : Repo Nat String :=
  (treeHygiene siblings allSucceed tidies polluted).repo.setRef (.branch "main") 2

def cleanedTwice : List (HygieneEvent Nat String) :=
  [.pass allSucceed, .others pollutedAgain, .pass allSucceed]

-- An engine died on a feature branch with work that is not committed.
def orphaned : Repo Nat String where
  refs := Function.update polluted.refs (.branch "fix/x") (some 2)
  head := .branch "fix/x"
  tree := { edits := ["wip"] }

theorem treeHygiene_keeps_work_orphaned :
    (∀ tip c, orphaned.refs (.branch tidies.flowBase) = some tip → c ∈ siblings.history tip →
      Holds siblings ([.pass allSucceed, .pass allSucceed].foldl (hygieneStep siblings tidies)
        { repo := orphaned }).repo (.commit c)) ∧
    ∀ δ ∈ orphaned.tree.changes,
      Holds siblings ([.pass allSucceed, .pass allSucceed].foldl (hygieneStep siblings tidies)
        { repo := orphaned }).repo (.change δ) := by
  have hm : Run.Meets (hygieneStep siblings tidies) (SparesWork siblings tidies) { repo := orphaned }
      [.pass allSucceed, .pass allSucceed] := by
    have h₀ : siblings.Bears 0 (.commit 0) := siblings.self_mem 0
    have h₁ : siblings.Bears 1 (.commit 1) := siblings.self_mem 1
    refine ⟨fun _ _ => ⟨?_, fun _ => rfl, fun _ => .inl rfl⟩, fun _ _ => ⟨?_, ?_, ?_⟩, trivial⟩
    case refine_1 =>
      show ∀ w ∈ [Work.commit 1, .commit 0, .change "wip"], _
      simp only [List.forall_mem_cons]
      exact ⟨.inr (.ref (n := .branch "main") rfl h₁), .inl ⟨0, rfl, h₀⟩, .inr (.tree (by decide)), by simp⟩
    case refine_2 =>
      show ∀ w ∈ [Work.commit 1, .commit 0, .change "wip", .commit 0], _
      simp only [List.forall_mem_cons]
      exact ⟨.inr (.ref (n := .branch "backup/main-hygiene") rfl h₁), .inl ⟨0, rfl, h₀⟩,
        .inr (.stash (List.mem_singleton_self _) (List.mem_singleton_self _)), .inl ⟨0, rfl, h₀⟩, by simp⟩
    case refine_3 => exact fun h => absurd h (by decide +kernel)
    case refine_4 => exact fun h => absurd h (by decide +kernel)
  exact @treeHygiene_keeps_work _ _ _ _ _ _ _ hm [] _ _ rfl

def dirty : Repo Nat String :=
  { polluted with tree := { edits := ["wip"] } }

theorem not_holds_commit {r : Repo Nat String} {c : Nat} (hs : r.stash = [])
    (hr : ∀ n tip, r.refs n = some tip → c ∉ siblings.history tip) : ¬Holds siblings r (.commit c) := by
  intro h
  cases h
  case ref hn hb     => exact hr _ _ hn hb
  case stashed he hb => simp [hs] at he

-- The backup of the second pass takes the place of the first one, even if no command fails. If the backup
-- fails then the base is reset all the same, and so it is if the stash fails.
theorem treeHygiene_destroys_work :
    (polluted.refs (.branch "main") = some 1 ∧
      (∀ w, Holds siblings (treeHygiene siblings allSucceed tidies polluted).repo w →
        Holds siblings pollutedAgain w) ∧
      ¬Holds siblings (cleanedTwice.foldl (hygieneStep siblings tidies) { repo := polluted }).repo
        (.commit 1)) ∧
    ¬Holds siblings (treeHygiene siblings { allSucceed with backup := false } tidies polluted).repo
      (.commit 1) ∧
    ("wip" ∈ dirty.tree.changes ∧
      ¬Holds siblings (treeHygiene siblings { allSucceed with stash := false } tidies dirty).repo
        (.change "wip")) := by
  refine ⟨⟨rfl, fun w h => ?_, not_holds_commit rfl fun n tip hn => ?_⟩,
    not_holds_commit rfl fun n tip hn => ?_, by decide, fun h => ?_⟩
  case refine_1 =>
    refine h.transfer (fun n tip hn hb => ?_) (List.Subset.refl _) fun _ hc => .tree hc
    by_cases hm : n = .branch "main"
    case neg => exact .ref (n := n) ((Function.update_of_ne hm _ _).trans hn) hb
    case pos =>
      subst hm
      cases hn
      exact .ref (n := .remote "main") rfl hb
  case refine_2 =>
    have hn : Function.update (Function.update (Function.update pollutedAgain.refs (.remote "main")
        (some 0)) (.branch "backup/main-hygiene") (some 2)) (.branch "main") (some 0) n = some tip := hn
    have ha : pollutedAgain.refs = Function.update (Function.update (Function.update (Function.update
        polluted.refs (.remote "main") (some 0)) (.branch "backup/main-hygiene") (some 1))
          (.branch "main") (some 0)) (.branch "main") (some 2) := rfl
    simp only [ha, polluted, Function.update_apply] at hn
    split_ifs at hn <;> cases hn <;> decide
  case refine_3 =>
    have hn : Function.update (Function.update polluted.refs (.remote "main") (some 0)) (.branch "main")
        (some 0) n = some tip := hn
    simp only [polluted, Function.update_apply] at hn
    split_ifs at hn <;> cases hn <;> decide
  case refine_4 =>
    cases h
    case ref hb =>
      have ⟨_, _, hbr⟩ := hb
      exact absurd hbr Bool.false_ne_true
    case stashed he hb =>
      have ⟨_, _, hbr⟩ := hb
      exact absurd hbr Bool.false_ne_true
    case stash he hc => exact absurd he List.not_mem_nil
    case tree hc     => exact absurd hc List.not_mem_nil

end Runs
