import Mathlib.Data.List.Basic
import Mathlib.Logic.Function.Basic

-- Repositories under version control: the refs, the stash and one working tree.
namespace Git

-- Commits never change. The history of a commit is the commit with all that it is built on. A commit may
-- bring a change, and it may have a file where a change is that is not tracked.
structure Objects (C Δ : Type) where
  history      : C → List C
  self_mem     : ∀ c, c ∈ history c
  history_mono : ∀ {b c}, b ∈ history c → history b ⊆ history c
  nodup        : ∀ c, (history c).Nodup
  brings       : C → Δ → Bool
  covers       : C → Δ → Bool

inductive RefName
  | branch (name : String)
  | remote (name : String)
  | other (name : String)
deriving DecidableEq, Repr

inductive Head (C : Type)
  | branch (name : String)
  | detached (commit : C)
deriving DecidableEq, Repr

structure StashEntry (C Δ : Type) where
  message : String
  head    : C
  changes : List Δ

-- What is not committed, to the files that are tracked and in files that are not.
structure WorkTree (Δ : Type) where
  edits     : List Δ := []
  untracked : List Δ := []

namespace WorkTree

variable {Δ : Type}

def changes (t : WorkTree Δ) : List Δ :=
  t.edits ++ t.untracked

def isClean (t : WorkTree Δ) : Bool :=
  t.edits.isEmpty && t.untracked.isEmpty

theorem changes_eq_nil_iff {t : WorkTree Δ} : t.changes = [] ↔ t.isClean := by
  simp [changes, isClean]

end WorkTree

structure Repo (C Δ : Type) where
  refs  : RefName → Option C
  head  : Head C
  stash : List (StashEntry C Δ) := []
  tree  : WorkTree Δ            := {}

-- What is not to get lost.
inductive Work (C Δ : Type)
  | commit (c : C)
  | change (δ : Δ)

namespace Repo

variable {C Δ : Type} (objects : Objects C Δ) (r : Repo C Δ)

def headCommit : Option C :=
  match r.head with
  | .branch b   => r.refs (.branch b)
  | .detached c => some c

-- A branch without commits has no name yet.
def currentBranch : Option String :=
  match r.head with
  | .branch b   => (r.refs (.branch b)).map fun _ => b
  | .detached _ => some "HEAD"

-- How many commits of the branch its remote does not have. The empty name is not one of a branch.
def ahead [DecidableEq C] (name : String) : Option Nat := do
  let tip ← if name = "" then none else r.refs (.branch name)
  let upstream ← r.refs (.remote name)
  return (objects.history tip).countP (· ∉ objects.history upstream)

def setRef (n : RefName) (c : C) : Repo C Δ :=
  { r with refs := Function.update r.refs n (some c) }

def deleteRef (n : RefName) : Repo C Δ :=
  { r with refs := Function.update r.refs n none }

-- The repository as if it did not have some of its refs.
def without (lost : RefName → Bool) : Repo C Δ :=
  { r with refs := fun n => if lost n then none else r.refs n }

-- A working tree that is clean is not put away.
def stashPush (message : String) : Option (Repo C Δ) :=
  if r.tree.isClean then
    some r
  else
    r.headCommit.map fun c => { r with
      stash := { message, head := c, changes := r.tree.changes } :: r.stash
      tree  := {}
    }

-- The branch is made if only its remote exists. What is not committed is carried over.
def checkout (name : String) : Option (Repo C Δ) :=
  match r.refs (.branch name) with
  | some _ => some { r with head := .branch name }
  | none   => (r.refs (.remote name)).map fun c => { r.setRef (.branch name) c with head := .branch name }

def checkoutDetached (n : RefName) : Option (Repo C Δ) :=
  (r.refs n).map fun c => { r with head := .detached c }

-- The branch that is checked out is not moved.
def forceBranch [DecidableEq C] (name : String) (target : RefName) : Option (Repo C Δ) :=
  if r.head = .branch name then none else (r.refs target).map (r.setRef (.branch name))

-- The edits are dropped, and the files in the way of the commit as well.
def resetHard (target : RefName) : Option (Repo C Δ) :=
  (r.refs target).map fun c =>
    let tree := { untracked := r.tree.untracked.filter (!objects.covers c ·) }
    match r.head with
    | .branch b   => { r.setRef (.branch b) c with tree }
    | .detached _ => { r with head := .detached c, tree }

end Repo

variable {C Δ : Type}

-- The commit has the work in its history.
def Objects.Bears (objects : Objects C Δ) (tip : C) : Work C Δ → Prop
  | .commit c => c ∈ objects.history tip
  | .change δ => ∃ c ∈ objects.history tip, objects.brings c δ

-- The work can be reached from a ref, a stash entry or the working tree.
inductive Holds (objects : Objects C Δ) (r : Repo C Δ) : Work C Δ → Prop
  | ref {n tip w} (hn : r.refs n = some tip) (hb : objects.Bears tip w) : Holds objects r w
  | stashed {e w} (he : e ∈ r.stash) (hb : objects.Bears e.head w) : Holds objects r w
  | stash {e δ} (he : e ∈ r.stash) (hc : δ ∈ e.changes) : Holds objects r (.change δ)
  | tree {δ} (hc : δ ∈ r.tree.changes) : Holds objects r (.change δ)

variable {objects : Objects C Δ} {r r' : Repo C Δ} {w : Work C Δ} {n : RefName} {c tip : C}

-- Every ref that bears the work, the stash and the tree are found again, so the work is still held.
theorem Holds.transfer (h : Holds objects r w)
    (hr : ∀ n tip, r.refs n = some tip → objects.Bears tip w → Holds objects r' w)
    (hs : r.stash ⊆ r'.stash) (ht : ∀ δ ∈ r.tree.changes, Holds objects r' (.change δ)) :
    Holds objects r' w := by
  cases h
  case ref hn hb     => exact hr _ _ hn hb
  case stashed he hb => exact .stashed (hs he) hb
  case stash he hc   => exact .stash (hs he) hc
  case tree hc       => exact ht _ hc

-- The refs and the stash entries stay, and the changes stay or go to the stash.
structure Grows (r r' : Repo C Δ) : Prop where
  refs  : ∀ n tip, r.refs n = some tip → r'.refs n = some tip
  stash : r.stash ⊆ r'.stash
  tree  : ∀ δ ∈ r.tree.changes, δ ∈ r'.tree.changes ∨ ∃ e ∈ r'.stash, δ ∈ e.changes

namespace Grows

protected theorem refl : Grows r r :=
  ⟨fun _ _ => id, List.Subset.refl _, fun _ => .inl⟩

protected theorem trans {r'' : Repo C Δ} (h : Grows r r') (h' : Grows r' r'') : Grows r r'' where
  refs n tip hn := h'.refs n tip (h.refs n tip hn)
  stash         := List.Subset.trans h.stash h'.stash
  tree δ hc     := by
    obtain hc | ⟨e, he, hc⟩ := h.tree δ hc
    case inl => exact h'.tree δ hc
    case inr => exact .inr ⟨e, h'.stash he, hc⟩

theorem holds (h : Grows r r') (hw : Holds objects r w) : Holds objects r' w := by
  refine hw.transfer (fun n tip hn hb => .ref (h.refs n tip hn) hb) h.stash fun δ hc => ?_
  obtain hc | ⟨e, he, hc⟩ := h.tree δ hc
  case inl => exact .tree hc
  case inr => exact .stash he hc

theorem without (h : Grows r r') (lost : RefName → Bool) : Grows (r.without lost) (r'.without lost) where
  refs n tip hn := by
    simp only [Repo.without] at hn ⊢
    split at hn
    case isTrue     => contradiction
    case isFalse hl =>
      rw [if_neg hl]
      exact h.refs n tip hn
  stash         := h.stash
  tree          := h.tree

theorem head {head : Head C} : Grows r { r with head } :=
  ⟨fun _ _ => id, List.Subset.refl _, fun _ => .inl⟩

-- A ref that is new takes the place of none.
theorem setRef (hn : r.refs n = none) : Grows r (r.setRef n c) where
  refs m tip hm := by
    have hmn : m ≠ n := by
      rintro rfl
      simp [hn] at hm
    simpa [Repo.setRef, hmn] using hm
  stash         := List.Subset.refl _
  tree _        := .inl

-- The stash takes what it clears.
theorem stashPush {message : String} (hr : r.stashPush message = some r') : Grows r r' := by
  unfold Repo.stashPush at hr
  split at hr
  case isTrue  =>
    cases hr
    exact .refl
  case isFalse =>
    obtain ⟨c, -, rfl⟩ := Option.map_eq_some_iff.mp hr
    exact ⟨fun _ _ => id, List.subset_cons_self .., fun δ hc => .inr ⟨_, List.mem_cons_self .., hc⟩⟩

theorem checkout {name : String} (hr : r.checkout name = some r') : Grows r r' := by
  unfold Repo.checkout at hr
  split at hr
  case h_1 =>
    cases hr
    exact head
  case h_2 hn =>
    obtain ⟨c, -, rfl⟩ := Option.map_eq_some_iff.mp hr
    exact (setRef hn).trans head

theorem checkoutDetached (hr : r.checkoutDetached n = some r') : Grows r r' := by
  obtain ⟨c, -, rfl⟩ := Option.map_eq_some_iff.mp hr
  exact head

end Grows

theorem isClean_stashPush {message : String} (hr : r.stashPush message = some r') : r'.tree.isClean := by
  unfold Repo.stashPush at hr
  split at hr
  case isTrue hc =>
    cases hr
    exact hc
  case isFalse   =>
    obtain ⟨c, -, rfl⟩ := Option.map_eq_some_iff.mp hr
    rfl

theorem tree_checkout {name : String} (hr : r.checkout name = some r') : r'.tree = r.tree := by
  unfold Repo.checkout at hr
  split at hr
  case h_1 =>
    cases hr
    rfl
  case h_2 hn =>
    obtain ⟨c, -, rfl⟩ := Option.map_eq_some_iff.mp hr
    rfl

theorem tree_checkoutDetached (hr : r.checkoutDetached n = some r') : r'.tree = r.tree := by
  obtain ⟨c, -, rfl⟩ := Option.map_eq_some_iff.mp hr
  rfl

-- A branch that is moved there leaves everything else as it is, and the current branch its name.
theorem currentBranch_setRef {name : String} (hn : r.head ≠ .branch name) :
    (r.setRef (.branch name) c).currentBranch = r.currentBranch := by
  have hr {b} (hb : r.head = .branch b) : Function.update r.refs (.branch name) (some c) (.branch b) =
      r.refs (.branch b) := by
    refine Function.update_of_ne ?_ _ _
    rintro ⟨⟩
    exact hn hb
  unfold Repo.currentBranch Repo.setRef
  cases hh : r.head with
  | branch b   => simp only [hr hh]
  | detached d => rfl

theorem currentBranch_eq_some {name : String} (h : r.currentBranch = some name) :
    r.head = .branch name ∨ ∃ c, r.head = .detached c := by
  unfold Repo.currentBranch at h
  cases hh : r.head with
  | branch b   =>
    rw [hh] at h
    obtain ⟨c, -, rfl⟩ := Option.map_eq_some_iff.mp h
    exact .inl rfl
  | detached c => exact .inr ⟨c, rfl⟩

-- A reset moves the branch that is checked out, and no other ref.
theorem resetHard_refs (hr : r.resetHard objects n = some r') {m : RefName}
    (hm : ∀ b, r.head = .branch b → m ≠ .branch b) : r'.refs m = r.refs m := by
  obtain ⟨c, -, rfl⟩ := Option.map_eq_some_iff.mp hr
  dsimp only
  split
  case h_1 b hb => exact Function.update_of_ne (hm b hb) _ _
  case h_2      => rfl

theorem resetHard_tree (hr : r.resetHard objects n = some r') : r'.stash = r.stash ∧
    ∃ c, r.refs n = some c ∧ r'.tree = { untracked := r.tree.untracked.filter (!objects.covers c ·) } := by
  obtain ⟨c, hc, rfl⟩ := Option.map_eq_some_iff.mp hr
  dsimp only
  split <;> exact ⟨rfl, c, hc, rfl⟩

end Git
