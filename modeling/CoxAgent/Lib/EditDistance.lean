import Mathlib.Data.List.Basic
import Mathlib.Order.Bounds.Basic
import Mathlib.Order.MinMax

-- The least number of insertions, deletions and substitutions of one element that turn a list into another.
namespace EditDistance

variable {α : Type}

inductive Edit : List α → List α → Prop
  | insert (l m : List α) (a : α)       : Edit (l ++ m) (l ++ a :: m)
  | delete (l m : List α) (a : α)       : Edit (l ++ a :: m) (l ++ m)
  | substitute (l m : List α) (a b : α) : Edit (l ++ a :: m) (l ++ b :: m)

inductive Edits : Nat → List α → List α → Prop
  | refl {l}       : Edits 0 l l
  | step {n l m k} : Edit l m → Edits n m k → Edits (n + 1) l k

section Script

variable {l m k : List α} {a b : α} {n n' : Nat}

theorem Edit.symm (h : Edit l m) : Edit m l := by
  cases h
  case insert l m a       => exact .delete l m a
  case delete l m a       => exact .insert l m a
  case substitute l m a b => exact .substitute l m b a

theorem Edit.cons (c : α) (h : Edit l m) : Edit (c :: l) (c :: m) := by
  cases h
  case insert l m a       => exact .insert (c :: l) m a
  case delete l m a       => exact .delete (c :: l) m a
  case substitute l m a b => exact .substitute (c :: l) m a b

theorem Edit.reverse (h : Edit l m) : Edit l.reverse m.reverse := by
  cases h
  case insert l m a       => simpa using Edit.insert m.reverse l.reverse a
  case delete l m a       => simpa using Edit.delete m.reverse l.reverse a
  case substitute l m a b => simpa using Edit.substitute m.reverse l.reverse a b

namespace Edits

theorem trans (h : Edits n l m) (h' : Edits n' m k) : Edits (n + n') l k := by
  induction h
  case refl            => rwa [Nat.zero_add]
  case step n _ _ _ he _ hi =>
    rw [Nat.succ_add]
    exact .step he (hi h')

theorem symm (h : Edits n l m) : Edits n m l := by
  induction h
  case refl            => exact .refl
  case step he _ hi => exact hi.trans (.step he.symm .refl)

theorem cons (c : α) (h : Edits n l m) : Edits n (c :: l) (c :: m) := by
  induction h
  case refl         => exact .refl
  case step he _ hi => exact .step (he.cons c) hi

theorem reverse (h : Edits n l m) : Edits n l.reverse m.reverse := by
  induction h
  case refl         => exact .refl
  case step he _ hi => exact .step he.reverse hi

theorem delete_head (h : Edits n l m) : Edits (n + 1) (a :: l) m :=
  .step (.delete [] l a) h

theorem insert_head (h : Edits n l m) : Edits (n + 1) l (b :: m) :=
  h.trans (.step (.insert [] m b) .refl)

theorem nil_left : Edits m.length [] m := by
  induction m
  case nil         => exact .refl
  case cons b m hi => exact hi.insert_head

end Edits

end Script

variable [DecidableEq α]

-- By the first elements of the two lists.
def dist : List α → List α → Nat
  | [], bs           => bs.length
  | as, []           => as.length
  | a :: as, b :: bs =>
    min (min (dist as (b :: bs) + 1) (dist (a :: as) bs + 1)) (dist as bs + if a = b then 0 else 1)
termination_by as bs => as.length + bs.length

section Dist

variable {l m k : List α} {a b : α} {n : Nat}

@[simp]
theorem dist_nil_left (m : List α) : dist [] m = m.length := by
  rw [dist]

@[simp]
theorem dist_nil_right (l : List α) : dist l [] = l.length := by
  cases l
  case nil  => rw [dist]
  case cons =>
    rw [dist]
    simp

theorem dist_cons_cons : dist (a :: l) (b :: m) =
    min (min (dist l (b :: m) + 1) (dist (a :: l) m + 1)) (dist l m + if a = b then 0 else 1) := by
  rw [dist]

theorem dist_cons_left_le : dist (a :: l) m ≤ dist l m + 1 := by
  cases m
  case nil  => simp
  case cons =>
    rw [dist_cons_cons]
    omega

theorem dist_cons_right_le : dist l (b :: m) ≤ dist l m + 1 := by
  cases l
  case nil  => simp
  case cons =>
    rw [dist_cons_cons]
    omega

theorem le_dist_cons_left : dist l m ≤ dist (a :: l) m + 1 := by
  induction m
  case nil         =>
    rw [dist_nil_right, dist_nil_right, List.length_cons]
    omega
  case cons b m hi =>
    have hb : dist l (b :: m) ≤ dist l m + 1 := dist_cons_right_le
    rw [dist_cons_cons]
    omega

theorem dist_cons_le_cons : dist (a :: l) m ≤ dist (b :: l) m + 1 := by
  induction m
  case nil         => simp
  case cons c m hi =>
    rw [dist_cons_cons, dist_cons_cons]
    split <;> split <;> omega

-- What an edit changes by one at most, it changes by one at most behind a common element.
theorem dist_cons_le_of_forall (h : ∀ k, dist l k ≤ dist m k + 1) :
    dist (a :: l) k ≤ dist (a :: m) k + 1 := by
  induction k
  case nil         => simpa using h []
  case cons b k hi =>
    have hb := h (b :: k)
    have hk := h k
    rw [dist_cons_cons, dist_cons_cons]
    omega

theorem dist_append_le_of_forall {p : List α} (h : ∀ k, dist l k ≤ dist m k + 1) (k : List α) :
    dist (p ++ l) k ≤ dist (p ++ m) k + 1 := by
  induction p generalizing k
  case nil         => exact h k
  case cons a p hi => exact dist_cons_le_of_forall hi

theorem dist_le_of_edit (h : Edit l m) : dist l k ≤ dist m k + 1 := by
  cases h
  case insert       => exact dist_append_le_of_forall (fun _ => le_dist_cons_left) k
  case delete       => exact dist_append_le_of_forall (fun _ => dist_cons_left_le) k
  case substitute   => exact dist_append_le_of_forall (fun _ => dist_cons_le_cons) k

@[simp]
theorem dist_self : dist l l = 0 := by
  induction l
  case nil         => simp
  case cons a l hi => simp [dist_cons_cons, hi]

theorem dist_le_of_edits (h : Edits n l m) : dist l m ≤ n := by
  induction h
  case refl         => simp
  case step he _ hi => exact (dist_le_of_edit he).trans (Nat.succ_le_succ hi)

theorem edits_dist (l m : List α) : Edits (dist l m) l m := by
  induction l, m using dist.induct
  case case1 m =>
    rw [dist_nil_left]
    exact Edits.nil_left
  case case2 l _ =>
    rw [dist_nil_right]
    exact Edits.nil_left.symm
  case case3 a l b m hdelete hinsert hsame =>
    rw [dist_cons_cons]
    rcases min_choice (min (dist l (b :: m) + 1) (dist (a :: l) m + 1)) (dist l m + if a = b then 0 else 1) with h | h
    case inl =>
      rw [h]
      rcases min_choice (dist l (b :: m) + 1) (dist (a :: l) m + 1) with h | h
      case inl =>
        rw [h]
        exact hdelete.delete_head
      case inr =>
        rw [h]
        exact hinsert.insert_head
    case inr =>
      rw [h]
      split
      case isTrue hab  => exact hab ▸ hsame.cons a
      case isFalse hab => exact .step (.substitute [] l a b) (hsame.cons b)

-- The recursion finds the least number of edits.
theorem isLeast_dist (l m : List α) : IsLeast {n | Edits n l m} (dist l m) :=
  ⟨edits_dist l m, fun _ => dist_le_of_edits⟩

theorem dist_comm (l m : List α) : dist l m = dist m l :=
  le_antisymm (dist_le_of_edits (edits_dist m l).symm) (dist_le_of_edits (edits_dist l m).symm)

theorem dist_triangle (l m k : List α) : dist l k ≤ dist l m + dist m k :=
  dist_le_of_edits ((edits_dist l m).trans (edits_dist m k))

theorem dist_eq_zero_iff : dist l m = 0 ↔ l = m := by
  constructor
  case mp =>
    intro h
    cases h ▸ edits_dist l m
    rfl
  case mpr =>
    rintro rfl
    exact dist_self

theorem dist_le_max (l m : List α) : dist l m ≤ max l.length m.length := by
  induction l, m using dist.induct
  case case1 => simp
  case case2 => simp
  case case3 =>
    rw [dist_cons_cons, List.length_cons, List.length_cons]
    split <;> omega

theorem dist_reverse (l m : List α) : dist l.reverse m.reverse = dist l m := by
  refine le_antisymm (dist_le_of_edits (edits_dist l m).reverse) ?_
  have h := (edits_dist l.reverse m.reverse).reverse
  rw [List.reverse_reverse, List.reverse_reverse] at h
  exact dist_le_of_edits h

end Dist

section Rows

-- The distances of a list to those that begin with `pre` and go on into `bs`. The lists are read backwards.
def row (x pre : List α) : List α → List Nat
  | []      => []
  | b :: bs => dist x (b :: pre) :: row x (b :: pre) bs

variable {x pre bs : List α}

theorem getLastD_row {d : Nat} : (row x pre bs).getLastD d = if bs = [] then d else dist x (bs.reverse ++ pre) := by
  induction bs generalizing pre d
  case nil          => rfl
  case cons b bs hi =>
    rw [row, List.getLastD_cons, hi]
    by_cases hb : bs = [] <;> simp [hb]

end Rows

end EditDistance
