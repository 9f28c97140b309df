import CoxAgent.Lib.Replace
import Mathlib.Data.List.Infix

-- Paths of segments, of which each follows a separator.
namespace Segments

variable {α : Type} (sep : α)

def join (segs : List (List α)) : List α :=
  segs.flatMap (sep :: ·)

variable {sep} {segs : List (List α)} {s w l : List α}

@[simp]
theorem join_nil : join sep [] = [] :=
  rfl

@[simp]
theorem join_cons : join sep (s :: segs) = sep :: (s ++ join sep segs) :=
  rfl

@[simp]
theorem join_append {segs' : List (List α)} : join sep (segs ++ segs') = join sep segs ++ join sep segs' :=
  List.flatMap_append

-- A word without separators that starts a path of segments is in the first of them.
theorem prefix_append_join (hw : sep ∉ w) : w <+: s ++ join sep segs ↔ w <+: s := by
  cases segs
  case nil         => rw [join_nil, List.append_nil]
  case cons t segs =>
    refine ⟨fun h => ?_, fun h => h.trans (List.prefix_append s _)⟩
    by_cases hl : w.length ≤ s.length
    case pos => exact List.prefix_of_prefix_length_le h (List.prefix_append s _) hl
    case neg =>
      -- The word would go on beyond the separator.
      have hp : s ++ [sep] <+: w :=
        List.prefix_of_prefix_length_le ⟨t ++ join sep segs, by simp⟩ h (by simp; omega)
      exact absurd (hp.subset (List.mem_append_right s List.mem_cons_self)) hw

theorem infix_append_join (hs : sep ∉ s) : sep :: w <:+: s ++ l ↔ sep :: w <:+: l := by
  induction s
  case nil         => rfl
  case cons c s hi =>
    have ⟨hc, hs⟩ := not_or.mp (List.mem_cons.not.mp hs)
    rw [List.cons_append, List.infix_cons_iff, List.cons_prefix_cons, hi hs]
    exact or_iff_right fun h => hc h.left

-- A path has a separator and then a word iff one of its segments starts with the word.
theorem infix_join_iff (hs : ∀ s ∈ segs, sep ∉ s) (hw : sep ∉ w) :
    sep :: w <:+: join sep segs ↔ ∃ s ∈ segs, w <+: s := by
  induction segs
  case nil            => simp [List.infix_nil]
  case cons s segs hi =>
    have ⟨hsep, hs⟩ := List.forall_mem_cons.mp hs
    rw [join_cons, List.infix_cons_iff, List.cons_prefix_cons, prefix_append_join hw, infix_append_join hsep, hi hs,
      List.exists_mem_cons_iff]
    simp

-- A word and then a separator start a path of segments iff the word is the first of them, and not the last.
theorem prefix_sep_append_join (hs : sep ∉ s) (hw : sep ∉ w) :
    w ++ [sep] <+: s ++ join sep segs ↔ w = s ∧ segs ≠ [] := by
  cases segs
  case nil =>
    refine iff_of_false (fun h => hs ?_) (by simp)
    rw [join_nil, List.append_nil] at h
    exact h.subset (List.mem_append_right w List.mem_cons_self)
  case cons t segs =>
    constructor
    case mp =>
      rintro ⟨l, hl⟩
      rw [List.append_assoc, List.singleton_append, join_cons] at hl
      exact ⟨(Text.sep_append_inj hw hs hl).left, by simp⟩
    case mpr =>
      rintro ⟨rfl, -⟩
      exact ⟨t ++ join sep segs, by simp⟩

-- The same for a word that is a whole segment, and not the last one.
theorem infix_join_sep_iff (hs : ∀ s ∈ segs, sep ∉ s) (hw : sep ∉ w) :
    sep :: (w ++ [sep]) <:+: join sep segs ↔ w ∈ segs.dropLast := by
  induction segs
  case nil            => simp [List.infix_nil]
  case cons s segs hi =>
    have ⟨hsep, hs⟩ := List.forall_mem_cons.mp hs
    rw [join_cons, List.infix_cons_iff, List.cons_prefix_cons, prefix_sep_append_join hsep hw, infix_append_join hsep,
      hi hs]
    cases segs <;> simp

-- A path ends with a separator and then a word iff the word is its last segment.
theorem suffix_join_iff (hs : ∀ s ∈ segs, sep ∉ s) (hw : sep ∉ w) :
    sep :: w <:+ join sep segs ↔ segs.getLast? = some w := by
  induction segs using List.reverseRecOn
  case nil                       => simp
  case append_singleton segs s _ =>
    have hsep : sep ∉ s := hs s (List.mem_append_right _ (List.mem_singleton_self s))
    rw [join_append, join_cons, join_nil, List.append_nil, List.getLast?_concat, Option.some_inj]
    constructor
    case mp =>
      rintro ⟨l, hl⟩
      have hr := congrArg List.reverse hl
      simp only [List.reverse_append, List.reverse_cons, List.append_assoc, List.singleton_append] at hr
      have hr' := Text.sep_append_inj (by rwa [List.mem_reverse]) (by rwa [List.mem_reverse]) hr
      exact (List.reverse_inj.mp hr'.left).symm
    case mpr =>
      rintro rfl
      exact List.suffix_append _ _

section First

variable [DecidableEq α] (hs : sep ∉ s)
include hs

theorem takeWhile_append_join : (s ++ join sep segs).takeWhile (· ≠ sep) = s := by
  have hne : ∀ a ∈ s, decide (a ≠ sep) := fun a ha => decide_eq_true (ne_of_mem_of_not_mem ha hs)
  rw [List.takeWhile_append_of_pos hne]
  cases segs <;> simp

theorem dropWhile_append_join : (s ++ join sep segs).dropWhile (· ≠ sep) = join sep segs := by
  have hne : ∀ a ∈ s, decide (a ≠ sep) := fun a ha => decide_eq_true (ne_of_mem_of_not_mem ha hs)
  rw [List.dropWhile_append_of_pos hne]
  cases segs <;> simp

end First

-- A word without separators is a path of one segment, after its separator.
theorem append_join_eq_iff (hw : sep ∉ w) : s ++ join sep segs = w ↔ s = w ∧ segs = [] := by
  constructor
  case mp =>
    rintro rfl
    cases segs
    case nil  => simp
    case cons => simp at hw
  case mpr =>
    rintro ⟨rfl, rfl⟩
    rw [join_nil, List.append_nil]

end Segments
