import Mathlib.Data.List.Basic
import Mathlib.Data.List.Induction

-- A latch: some events set it, others reset it, and it keeps its state in between. Hysteresis is a latch
-- that is set above one threshold and reset below another.
structure Latch (ε : Type) where
  set   : ε → Bool
  reset : ε → Bool

namespace Latch

variable {ε : Type} (l : Latch ε)

def next (on : Bool) (e : ε) : Bool :=
  l.set e || on && !l.reset e

-- The latch is on if it was set, or on from the start, and no event since has reset it.
def OnAfter (on : Bool) (es : List ε) : Prop :=
  (on ∧ ∀ e ∈ es, !l.reset e) ∨
    ∃ pre e post, es = pre ++ e :: post ∧ l.set e ∧ ∀ e ∈ post, !l.reset e

variable {l} {on : Bool} {e : ε} {es : List ε}

theorem onAfter_snoc : l.OnAfter on (es ++ [e]) ↔ l.set e ∨ l.OnAfter on es ∧ !l.reset e := by
  constructor
  case mp =>
    rintro (⟨ho, hr⟩ | ⟨pre, e', post, he, hs, hr⟩)
    case inl =>
      rw [List.forall_mem_append] at hr
      exact .inr ⟨.inl ⟨ho, hr.left⟩, hr.right e (by simp)⟩
    case inr =>
      induction post using List.reverseRecOn
      case nil =>
        obtain ⟨-, he⟩ := List.append_inj' he rfl
        cases he
        exact .inl hs
      case append_singleton post x _ =>
        rw [← List.cons_append, ← List.append_assoc] at he
        obtain ⟨hes, hx⟩ := List.append_inj' he rfl
        cases hx
        rw [List.forall_mem_append] at hr
        exact .inr ⟨.inr ⟨pre, e', post, hes, hs, hr.left⟩, hr.right e (by simp)⟩
  case mpr =>
    rintro (hs | ⟨⟨ho, hr⟩ | ⟨pre, e', post, rfl, hs, hr⟩, he⟩)
    case inl     => exact .inr ⟨es, e, [], rfl, hs, by simp⟩
    case inr.inl => exact .inl ⟨ho, List.forall_mem_append.mpr ⟨hr, by simpa using he⟩⟩
    case inr.inr =>
      exact .inr ⟨pre, e', post ++ [e], by simp, hs, List.forall_mem_append.mpr ⟨hr, by simpa using he⟩⟩

theorem foldl_next : es.foldl l.next on ↔ l.OnAfter on es := by
  induction es using List.reverseRecOn
  case nil => simp [OnAfter]
  case append_singleton es e hi =>
    rw [List.foldl_append, List.foldl_cons, List.foldl_nil, onAfter_snoc, ← hi]
    simp [next]

end Latch

-- A counter with a bound. Some events raise it by one and others reset it.
structure Streak (ε : Type) where
  raises   : ε → Bool
  resets   : ε → Bool
  cap      : Nat
  disjoint : ∀ e, raises e → ¬resets e

namespace Streak

variable {ε : Type} (c : Streak ε)

def next (n : Nat) (e : ε) : Nat :=
  if c.raises e then min (n + 1) c.cap
  else if c.resets e then 0
  else n

-- One more brings the counter to the threshold.
def Short (threshold n : Nat) : Prop :=
  min (n + 1) c.cap = threshold

-- After these events the counter is as short of the threshold as before.
def Refinds (threshold : Nat) (es : List ε) : Prop :=
  (∃ before e after, es = before ++ e :: after ∧ c.resets e ∧ (∀ x ∈ after, ¬c.resets x) ∧
      min (after.countP c.raises + 1) c.cap = threshold) ∨
    (∀ x ∈ es, ¬c.resets x) ∧ ((∀ x ∈ es, ¬c.raises x) ∨ threshold = c.cap)

variable {c} {n threshold : Nat} {e : ε} {es before after : List ε}

theorem next_le (h : n ≤ c.cap) : c.next n e ≤ c.cap := by
  grind [next]

theorem next_of_raises (h : c.raises e) : c.next n e = min (n + 1) c.cap :=
  if_pos h

theorem next_of_resets (h : c.resets e) : c.next n e = 0 := by
  have hr : ¬c.raises e := fun hr => c.disjoint e hr h
  rw [next, if_neg hr, if_pos h]

theorem next_of_neither (hr : ¬c.raises e) (h : ¬c.resets e) : c.next n e = n := by
  rw [next, if_neg hr, if_neg h]

theorem foldl_le (h : n ≤ c.cap) : es.foldl c.next n ≤ c.cap := by
  induction es generalizing n
  case nil          => exact h
  case cons e es hi => exact hi (next_le h)

-- Without a reset the counter counts.
theorem foldl_of_forall (hr : ∀ e ∈ es, ¬c.resets e) (hn : n ≤ c.cap) :
    es.foldl c.next n = min (n + es.countP c.raises) c.cap := by
  induction es generalizing n
  case nil          => simp [hn]
  case cons e es hi =>
    have ⟨he, hes⟩ := List.forall_mem_cons.mp hr
    rw [List.foldl_cons, hi hes (next_le hn)]
    by_cases h : c.raises e
    case pos =>
      rw [next_of_raises h, List.countP_cons_of_pos h]
      omega
    case neg => rw [next_of_neither h he, List.countP_cons_of_neg h]

-- After the last reset it counts anew.
theorem foldl_of_reset (he : c.resets e) (ha : ∀ x ∈ after, ¬c.resets x) :
    (before ++ e :: after).foldl c.next n = min (after.countP c.raises) c.cap := by
  rw [List.foldl_append, List.foldl_cons, next_of_resets he, foldl_of_forall ha (Nat.zero_le _), Nat.zero_add]

theorem exists_last_reset (h : ∃ e ∈ es, c.resets e) :
    ∃ before e after, es = before ++ e :: after ∧ c.resets e ∧ ∀ x ∈ after, ¬c.resets x := by
  induction es
  case nil          => simp at h
  case cons e es hi =>
    by_cases hes : ∃ e ∈ es, c.resets e
    case pos =>
      have ⟨before, e', after, hs, he', ha⟩ := hi hes
      exact ⟨e :: before, e', after, by rw [hs, List.cons_append], he', ha⟩
    case neg =>
      have hes : ∀ x ∈ es, ¬c.resets x := by simpa using hes
      have he : c.resets e := by
        obtain ⟨e', hm, he'⟩ := h
        rcases List.mem_cons.mp hm with rfl | hm
        · exact he'
        · exact absurd he' (hes e' hm)
      exact ⟨[], e, es, rfl, he, hes⟩

-- Where the counter finds itself short of the threshold a second time.
theorem short_foldl_iff (hn : n ≤ c.cap) (h : c.Short threshold n) :
    c.Short threshold (es.foldl c.next n) ↔ c.Refinds threshold es := by
  unfold Short at *
  constructor
  case mp =>
    intro hs
    by_cases hr : ∃ e ∈ es, c.resets e
    case pos =>
      obtain ⟨before, e, after, rfl, he, ha⟩ := exists_last_reset hr
      rw [foldl_of_reset he ha] at hs
      exact .inl ⟨before, e, after, rfl, he, ha, by omega⟩
    case neg =>
      have hr : ∀ x ∈ es, ¬c.resets x := by simpa using hr
      rw [foldl_of_forall hr hn] at hs
      refine .inr ⟨hr, ?_⟩
      rw [← List.countP_eq_zero (p := c.raises)]
      omega
  case mpr =>
    rintro (⟨before, e, after, rfl, he, ha, hs⟩ | ⟨hr, hs⟩)
    case inl =>
      rw [foldl_of_reset he ha]
      omega
    case inr =>
      rw [foldl_of_forall hr hn]
      rw [← List.countP_eq_zero (p := c.raises)] at hs
      omega

-- As long as nothing raises it to the threshold the counter stays below.
theorem foldl_lt (ht : threshold ≤ c.cap) (hn : n < threshold)
    (hs : ∀ pre e post, es = pre ++ e :: post → c.raises e → ¬c.Short threshold (pre.foldl c.next n)) :
    es.foldl c.next n < threshold := by
  induction es generalizing n
  case nil          => exact hn
  case cons e es hi =>
    have hne : c.next n e < threshold := by
      have hse := hs [] e es rfl
      simp only [List.foldl_nil, Short] at hse
      grind [next]
    refine hi hne fun pre e' post hes hr => ?_
    exact hs (e :: pre) e' post (by rw [hes, List.cons_append]) hr

-- Enough events that raise the counter, with no reset between them, bring it to the threshold.
theorem exists_short (ht : threshold ≤ c.cap) (hn : n < threshold) (hb : ∀ x ∈ after, ¬c.resets x)
    (hc : threshold ≤ after.countP c.raises) (hes : es = before ++ after) :
    ∃ pre e post, es = pre ++ e :: post ∧ c.raises e ∧ c.Short threshold (pre.foldl c.next n) := by
  by_contra hno
  push Not at hno
  have hlt := foldl_lt ht hn fun pre e post he hr => hno pre e post he hr
  rw [hes, List.foldl_append, foldl_of_forall hb (foldl_le (by omega))] at hlt
  omega

end Streak
