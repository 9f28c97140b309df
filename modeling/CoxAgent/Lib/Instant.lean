import CoxAgent.Lib.Text
import Mathlib.Algebra.Order.Field.Rat
import Mathlib.Data.List.Lex
import Mathlib.Order.Fin.Basic
import Mathlib.Tactic.Linarith

-- An instant in UTC, where the fraction of a second has any number of digits.
structure Instant where
  year       : Nat
  month      : Nat
  day        : Nat
  hour       : Nat
  minute     : Nat
  second     : Nat
  fraction   : List (Fin 10) := []
  year_lt    : year < 10000
  month_le   : 1 ≤ month ∧ month ≤ 12
  day_le     : 1 ≤ day ∧ day ≤ 31
  hour_lt    : hour < 24
  minute_lt  : minute < 60
  second_lt  : second < 60

namespace Instant

open Text

section Definitions

variable (i j : Instant)

-- The fields down to the second, where the first one that differs decides.
def clock : List Nat :=
  [i.year, i.month, i.day, i.hour, i.minute, i.second]

def value : List (Fin 10) → ℚ
  | []      => 0
  | d :: ds => (d + value ds) / 10

def Before : Prop :=
  i.clock < j.clock ∨ i.clock = j.clock ∧ value i.fraction < value j.fraction

def digit (d : Fin 10) : Char :=
  Nat.digitChar d

def digits (ds : List (Fin 10)) : List Char :=
  ds.map digit

-- The text without a fraction has no point either.
def rfc3339 : String := .ofList <|
  zeroPad 4 i.year ++ '-' :: (zeroPad 2 i.month ++ '-' :: (zeroPad 2 i.day ++ 'T' ::
    (zeroPad 2 i.hour ++ ':' :: (zeroPad 2 i.minute ++ ':' :: (zeroPad 2 i.second ++
      ((if i.fraction = [] then [] else '.' :: digits i.fraction) ++ ['Z']))))))

-- What is before the fraction, without what separates the fields.
def stamp : List Char :=
  zeroPad 4 i.year ++ (zeroPad 2 i.month ++ (zeroPad 2 i.day ++ 'T' ::
    (zeroPad 2 i.hour ++ (zeroPad 2 i.minute ++ zeroPad 2 i.second))))

-- The later one of two instants in a second has the digits of the earlier one and more.
def Extends : Prop :=
  i.clock = j.clock ∧ i.fraction <+: j.fraction ∧ value i.fraction < value j.fraction

end Definitions

section Lex

variable {x y a b : List Char}

theorem append_lt_append (h : a < b) (hl : a.length = b.length) : a ++ x < b ++ y := by
  induction a generalizing b
  case nil         =>
    rw [List.eq_nil_of_length_eq_zero hl.symm] at h
    exact absurd h (lt_irrefl _)
  case cons c a hi =>
    obtain ⟨d, b, rfl⟩ := List.exists_cons_of_length_eq_add_one hl.symm
    rw [List.cons_append, List.cons_append, List.cons_lt_cons_iff]
    rcases List.cons_lt_cons_iff.mp h with h | ⟨h, hab⟩
    case inl => exact .inl h
    case inr => exact .inr ⟨h, hi hab (Nat.succ.inj hl)⟩

theorem digitChar_lt {m n : Nat} (h : m < n) (hn : n < 10) : m.digitChar < n.digitChar := by
  have hd : ∀ n < 10, ∀ m < n, m.digitChar < n.digitChar := by decide
  exact hd n hn m h

end Lex

section ZeroPad

variable {w m n : Nat} {x y : List Char}

theorem zeroPad_one (h : n < 10) : zeroPad 1 n = [n.digitChar] := by
  simp [zeroPad, Nat.toDigits_of_lt_base h]

theorem zeroPad_succ (hw : 0 < w) : zeroPad (w + 1) n = zeroPad w (n / 10) ++ [(n % 10).digitChar] := by
  by_cases h : n < 10
  case pos =>
    have ⟨v, hv⟩ := Nat.exists_eq_succ_of_ne_zero hw.ne'
    subst hv
    simp [zeroPad, Nat.toDigits_of_lt_base h, Nat.div_eq_of_lt h, Nat.mod_eq_of_lt h, Nat.toDigits_zero,
      List.replicate_succ']
  case neg => simp [zeroPad, Nat.toDigits_of_base_le (by decide) (Nat.not_lt.mp h)]

theorem length_zeroPad (hw : 0 < w) (h : n < 10 ^ w) : (zeroPad w n).length = w := by
  induction w, hw using Nat.le_induction generalizing n
  case base          => rw [zeroPad_one (by simpa using h), List.length_singleton]
  case succ w hw hi =>
    have hn : n / 10 < 10 ^ w := by omega
    rw [zeroPad_succ hw, List.length_append, hi hn, List.length_singleton]

theorem zeroPad_lt (hw : 0 < w) (hn : n < 10 ^ w) (h : m < n) : zeroPad w m < zeroPad w n := by
  induction w, hw using Nat.le_induction generalizing m n
  case base         =>
    have hn : n < 10 := by simpa using hn
    rw [zeroPad_one hn, zeroPad_one (h.trans hn), List.cons_lt_cons_iff]
    exact .inl (digitChar_lt h hn)
  case succ w hw hi =>
    have hn' : n / 10 < 10 ^ w := by omega
    rw [zeroPad_succ hw, zeroPad_succ hw]
    by_cases hd : m / 10 < n / 10
    case pos =>
      refine append_lt_append (hi hn' hd) ?_
      rw [length_zeroPad hw hn', length_zeroPad hw (hd.trans hn')]
    case neg =>
      have he : m / 10 = n / 10 := by omega
      rw [he]
      refine List.append_left_lt ?_
      rw [List.cons_lt_cons_iff]
      exact .inl (digitChar_lt (by omega) (by omega))

-- Fields of the same width compare as their numbers do.
theorem zeroPad_append_lt (hw : 0 < w) (hm : m < 10 ^ w) (hn : n < 10 ^ w) (h : m < n ∨ m = n ∧ x < y) :
    zeroPad w m ++ x < zeroPad w n ++ y := by
  rcases h with h | ⟨rfl, h⟩
  case inl =>
    refine append_lt_append (zeroPad_lt hw hn h) ?_
    rw [length_zeroPad hw hm, length_zeroPad hw hn]
  case inr => exact List.append_left_lt h

end ZeroPad

section Fraction

variable {d e : Fin 10} {f g : List (Fin 10)} {x y : List Char}

theorem value_nonneg : 0 ≤ value f := by
  induction f
  case nil         => exact le_rfl
  case cons d f hi =>
    have hd : (0 : ℚ) ≤ d := Nat.cast_nonneg _
    rw [value]
    linarith

theorem value_lt_one : value f < 1 := by
  induction f
  case nil         => exact zero_lt_one
  case cons d f hi =>
    have hd : (d : ℚ) ≤ 9 := by exact_mod_cast Nat.le_of_lt_succ d.isLt
    rw [value]
    linarith

theorem value_cons_lt_of_lt (h : d < e) : value (d :: f) < value (e :: g) := by
  have hde : (d : ℚ) + 1 ≤ e := by exact_mod_cast h
  have hf : value f < 1 := value_lt_one
  have hg : 0 ≤ value g := value_nonneg
  rw [value, value]
  linarith

theorem value_cons_lt_cons_self : value (d :: f) < value (d :: g) ↔ value f < value g := by
  rw [value, value, div_lt_div_iff_of_pos_right (by norm_num), add_lt_add_iff_left]

theorem value_cons_lt (h : value (d :: f) < value (e :: g)) : d < e ∨ d = e ∧ value f < value g := by
  rcases lt_trichotomy d e with hd | rfl | hd
  case inl     => exact .inl hd
  case inr.inl => exact .inr ⟨rfl, value_cons_lt_cons_self.mp h⟩
  case inr.inr => exact absurd h (value_cons_lt_of_lt hd).not_gt

theorem digits_lt (hv : value f < value g) :
    digits f ++ 'Z' :: x < digits g ++ 'Z' :: y ∨ f <+: g := by
  induction f generalizing g
  case nil         => exact .inr List.nil_prefix
  case cons d f hi =>
    cases g
    case nil      => exact absurd hv value_nonneg.not_gt
    case cons e g =>
      rcases value_cons_lt hv with hd | ⟨rfl, hfg⟩
      case inl => exact .inl (List.cons_lt_cons_iff.mpr (.inl (digitChar_lt hd e.isLt)))
      case inr =>
        cases hi hfg
        case inl hl => exact .inl (List.cons_lt_cons_iff.mpr (.inr ⟨rfl, hl⟩))
        case inr hp => exact .inr (List.cons_prefix_cons.mpr ⟨rfl, hp⟩)

end Fraction

section Order

variable {i j : Instant} {x y : List Char}

theorem stamp_congr (h : i.clock = j.clock) : i.stamp = j.stamp := by
  simp only [clock, List.cons.injEq, and_true] at h
  obtain ⟨h₁, h₂, h₃, h₄, h₅, h₆⟩ := h
  rw [stamp, h₁, h₂, h₃, h₄, h₅, h₆, stamp]

theorem stamp_lt (h : i.clock < j.clock) : i.stamp ++ x < j.stamp ++ y := by
  simp only [clock, List.cons_lt_cons_iff, lt_self_iff_false, and_false, or_false] at h
  simp only [stamp, List.append_assoc, List.cons_append]
  have ⟨_, hmonth⟩ := i.month_le
  have ⟨_, hmonth'⟩ := j.month_le
  have ⟨_, hday⟩ := i.day_le
  have ⟨_, hday'⟩ := j.day_le
  have hhour := i.hour_lt
  have hhour' := j.hour_lt
  have hminute := i.minute_lt
  have hminute' := j.minute_lt
  have hsecond := i.second_lt
  have hsecond' := j.second_lt
  refine zeroPad_append_lt (by decide) i.year_lt j.year_lt (h.imp_right (And.imp_right fun h => ?_))
  refine zeroPad_append_lt (by decide) (by omega) (by omega) (h.imp_right (And.imp_right fun h => ?_))
  refine zeroPad_append_lt (by decide) (by omega) (by omega) (h.imp_right (And.imp_right fun h => ?_))
  refine List.cons_lt_cons_iff.mpr (.inr ⟨rfl, ?_⟩)
  refine zeroPad_append_lt (by decide) (by omega) (by omega) (h.imp_right (And.imp_right fun h => ?_))
  refine zeroPad_append_lt (by decide) (by omega) (by omega) (h.imp_right (And.imp_right fun h => ?_))
  exact zeroPad_append_lt (by decide) (by omega) (by omega) (.inl h)

-- Of two instants the text of the later one comes later, unless it extends the earlier one.
theorem text_lt (h : i.Before j) :
    i.stamp ++ (digits i.fraction ++ 'Z' :: x) < j.stamp ++ (digits j.fraction ++ 'Z' :: y) ∨ i.Extends j := by
  cases h
  case inl h => exact .inl (stamp_lt h)
  case inr h =>
    cases digits_lt (x := x) (y := y) h.right
    case inl hl =>
      rw [stamp_congr h.left]
      exact .inl (List.append_left_lt hl)
    case inr hp => exact .inr ⟨h.left, hp, h.right⟩

theorem Extends.before (h : i.Extends j) : i.Before j :=
  .inr ⟨h.left, h.right.right⟩

end Order

end Instant
