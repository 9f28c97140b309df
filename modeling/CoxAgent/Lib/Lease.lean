import Mathlib.Data.List.Basic
import Mathlib.Logic.Function.Basic

-- Instants of which one can tell whether a lease that was granted at the first has run out at the
-- second. A lease that has run out stays so.
structure LeaseClock (T : Type) where
  before       : T → T → Prop
  expired      : T → T → Bool
  expired_mono : ∀ {a n n'}, expired a n → before n n' → expired a n'

namespace LeaseClock

variable {W T : Type} (k : LeaseClock T)

-- The leases that still run.
def live (n : T) (slot : List (W × T)) : List (W × T) :=
  slot.filter fun l => !k.expired l.2 n

-- What can happen at the instant `n` to the leases that are stored for one resource, and who is told to
-- have been granted one.
inductive Step (n : T) : List (W × T) → Option W → List (W × T) → Prop
  | keep {slot} : Step n slot none slot
  | prune {slot} : Step n slot none (k.live n slot)
  | grant {slot} {w : W} : (∀ l ∈ (k.live n slot).head?, l.1 = w) → Step n slot (some w) [(w, n)]

-- Whoever was told to have been granted a lease has the only one that is stored, or it has run out.
def Sound (now : T) (slot : List (W × T)) (told : W → Option T) : Prop :=
  ∀ w a, told w = some a → slot = [(w, a)] ∨ k.expired a now

variable {k} {n now : T} {slot slot' : List (W × T)} {told told' : W → Option T} {w w' : W} {a a' : T}

@[simp]
theorem live_nil : k.live n ([] : List (W × T)) = [] :=
  rfl

theorem live_singleton : k.live n [(w, a)] = if k.expired a n then [] else [(w, a)] := by
  cases h : k.expired a n <;> simp [live, h]

theorem Sound.later (h : k.Sound n slot told) (hb : k.before n now) : k.Sound now slot told :=
  fun w a ht => (h w a ht).imp_right (k.expired_mono · hb)

-- A worker may forget that it was granted a lease.
theorem Sound.forget (h : k.Sound n slot told) (hf : ∀ w a, told' w = some a → told w = some a) :
    k.Sound n slot told' :=
  fun w a ht => h w a (hf w a ht)

theorem Sound.unique (h : k.Sound now slot told) (hw : told w = some a) (hw' : told w' = some a')
    (ha : ¬k.expired a now) (ha' : ¬k.expired a' now) : w = w' := by
  have he : slot = [(w, a)] := (h w a hw).resolve_right ha
  have he' : slot = [(w', a')] := (h w' a' hw').resolve_right ha'
  simp_all

-- The leases after a step without a grant are those before it that have not run out.
theorem Step.mem_or_expired (hs : k.Step n slot none slot') (h : slot = [(w, a)]) :
    slot' = [(w, a)] ∨ slot' = [] ∧ k.expired a n := by
  cases hs
  case keep  => exact .inl h
  case prune =>
    subst h
    rw [live_singleton]
    split
    case isTrue he  => exact .inr ⟨rfl, he⟩
    case isFalse he => exact .inl rfl

theorem Step.nil_of_nil (hs : k.Step n [] none slot') : slot' = [] := by
  cases hs <;> rfl

-- A step may look at an instant that has passed since.
theorem Step.sound_none (hs : k.Step n slot none slot') (hb : k.before n now)
    (h : k.Sound now slot told) : k.Sound now slot' told := by
  intro w a ht
  cases h w a ht
  case inl h => exact (hs.mem_or_expired h).imp_right fun he => k.expired_mono he.right hb
  case inr h => exact .inr h

-- A grant goes past a lease that runs only if it is the worker's own.
theorem Step.sound_some [DecidableEq W] (hs : k.Step n slot (some w) slot') (hb : k.before n now)
    (h : k.Sound now slot told) : k.Sound now slot' (Function.update told w (some n)) := by
  obtain _ | _ | hg := hs
  intro w' a ht
  by_cases hw : w' = w
  case pos =>
    subst hw
    rw [Function.update_self] at ht
    cases ht
    exact .inl rfl
  case neg =>
    rw [Function.update_of_ne hw] at ht
    cases h w' a ht
    case inr he => exact .inr he
    case inl he =>
      refine .inr (k.expired_mono (?_ : k.expired a n) hb)
      by_contra hl
      refine hw (hg (w', a) ?_)
      simp [he, live_singleton, hl]

end LeaseClock
