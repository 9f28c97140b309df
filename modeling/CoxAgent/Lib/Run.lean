import Mathlib.Data.List.Basic

-- Runs of a machine that handles one event after another.
namespace Run

variable {σ ε : Type} (step : σ → ε → σ)

-- Every event of the run satisfies `C`, which sees the state before the event.
def Meets (C : σ → ε → Prop) (s : σ) : List ε → Prop
  | []      => True
  | e :: es => C s e ∧ Meets C (step s e) es

instance decidableMeets (C : σ → ε → Prop) [∀ s e, Decidable (C s e)] :
    (s : σ) → (es : List ε) → Decidable (Meets step C s es)
  | _, []      => instDecidableTrue
  | s, e :: es =>
    have := decidableMeets C (step s e) es
    inferInstanceAs (Decidable (C s e ∧ Meets step C (step s e) es))

variable {step} {C : σ → ε → Prop} {J : σ → Prop} {s : σ} {es : List ε}

-- What every such event preserves holds at the end of the run.
theorem inv (hs : ∀ s e, C s e → J s → J (step s e)) (hm : Meets step C s es) (h : J s) :
    J (es.foldl step s) := by
  induction es generalizing s
  case nil          => exact h
  case cons e es hi => exact hi hm.2 (hs s e hm.1 h)

-- What every event preserves.
theorem inv_all (hs : ∀ s e, J s → J (step s e)) (h : J s) : J (es.foldl step s) := by
  induction es generalizing s
  case nil          => exact h
  case cons e es hi => exact hi (hs s e h)

theorem meets_of_forall {C : ε → Prop} (h : ∀ e ∈ es, C e) : Meets step (fun _ e => C e) s es := by
  induction es generalizing s
  case nil          => trivial
  case cons e es hi =>
    have ⟨he, hes⟩ := List.forall_mem_cons.mp h
    exact ⟨he, hi hes⟩

theorem meets_append {es' : List ε} :
    Meets step C s (es ++ es') ↔ Meets step C s es ∧ Meets step C (es.foldl step s) es' := by
  induction es generalizing s
  case nil          => simp [Meets]
  case cons e es hi => simp [Meets, hi, and_assoc]

theorem Meets.of_append {pre post : List ε} {e : ε} (h : Meets step C s (pre ++ e :: post)) :
    C (pre.foldl step s) e :=
  (meets_append.mp h).right.left

theorem meets_iff_forall :
    Meets step C s es ↔ ∀ pre e post, es = pre ++ e :: post → C (pre.foldl step s) e := by
  constructor
  case mp =>
    rintro h pre e post rfl
    exact h.of_append
  case mpr =>
    intro h
    induction es generalizing s
    case nil          => trivial
    case cons e es hi =>
      refine ⟨h [] e es rfl, hi fun pre e' post he => ?_⟩
      exact h (e :: pre) e' post (by rw [he, List.cons_append])

-- What holds at the end of a run has held from the start, or an event of the run has brought it about.
theorem holds_cases {P : σ → Prop} (h : P (es.foldl step s)) :
    P s ∨ ∃ pre e post, es = pre ++ e :: post ∧ ¬P (pre.foldl step s) ∧
      P (step (pre.foldl step s) e) := by
  induction es generalizing s
  case nil => exact .inl h
  case cons e es hi =>
    cases hi h
    case inr he =>
      obtain ⟨pre, e', post, rfl, he⟩ := he
      exact .inr ⟨e :: pre, e', post, rfl, he⟩
    case inl hs =>
      by_cases hp : P s
      case pos => exact .inl hp
      case neg => exact .inr ⟨[], e, es, rfl, hp, hs⟩

-- A decision that every counted event without it brings nearer is taken once enough of them are counted.
theorem decides {D : σ → ε → Prop} {counts : ε → Bool} {μ : σ → Nat}
    (hs : ∀ s e, C s e → ¬D s e → μ (step s e) + (counts e).toNat ≤ μ s)
    (hm : Meets step C s es) (hc : μ s < es.countP counts) :
    ∃ pre e post, es = pre ++ e :: post ∧ D (pre.foldl step s) e ∧ pre.countP counts ≤ μ s := by
  induction es generalizing s
  case nil => simp at hc
  case cons e es hi =>
    by_cases hd : D s e
    case pos => exact ⟨[], e, es, rfl, hd, by simp⟩
    case neg =>
      have hn : (e :: es).countP counts = es.countP counts + (counts e).toNat := by
        cases he : counts e <;> simp [he]
      have hle : μ (step s e) + (counts e).toNat ≤ μ s := hs s e hm.left hd
      obtain ⟨pre, e', post, rfl, hd', hle'⟩ := hi hm.right (by omega)
      have hn' : (e :: pre).countP counts = pre.countP counts + (counts e).toNat := by
        cases he : counts e <;> simp [he]
      exact ⟨e :: pre, e', post, rfl, hd', by omega⟩

theorem Meets.snoc {e : ε} (h : Meets step C s es) (he : C (es.foldl step s) e) :
    Meets step C s (es ++ [e]) :=
  meets_append.mpr ⟨h, he, trivial⟩

end Run

-- Histories whose every entry is justified by the entries before it.
def Guarded {α : Type} (G : List α → α → Prop) (past : List α) : List α → Prop
  | []      => True
  | a :: as => G past a ∧ Guarded G (past ++ [a]) as

namespace Guarded

variable {α β : Type} {G : List α → α → Prop} {past l l' : List α}

@[simp]
theorem nil : Guarded G past [] :=
  trivial

theorem cons {a : α} : Guarded G past (a :: l) ↔ G past a ∧ Guarded G (past ++ [a]) l :=
  .rfl

theorem append : Guarded G past (l ++ l') ↔ Guarded G past l ∧ Guarded G (past ++ l) l' := by
  induction l generalizing past
  case nil          => simp
  case cons a l hi  => simp [cons, hi, and_assoc]

theorem iff_split :
    Guarded G past l ↔ ∀ pre a post, l = pre ++ a :: post → G (past ++ pre) a := by
  constructor
  case mp =>
    rintro h pre a post rfl
    exact (append.mp h).right.left
  case mpr =>
    induction l generalizing past
    case nil         => exact fun _ => trivial
    case cons a l hi =>
      intro h
      refine ⟨by simpa using h [] a l rfl, hi fun pre b post hl => ?_⟩
      simpa using h (a :: pre) b post (by rw [hl, List.cons_append])

-- A loop over a list, of which each round adds a part of the history.
theorem flatMap {f : β → List α} {bs : List β} :
    Guarded G past (bs.flatMap f) ↔
      ∀ before b after, bs = before ++ b :: after → Guarded G (past ++ before.flatMap f) (f b) := by
  constructor
  case mp =>
    rintro h before b after rfl
    rw [List.flatMap_append, List.flatMap_cons, append, append] at h
    exact h.right.left
  case mpr =>
    induction bs generalizing past
    case nil          => exact fun _ => trivial
    case cons b bs hi =>
      intro h
      rw [List.flatMap_cons, append]
      refine ⟨by simpa using h [] b bs rfl, hi fun before b' after hb => ?_⟩
      simpa using h (b :: before) b' after (by rw [hb, List.cons_append])

end Guarded
