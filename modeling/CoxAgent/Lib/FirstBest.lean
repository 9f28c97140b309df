import Mathlib.Data.List.Induction
import Mathlib.Order.Lattice

-- The best entry of a list among those that qualify. Among equals the first counts.
namespace FirstBest

variable {α β : Type} [LinearOrder β] {p : α → Bool} {score : α → β} {l : List α} {a b : α} {s : β}

def better (p : α → Bool) (score : α → β) (best : Option (β × α)) (a : α) : Option (β × α) :=
  if p a then
    match best with
    | some (s, b) => if score a ≤ s then some (s, b) else some (score a, a)
    | none        => some (score a, a)
  else
    best

def best (p : α → Bool) (score : α → β) (l : List α) : Option (β × α) :=
  l.foldl (better p score) none

-- Those before are worse, and those behind are no better.
def Leads (p : α → Bool) (score : α → β) (l : List α) (a : α) : Prop :=
  ∃ l₁ l₂, l = l₁ ++ a :: l₂ ∧ p a ∧ (∀ b ∈ l₁, p b → score b < score a) ∧ ∀ b ∈ l₂, p b → score b ≤ score a

theorem best_concat : best p score (l ++ [a]) = better p score (best p score l) a := by
  simp [best]

theorem Leads.mem (h : Leads p score l a) : a ∈ l := by
  have ⟨l₁, l₂, hl, _⟩ := h
  simp [hl]

theorem Leads.concat (h : Leads p score l a) (hb : p b → score b ≤ score a) : Leads p score (l ++ [b]) a := by
  have ⟨l₁, l₂, hl, hp, hlt, hle⟩ := h
  refine ⟨l₁, l₂ ++ [b], by simp [hl], hp, hlt, ?_⟩
  exact List.forall_mem_append.mpr ⟨hle, List.forall_mem_singleton.mpr hb⟩

theorem Leads.le (h : Leads p score l a) (hb : b ∈ l) (hp : p b) : score b ≤ score a := by
  have ⟨l₁, l₂, hl, _, hlt, hle⟩ := h
  rw [hl, List.mem_append, List.mem_cons] at hb
  obtain hb | rfl | hb := hb
  case inl     => exact (hlt b hb hp).le
  case inr.inl => exact le_refl _
  case inr.inr => exact hle b hb hp

-- What the scan has found at each point.
theorem best_spec (p : α → Bool) (score : α → β) (l : List α) : match best p score l with
    | some (s, a) => s = score a ∧ Leads p score l a
    | none        => ∀ b ∈ l, ¬p b := by
  induction l using List.reverseRecOn
  case nil => simp [best]
  case append_singleton l b hi =>
    rw [best_concat]
    cases hb : best p score l
    case none =>
      rw [hb] at hi
      by_cases hp : p b
      case pos =>
        rw [better, if_pos hp]
        exact ⟨rfl, l, [], rfl, hp, fun c hc hpc => absurd hpc (hi c hc), by simp⟩
      case neg =>
        rw [better, if_neg hp]
        exact List.forall_mem_append.mpr ⟨hi, List.forall_mem_singleton.mpr hp⟩
    case some best =>
      obtain ⟨s, a⟩ := best
      rw [hb] at hi
      obtain ⟨rfl, ha⟩ := hi
      by_cases hp : p b
      case neg =>
        rw [better, if_neg hp]
        exact ⟨rfl, ha.concat fun h => absurd h hp⟩
      case pos =>
        simp only [better, if_pos hp]
        by_cases hle : score b ≤ score a
        case pos =>
          rw [if_pos hle]
          exact ⟨rfl, ha.concat fun _ => hle⟩
        case neg =>
          rw [if_neg hle]
          exact ⟨rfl, l, [], rfl, hp, fun c hc hpc => (ha.le hc hpc).trans_lt (not_le.mp hle), by simp⟩

-- There is only one such entry.
theorem Leads.unique (ha : Leads p score l a) (hb : Leads p score l b) : a = b := by
  obtain ⟨l₁, l₂, hl, hpa, hlta, hlea⟩ := ha
  obtain ⟨m₁, m₂, hm, hpb, hltb, hleb⟩ := hb
  rw [hl, List.append_eq_append_iff] at hm
  obtain ⟨k, hm₁, hk⟩ | ⟨k, hl₁, hk⟩ := hm
  case inl =>
    cases k
    case nil      => exact (List.cons.inj hk).1
    case cons c k =>
      obtain ⟨rfl, rfl⟩ := List.cons.inj hk
      exact absurd (hltb a (by simp [hm₁]) hpa) (not_lt.mpr (hlea b (by simp) hpb))
  case inr =>
    cases k
    case nil      => exact (List.cons.inj hk).1.symm
    case cons c k =>
      obtain ⟨rfl, rfl⟩ := List.cons.inj hk
      exact absurd (hlta b (by simp [hl₁]) hpb) (not_lt.mpr (hleb a (by simp) hpa))

theorem best_eq_some : best p score l = some (s, a) ↔ s = score a ∧ Leads p score l a := by
  have hs := best_spec p score l
  constructor
  case mp  => exact fun h => by rwa [h] at hs
  case mpr =>
    rintro ⟨rfl, ha⟩
    cases hb : best p score l
    case none =>
      rw [hb] at hs
      have ⟨_, _, _, hp, _⟩ := ha
      exact absurd hp (hs a ha.mem)
    case some best =>
      obtain ⟨x, c⟩ := best
      rw [hb] at hs
      obtain ⟨rfl, hc⟩ := hs
      rw [hc.unique ha]

theorem Leads.of_filter {q : α → Bool} (h : Leads (fun _ => true) score (l.filter q) a) : Leads q score l a := by
  have ⟨l₁, l₂, hl, _, hlt, hle⟩ := h
  have ⟨m₁, m, hm, h₁, hm'⟩ := List.filter_eq_append_iff.mp hl
  have ⟨k₁, k₂, hk, hn, ha, h₂⟩ := List.filter_eq_cons_iff.mp hm'
  refine ⟨m₁ ++ k₁, k₂, by simp [hm, hk], ha, fun b hb hq => ?_, fun b hb hq => ?_⟩
  case refine_1 =>
    refine hlt b ?_ rfl
    have hb := (List.mem_append.mp hb).resolve_right fun hb => hn b hb hq
    exact h₁ ▸ List.mem_filter.mpr ⟨hb, hq⟩
  case refine_2 => exact hle b (h₂ ▸ List.mem_filter.mpr ⟨hb, hq⟩) rfl

theorem Leads.map {γ : Type} {g : γ → α} {m : List γ} {c : γ} (h : Leads (p ∘ g) (score ∘ g) m c) :
    Leads p score (m.map g) (g c) := by
  have ⟨l₁, l₂, hl, hp, hlt, hle⟩ := h
  refine ⟨l₁.map g, l₂.map g, by simp [hl], hp, fun b hb hb' => ?_, fun b hb hb' => ?_⟩
  case refine_1 =>
    obtain ⟨d, hd, rfl⟩ := List.mem_map.mp hb
    exact hlt d hd hb'
  case refine_2 =>
    obtain ⟨d, hd, rfl⟩ := List.mem_map.mp hb
    exact hle d hd hb'

-- Among what a map keeps the entry that leads comes from one that does.
theorem leads_filterMap {γ : Type} {g : γ → Option α} {m : List γ} :
    Leads (fun _ => true) score (m.filterMap g) a ↔ ∃ m₁ c m₂, m = m₁ ++ c :: m₂ ∧ g c = some a ∧
      (∀ d ∈ m₁, ∀ b, g d = some b → score b < score a) ∧ ∀ d ∈ m₂, ∀ b, g d = some b → score b ≤ score a := by
  constructor
  case mp =>
    rintro ⟨l₁, l₂, hl, -, hlt, hle⟩
    have ⟨m₁, m', hm, h₁, hm'⟩ := List.filterMap_eq_append_iff.mp hl
    have ⟨k₁, c, k₂, hk, hn, hc, h₂⟩ := List.filterMap_eq_cons_iff.mp hm'
    refine ⟨m₁ ++ k₁, c, k₂, by simp [hm, hk], hc, fun d hd b hb => ?_, fun d hd b hb => ?_⟩
    case refine_1 =>
      rcases List.mem_append.mp hd with hd | hd
      · exact hlt b (h₁ ▸ List.mem_filterMap.mpr ⟨d, hd, hb⟩) rfl
      · simp [hn d hd] at hb
    case refine_2 => exact hle b (h₂ ▸ List.mem_filterMap.mpr ⟨d, hd, hb⟩) rfl
  case mpr =>
    rintro ⟨m₁, c, m₂, rfl, hc, hlt, hle⟩
    refine ⟨m₁.filterMap g, m₂.filterMap g, by simp [hc], rfl, fun b hb _ => ?_, fun b hb _ => ?_⟩
    case refine_1 =>
      have ⟨d, hd, hdb⟩ := List.mem_filterMap.mp hb
      exact hlt d hd b hdb
    case refine_2 =>
      have ⟨d, hd, hdb⟩ := List.mem_filterMap.mp hb
      exact hle d hd b hdb

-- A stable sort has the first of the least entries in front.
theorem leads_of_mergeSort {f : α → β} {rest : List α} (hl : l.Nodup)
    (h : l.mergeSort (fun a b => f a ≤ f b) = a :: rest) :
    Leads (fun _ => true) (fun a => OrderDual.toDual (f a)) l a := by
  have htrans : ∀ a b c : α, decide (f a ≤ f b) → decide (f b ≤ f c) → decide (f a ≤ f c) := by
    simpa using fun _ _ _ => le_trans
  have htotal : ∀ a b : α, decide (f a ≤ f b) || decide (f b ≤ f a) := by simpa using fun _ _ => le_total _ _
  have hs : (a :: rest).Nodup := h ▸ (List.mergeSort_perm l _).nodup_iff.mpr hl
  have hsorted := List.pairwise_mergeSort htrans htotal l
  rw [h] at hsorted
  have ha : a ∈ l := (List.mergeSort_perm l _).mem_iff.mp (h ▸ List.mem_cons_self)
  obtain ⟨l₁, l₂, rfl⟩ := List.append_of_mem ha
  refine ⟨l₁, l₂, rfl, rfl, fun b hb _ => ?_, fun b hb _ => ?_⟩
  case refine_1 =>
    refine OrderDual.toDual_lt_toDual.mpr (not_le.mp fun hle => ?_)
    -- An equal entry before this one would stand before it in the sorted list too.
    have hsub : List.Sublist [b, a] (l₁ ++ a :: l₂) :=
      (List.singleton_sublist.mpr hb).append (List.singleton_sublist.mpr List.mem_cons_self)
    have hsort := List.pair_sublist_mergeSort htrans htotal (decide_eq_true hle) hsub
    rw [h] at hsort
    cases hsort
    case cons hr    => exact (List.nodup_cons.mp hs).1 (hr.subset (by simp))
    case cons_cons hr => exact (List.nodup_cons.mp hs).1 (hr.subset (by simp))
  case refine_2 =>
    have hb : b ∈ a :: rest := h ▸ List.mem_mergeSort.mpr (by simp [hb])
    obtain rfl | hb := List.mem_cons.mp hb
    case inl => exact le_refl _
    case inr => exact of_decide_eq_true (List.rel_of_pairwise_cons hsorted hb)

end FirstBest
