import CoxAgent.Lib.BTreeMap
import Mathlib.Data.List.DropRight
import Mathlib.Data.List.Forall2
import Mathlib.Data.List.Infix
import Mathlib.Data.List.Nodup

-- Operations on the growable arrays of the source, as lists.
namespace Lists

variable {α β : Type}

theorem rdropWhile_append {p : α → Bool} {a : α} (h : ¬p a) (l m : List α) :
    (l ++ [a] ++ m).rdropWhile p = l ++ [a] ++ m.rdropWhile p := by
  induction m using List.reverseRecOn
  case nil => simp [h]
  case append_singleton m b hi =>
    rw [← List.append_assoc, List.rdropWhile_concat, List.rdropWhile_concat]
    split
    case isTrue  => exact hi
    case isFalse => rw [List.append_assoc]

-- What ends with something that is not in the second list is in the first one.
theorem infix_of_concat_infix_append {a : α} {p l m : List α} (ha : a ∉ m) (h : p ++ [a] <:+: l ++ m) :
    p ++ [a] <:+: l := by
  obtain ⟨x, y, hxy⟩ := h
  obtain ⟨z, hl, -⟩ | ⟨z, hl, hm⟩ := List.append_eq_append_iff.mp hxy
  case inl => exact ⟨x, z, hl.symm⟩
  case inr =>
    obtain rfl | ⟨z, b, rfl⟩ := z.eq_nil_or_concat
    case inl => exact ⟨x, [], by simpa using hl⟩
    case inr =>
      rw [List.concat_eq_append, ← List.append_assoc, ← List.append_assoc] at hl
      obtain ⟨-, hb⟩ := List.append_inj' hl rfl
      exact absurd (by simp [hm, List.singleton_inj.mp hb]) ha

-- What begins with something that is not in the first list is in the second one.
theorem infix_of_cons_infix_append {a : α} {p l m : List α} (ha : a ∉ l) (h : a :: p <:+: l ++ m) :
    a :: p <:+: m := by
  have hr : p.reverse ++ [a] <:+: m.reverse ++ l.reverse := by
    rw [← List.reverse_cons, ← List.reverse_append]
    exact List.reverse_infix.mpr h
  rw [← List.reverse_infix, List.reverse_cons]
  exact infix_of_concat_infix_append (by simpa using ha) hr

-- What is in a list is found at its first place.
theorem exists_first_infix {p l : List α} (hp : p ≠ []) (h : p <:+: l) :
    ∃ x y, l = x ++ (p ++ y) ∧ ¬p <:+: x ++ p.dropLast := by
  induction l
  case nil          => exact absurd (List.eq_nil_of_infix_nil h) hp
  case cons a l hi =>
    by_cases hpre : p <+: a :: l
    case pos =>
      obtain ⟨y, hy⟩ := hpre
      refine ⟨[], y, hy.symm, fun hin => ?_⟩
      have hlen := hin.length_le
      rw [List.nil_append, List.length_dropLast] at hlen
      have := List.length_pos_iff.mpr hp
      omega
    case neg =>
      obtain ⟨x, y, hl, hn⟩ := hi ((List.infix_cons_iff.mp h).resolve_left hpre)
      refine ⟨a :: x, y, by rw [hl]; rfl, fun hin => ?_⟩
      cases List.infix_cons_iff.mp hin
      case inr hin => exact hn hin
      case inl hin =>
        refine hpre (hin.trans ?_)
        rw [hl]
        have hd : p.dropLast <+: p ++ y := (List.dropLast_prefix p).trans (List.prefix_append p y)
        exact List.cons_prefix_cons.mpr ⟨rfl, (List.prefix_append_right_inj x).mpr hd⟩

-- A search over the rests of a list stops at the first place where there is something.
theorem findSome?_tails_eq_some {f : List α → Option β} {b : β} {l : List α} (hn : f [] = none) :
    l.tails.findSome? f = some b ↔
      ∃ p q, l = p ++ q ∧ f q = some b ∧ ∀ p' q', l = p' ++ q' → f q' ≠ none → p.length ≤ p'.length := by
  induction l
  case nil => simp [hn]
  case cons a l hi =>
    rw [List.tails_cons, List.findSome?_cons]
    cases ha : f (a :: l)
    case some c =>
      constructor
      case mp  => exact fun h => ⟨[], a :: l, rfl, ha.trans h, fun _ _ _ _ => Nat.zero_le _⟩
      case mpr =>
        rintro ⟨p, q, hl, hq, hf⟩
        have hp : p = [] := List.eq_nil_of_length_eq_zero (by simpa [ha] using hf [] (a :: l) rfl)
        rw [hp, List.nil_append] at hl
        rw [← hq, ← hl, ha]
    case none =>
      refine hi.trans ⟨?_, ?_⟩
      case refine_1 =>
        rintro ⟨p, q, hl, hq, hf⟩
        refine ⟨a :: p, q, by rw [hl, List.cons_append], hq, fun p' q' hl' hq' => ?_⟩
        cases p'
        case nil      => exact absurd ha (by rwa [hl'])
        case cons b p' => exact Nat.succ_le_succ (hf p' q' (List.cons.inj hl').2 hq')
      case refine_2 =>
        rintro ⟨p, q, hl, hq, hf⟩
        cases p
        case nil =>
          rw [hl, List.nil_append, hq] at ha
          contradiction
        case cons b p =>
          refine ⟨p, q, (List.cons.inj hl).2, hq, fun p' q' hl' hq' => ?_⟩
          exact Nat.le_of_succ_le_succ (hf (a :: p') q' (by rw [hl', List.cons_append]) hq')

theorem splitOn_append [DecidableEq α] {c : α} {l m : List α} (h : c ∉ l) :
    (l ++ m).splitOn c = (m.splitOn c).modifyHead (l ++ ·) := by
  induction l
  case nil         =>
    rw [List.nil_append]
    cases m.splitOn c <;> rfl
  case cons a l hi =>
    rw [List.mem_cons, not_or] at h
    rw [List.cons_append, List.splitOn_cons_eq_if_modifyHead, if_neg (by simpa using Ne.symm h.left), hi h.right]
    cases m.splitOn c <;> rfl

-- The last elements of an end that is long enough are those of the whole.
theorem rtake_append {l m : List α} {n : Nat} (h : n ≤ m.length) : (l ++ m).rtake n = m.rtake n := by
  rw [List.rtake, List.rtake, List.length_append, Nat.add_sub_assoc h, List.drop_append, List.drop_of_length_le,
    List.nil_append]
  · congr 1
    omega
  · omega

-- Of what is dropped at the start nothing is missed, as long as fewer of the last elements are wanted.
theorem rtake_rtake_append {l m : List α} {k n : Nat} (h : k ≤ n) :
    (l.rtake n ++ m).rtake k = (l ++ m).rtake k := by
  by_cases hn : l.length ≤ n
  case pos =>
    have hl : l.rtake n = l := by rw [List.rtake, Nat.sub_eq_zero_of_le hn, List.drop_zero]
    rw [hl]
  case neg =>
    have hl : l = l.take (l.length - n) ++ l.rtake n := (List.take_append_drop _ _).symm
    have hk : k ≤ (l.rtake n ++ m).length := by
      rw [List.length_append, List.rtake, List.length_drop]
      omega
    conv_rhs => rw [hl, List.append_assoc, rtake_append hk]

section RetainNew

variable [DecidableEq α] {seen l : List α} {a : α}

-- Drop what has been seen before.
def retainNewFrom (seen : List α) : List α → List α
  | []      => []
  | a :: as => if a ∈ seen then retainNewFrom seen as else a :: retainNewFrom (a :: seen) as

def retainNew (l : List α) : List α :=
  retainNewFrom [] l

theorem mem_retainNewFrom : a ∈ retainNewFrom seen l ↔ a ∈ l ∧ a ∉ seen := by
  induction l generalizing seen
  case nil => simp [retainNewFrom]
  case cons b l hi =>
    by_cases ha : a = b
    case pos =>
      subst ha
      by_cases hs : a ∈ seen <;> simp [retainNewFrom, hs, hi]
    case neg => by_cases hs : b ∈ seen <;> simp [retainNewFrom, hs, hi, ha]

theorem nodup_retainNewFrom : (retainNewFrom seen l).Nodup := by
  induction l generalizing seen
  case nil         => simp [retainNewFrom]
  case cons b l hi =>
    by_cases hb : b ∈ seen <;> simp [retainNewFrom, hb, hi, mem_retainNewFrom]

theorem retainNewFrom_eq (h : l.Nodup) (hd : ∀ a ∈ l, a ∉ seen) : retainNewFrom seen l = l := by
  induction l generalizing seen
  case nil => rfl
  case cons b l hi =>
    rw [List.nodup_cons] at h
    rw [List.forall_mem_cons] at hd
    rw [retainNewFrom, if_neg hd.1, hi h.2]
    intro a ha hs
    cases List.mem_cons.mp hs
    case inl he => exact h.1 (he ▸ ha)
    case inr hs => exact hd.2 a ha hs

@[simp]
theorem mem_retainNew : a ∈ retainNew l ↔ a ∈ l := by
  simp [retainNew, mem_retainNewFrom]

theorem nodup_retainNew : (retainNew l).Nodup :=
  nodup_retainNewFrom

theorem retainNew_eq (h : l.Nodup) : retainNew l = l :=
  retainNewFrom_eq h (by simp)

theorem retainNewFrom_concat : retainNewFrom seen (l ++ [a]) =
    if a ∈ seen ∨ a ∈ l then retainNewFrom seen l else retainNewFrom seen l ++ [a] := by
  induction l generalizing seen
  case nil         => simp [retainNewFrom]
  case cons b l hi => by_cases hb : b ∈ seen <;> grind [retainNewFrom]

theorem retainNew_concat :
    retainNew (l ++ [a]) = if a ∈ l then retainNew l else retainNew l ++ [a] := by
  simp [retainNew, retainNewFrom_concat]

end RetainNew

section UpdateFirst

variable {p : α → Bool} {f : α → α} {l l' : List α} {g : α → β}

-- Change the first entry that qualifies. `none` if there is none.
def updateFirst (p : α → Bool) (f : α → α) : List α → Option (List α)
  | []      => none
  | a :: as => if p a then some (f a :: as) else (a :: ·) <$> updateFirst p f as

theorem updateFirst_some (h : updateFirst p f l = some l') :
    ∃ l₁ a l₂, l = l₁ ++ a :: l₂ ∧ p a ∧ l' = l₁ ++ f a :: l₂ := by
  induction l generalizing l'
  case nil => contradiction
  case cons a l hi =>
    simp only [updateFirst] at h
    split at h
    case isTrue hp =>
      cases h
      exact ⟨[], a, l, rfl, hp, rfl⟩
    case isFalse =>
      have ⟨rest, hr, he⟩ := Option.map_eq_some_iff.mp h
      have ⟨l₁, b, l₂, hl, hp, hl'⟩ := hi hr
      exact ⟨a :: l₁, b, l₂, by rw [hl]; rfl, hp, by rw [← he, hl']; rfl⟩

theorem map_updateFirst (hf : ∀ a, g (f a) = g a) (h : updateFirst p f l = some l') :
    l'.map g = l.map g := by
  have ⟨l₁, a, l₂, hl, _, hl'⟩ := updateFirst_some h
  simp [hl, hl', hf]

theorem forall_updateFirst {P : α → Prop} (h : updateFirst p f l = some l') (hl : ∀ a ∈ l, P a)
    (hf : ∀ a, P a → P (f a)) : ∀ a ∈ l', P a := by
  have ⟨l₁, b, l₂, he, _, he'⟩ := updateFirst_some h
  subst he he'
  simp only [List.forall_mem_append, List.forall_mem_cons] at hl ⊢
  exact ⟨hl.1, hf b hl.2.1, hl.2.2⟩

end UpdateFirst

section ChangedAt

variable {γ : Type} {p : α → Bool} {f : α → α} {places places' : Nat → Prop} {l l' l'' : List α} {g : α → γ}

-- The entries at the places are changed, and the others are as before.
structure ChangedAt (f : α → α) (places : Nat → Prop) (l l' : List α) : Prop where
  changed : ∀ i, places i → l'[i]? = l[i]?.map f
  kept    : ∀ i, ¬places i → l'[i]? = l[i]?

namespace ChangedAt

theorem congr (h : ChangedAt f places l l') (hp : ∀ i, places' i ↔ places i) : ChangedAt f places' l l' where
  changed i hi := h.changed i ((hp i).mp hi)
  kept i hi    := h.kept i (hi ∘ (hp i).mpr)

theorem trans (hf : ∀ a, f (f a) = f a) (h : ChangedAt f places l l') (h' : ChangedAt f places' l' l'') :
    ChangedAt f (fun i => places i ∨ places' i) l l'' where
  changed i hi := by
    by_cases hp : places' i
    case neg => rw [h'.kept i hp, h.changed i (hi.resolve_right hp)]
    case pos =>
      rw [h'.changed i hp]
      by_cases hp' : places i
      case pos => simp [h.changed i hp', Function.comp_def, hf]
      case neg => rw [h.kept i hp']
  kept i hi := by rw [h'.kept i fun hp => hi (.inr hp), h.kept i fun hp => hi (.inl hp)]

theorem map_eq (hg : ∀ a, g (f a) = g a) (h : ChangedAt f places l l') : l'.map g = l.map g := by
  apply List.ext_getElem?
  intro i
  rw [List.getElem?_map, List.getElem?_map]
  by_cases hi : places i
  case pos => simp [h.changed i hi, Function.comp_def, hg]
  case neg => rw [h.kept i hi]

theorem updateFirst : ChangedAt f (l.findIdx? p = some ·) l ((updateFirst p f l).getD l) := by
  induction l
  case nil         => exact ⟨fun _ _ => rfl, fun _ _ => rfl⟩
  case cons a l hi =>
    rw [Lists.updateFirst, List.findIdx?_cons]
    by_cases ha : p a
    case pos =>
      rw [if_pos ha, if_pos ha]
      constructor
      case changed =>
        rintro _ ⟨rfl⟩
        rfl
      case kept =>
        intro i hi
        cases i
        case zero   => exact (hi rfl).elim
        case succ i => rfl
    case neg =>
      have hu : ((a :: ·) <$> Lists.updateFirst p f l).getD (a :: l) = a :: (Lists.updateFirst p f l).getD l := by
        cases Lists.updateFirst p f l <;> rfl
      rw [if_neg ha, if_neg ha, hu]
      constructor
      case changed =>
        intro i h
        obtain ⟨i, hl, rfl⟩ := Option.map_eq_some_iff.mp h
        exact hi.changed i hl
      case kept =>
        intro i h
        cases i
        case zero   => rfl
        case succ i => exact hi.kept i fun hl => h (by rw [hl]; rfl)

theorem map_if : ChangedAt f (fun i => ∃ a, l[i]? = some a ∧ p a) l (l.map fun a => if p a then f a else a) where
  changed i hi := by
    have ⟨a, ha, hp⟩ := hi
    simp [ha, hp]
  kept i hi := by
    cases ha : l[i]? with
    | none   => simp [ha]
    | some a =>
      have hp : ¬p a := fun hp => hi ⟨a, ha, hp⟩
      simp [ha, hp]

-- The places of a step depend on a part of the entries that no step changes.
theorem foldl {step : List α → β → List α} {places : β → Nat → Prop} {bs : List β} (hf : ∀ a, f (f a) = f a)
    (hg : ∀ a, g (f a) = g a)
    (hs : ∀ l', l'.map g = l.map g → ∀ b ∈ bs, ChangedAt f (places b) l' (step l' b)) :
    ChangedAt f (fun i => ∃ b ∈ bs, places b i) l (bs.foldl step l) := by
  induction bs generalizing l
  case nil          => exact ⟨fun _ ⟨_, hb, _⟩ => absurd hb List.not_mem_nil, fun _ _ => rfl⟩
  case cons b bs hi =>
    have hb := hs l rfl b List.mem_cons_self
    have hbs := hi (l := step l b) fun l' hl' b' hb' =>
      hs l' (hl'.trans (hb.map_eq hg)) b' (List.mem_cons_of_mem _ hb')
    exact (hb.trans hf hbs).congr fun i => by simp

end ChangedAt

end ChangedAt

theorem exists_mem_zipIdx {l : List α} {P : α → Prop} : (∃ b ∈ l.zipIdx, P b.1) ↔ ∃ a ∈ l, P a := by
  have hl := List.zipIdx_map_fst 0 l
  constructor
  case mp  => exact fun ⟨b, hb, hp⟩ => ⟨b.1, hl ▸ List.mem_map_of_mem hb, hp⟩
  case mpr =>
    intro ⟨a, ha, hp⟩
    rw [← hl] at ha
    obtain ⟨b, hb, rfl⟩ := List.mem_map.mp ha
    exact ⟨b, hb, hp⟩

section Swap

def swap (l : List α) (i j : Nat) : List α :=
  (l.toArray.swapIfInBounds i j).toList

theorem swap_perm (l : List α) (i j : Nat) : (swap l i j).Perm l := by
  unfold swap Array.swapIfInBounds
  split
  case isFalse => exact List.Perm.refl _
  case isTrue =>
    split
    case isFalse => exact List.Perm.refl _
    case isTrue  => exact Array.perm_iff_toList_perm.mp (Array.swap_perm _ _)

end Swap

section Count

variable {r : α → α → Bool} {p p' q q' : α → Bool} {l : List α} {a : α} {n : Nat}

-- In a sorted list the place of an element is the number of those before it.
theorem mem_take_iff [DecidableEq α] (hs : l.Pairwise (r · ·)) (hn : l.Nodup)
    (hr : ∀ b, r a b → r b a → a = b) (ha : a ∈ l) :
    a ∈ l.take n ↔ l.countP (fun b => r b a ∧ b ≠ a) < n := by
  have ⟨before, after, he⟩ := List.append_of_mem ha
  subst he
  have ⟨_, hsa, hab⟩ := List.pairwise_append.mp hs
  have ⟨_, hna, hnb⟩ := List.nodup_append.mp hn
  have hb : before.countP (fun b => r b a ∧ b ≠ a) = before.length := by
    rw [List.countP_eq_length]
    intro b hb
    exact decide_eq_true ⟨hab b hb a List.mem_cons_self, hnb b hb a List.mem_cons_self⟩
  have hc : (a :: after).countP (fun b => r b a ∧ b ≠ a) = 0 := by
    rw [List.countP_eq_zero]
    intro b hb hd
    rw [decide_eq_true_eq] at hd
    cases List.mem_cons.mp hb
    case inl he => exact hd.2 he
    case inr hm => exact hd.2 (hr b ((List.pairwise_cons.mp hsa).1 b hm) hd.1).symm
  rw [List.countP_append, hb, hc, List.take_append, List.mem_append, Nat.add_zero]
  constructor
  case mp =>
    intro h
    cases h
    case inl h => exact absurd rfl (hnb a (List.mem_of_mem_take h) a List.mem_cons_self)
    case inr h =>
      by_contra hl
      simp [Nat.sub_eq_zero_of_le (Nat.not_lt.mp hl)] at h
  case mpr =>
    intro hl
    have ⟨m, hm⟩ := Nat.exists_eq_succ_of_ne_zero (Nat.sub_ne_zero_of_lt hl)
    exact .inr (by simp [hm])

-- The beginning of a list has as many of some elements as it can, if it has no others or all of them.
theorem countP_take_eq_min_iff :
    (l.take n).countP p = min n (l.countP p) ↔ (∀ a ∈ l.take n, p a) ∨ ∀ a ∈ l.drop n, ¬p a := by
  have hsum : l.countP p = (l.take n).countP p + (l.drop n).countP p := by
    rw [← List.countP_append, List.take_append_drop]
  have htake : (l.take n).countP p ≤ (l.take n).length := List.countP_le_length
  have hlen : (l.take n).length = min n l.length := List.length_take
  have hdrop : (l.drop n).countP p ≤ (l.drop n).length := List.countP_le_length
  have hlen' : (l.drop n).length = l.length - n := List.length_drop
  constructor
  case mp =>
    intro h
    by_cases hz : (l.drop n).countP p = 0
    case pos => exact .inr (List.countP_eq_zero.mp hz)
    case neg => exact .inl (List.countP_eq_length.mp (by omega))
  case mpr =>
    rintro (h | h)
    case inl =>
      have hl := List.countP_eq_length.mpr h
      omega
    case inr =>
      have hz := List.countP_eq_zero.mpr h
      omega

-- Counts agree in sum when they do for each element.
theorem countP_add_countP
    (h : ∀ a ∈ l, (p a).toNat + (q a).toNat = (p' a).toNat + (q' a).toNat) :
    l.countP p + l.countP q = l.countP p' + l.countP q' := by
  have hc (f : α → Bool) (a : α) (l : List α) : (a :: l).countP f = l.countP f + (f a).toNat := by
    cases hf : f a <;> simp [hf]
  induction l
  case nil => rfl
  case cons a l hi =>
    rw [List.forall_mem_cons] at h
    have := hi h.2
    simp only [hc]
    omega

-- At most one element counts if no two do.
theorem countP_le_one_iff : l.countP p ≤ 1 ↔ ∀ a i b j c, l = a ++ i :: b ++ j :: c → ¬(p i ∧ p j) := by
  constructor
  case mp =>
    rintro h a i b j c rfl ⟨hi, hj⟩
    rw [List.countP_append, List.countP_append, List.countP_cons_of_pos hi, List.countP_cons_of_pos hj] at h
    omega
  case mpr =>
    intro h
    induction l
    case nil         => simp
    case cons x l hx =>
      by_cases hp : p x
      case pos =>
        have hz : l.countP p = 0 := by
          rw [List.countP_eq_zero]
          intro y hy hpy
          obtain ⟨b, c, rfl⟩ := List.append_of_mem hy
          exact h [] x b y c rfl ⟨hp, hpy⟩
        rw [List.countP_cons_of_pos hp, hz]
      case neg =>
        rw [List.countP_cons_of_neg hp]
        refine hx fun a i b j c hl => ?_
        exact h (x :: a) i b j c (by rw [hl, List.cons_append, List.cons_append])

-- A key that occurs at most once.
theorem countP_key_eq_one {κ : Type} [DecidableEq κ] {l : List (κ × α)} {k : κ} {a : α}
    (h : (l.map (·.1)).Nodup) (ha : (k, a) ∈ l) : l.countP (·.1 = k) = 1 := by
  have hk : k ∈ l.map (·.1) := List.mem_map_of_mem (f := (·.1)) ha
  rw [← List.count_eq_one_of_mem h hk, List.count, List.countP_map]
  exact List.countP_congr fun b _ => by simp

end Count

-- The first entry that a function keeps, in a list in order.
theorem head?_filterMap [LinearOrder α] {f : α → Option β} {l : List α} {b : β}
    (hs : l.Pairwise (· < ·)) :
    (l.filterMap f).head? = some b ↔ ∃ a ∈ l, f a = some b ∧ ∀ a' ∈ l, a' < a → f a' = none := by
  induction l
  case nil => simp
  case cons x l hi =>
    have ⟨hx, hl⟩ := List.pairwise_cons.mp hs
    cases hf : f x
    case some y =>
      rw [List.filterMap_cons_some hf, List.head?_cons, Option.some.injEq]
      constructor
      case mp =>
        rintro rfl
        refine ⟨x, List.mem_cons_self .., hf, fun a' ha' hlt => ?_⟩
        obtain rfl | ha' := List.mem_cons.mp ha'
        case inl => exact absurd hlt (lt_irrefl _)
        case inr => exact absurd hlt (hx a' ha').asymm
      case mpr =>
        rintro ⟨a, ha, hab, hn⟩
        obtain rfl | ha := List.mem_cons.mp ha
        case inl => exact Option.some.inj (hf.symm.trans hab)
        case inr =>
          have := hn x (List.mem_cons_self ..) (hx a ha)
          simp [hf] at this
    case none =>
      rw [List.filterMap_cons_none hf, hi hl]
      constructor
      case mp =>
        rintro ⟨a, ha, hab, hn⟩
        refine ⟨a, List.mem_cons_of_mem _ ha, hab, List.forall_mem_cons.mpr ⟨fun _ => hf, hn⟩⟩
      case mpr =>
        rintro ⟨a, ha, hab, hn⟩
        obtain rfl | ha := List.mem_cons.mp ha
        case inl => simp [hf] at hab
        case inr => exact ⟨a, ha, hab, fun a' ha' => hn a' (List.mem_cons_of_mem _ ha')⟩

-- An element is among the first that qualify iff fewer than so many of those before it qualify.
theorem mem_take_filter [DecidableEq α] {p : α → Bool} {l : List α} {a : α} {n : Nat} :
    a ∈ (l.filter p).take n ↔ a ∈ l ∧ p a ∧ (l.takeWhile (· ≠ a)).countP p < n := by
  induction l generalizing n
  case nil => simp
  case cons b l hi =>
    by_cases hb : b = a
    case pos =>
      subst hb
      cases n <;> cases hp : p b <;> simp [hp]
      intro hm
      exact absurd (List.mem_filter.mp (List.mem_of_mem_take hm)).right (by simp [hp])
    case neg =>
      rw [List.takeWhile_cons_of_pos (by simpa using hb), List.countP_cons, List.mem_cons,
        or_iff_right (Ne.symm hb), List.filter_cons]
      cases hp : p b
      case false => simp [hi]
      case true =>
        cases n
        case zero   => simp
        case succ n => simp [Ne.symm hb, hi]

-- The parts that two lists have in common, and those of either, do not depend on the order.
theorem length_inter_comm [DecidableEq α] {l m : List α} (hl : l.Nodup) (hm : m.Nodup) :
    (l ∩ m).length = (m ∩ l).length := by
  have hp : (l ∩ m).Perm (m ∩ l) := by
    rw [List.perm_ext_iff_of_nodup (hl.inter m) (hm.inter l)]
    simp [and_comm]
  exact hp.length_eq

theorem length_union_comm [DecidableEq α] {l m : List α} (hl : l.Nodup) (hm : m.Nodup) :
    (l ∪ m).length = (m ∪ l).length := by
  have hp : (l ∪ m).Perm (m ∪ l) := by
    rw [List.perm_ext_iff_of_nodup (hm.union l) (hl.union m)]
    simp [or_comm]
  exact hp.length_eq

end Lists

-- Lists that correspond element by element.
namespace List.Forall₂

variable {α β : Type} {R : α → β → Prop} {l : List α} {l' : List β}

theorem exists_left (h : List.Forall₂ R l l') : ∀ b ∈ l', ∃ a ∈ l, R a b := by
  induction h
  case nil => simp
  case cons a b _ _ hr _ hi =>
    rw [List.forall_mem_cons]
    refine ⟨⟨a, List.mem_cons_self, hr⟩, fun b hb => ?_⟩
    have ⟨a, ha, hr⟩ := hi b hb
    exact ⟨a, List.mem_cons_of_mem _ ha, hr⟩

theorem exists_right (h : List.Forall₂ R l l') : ∀ a ∈ l, ∃ b ∈ l', R a b :=
  List.Forall₂.exists_left (List.Forall₂.flip h)

end List.Forall₂

-- A code word for each symbol, of which none is the beginning of another.
structure PrefixCode (α β : Type) where
  word     : α → List β
  nonempty : ∀ a, word a ≠ []
  free     : ∀ {a b}, word a <+: word b → a = b

namespace PrefixCode

variable {α β : Type} (c : PrefixCode α β)

def encode (l : List α) : List β :=
  l.flatMap c.word

variable {c} {l m : List α} {x y : List β} {a b : α}

-- The first word of a text is known by the text.
theorem word_append_inj (h : c.word a ++ x = c.word b ++ y) : a = b ∧ x = y := by
  have hab : a = b := by
    cases List.prefix_or_prefix_of_prefix (List.prefix_append (c.word a) x) (h ▸ List.prefix_append (c.word b) y)
    case inl h => exact c.free h
    case inr h => exact (c.free h).symm
  subst hab
  exact ⟨rfl, List.append_cancel_left h⟩

theorem encode_inj (h : c.encode l = c.encode m) : l = m := by
  induction l generalizing m
  case nil =>
    cases m
    case nil      => rfl
    case cons b m => exact absurd (List.append_eq_nil_iff.mp h.symm).1 (c.nonempty b)
  case cons a l hi =>
    cases m
    case nil      => exact absurd (List.append_eq_nil_iff.mp h).1 (c.nonempty a)
    case cons b m =>
      have ⟨hab, hlm⟩ := word_append_inj h
      rw [hab, hi hlm]

theorem not_mem_encode {z : β} (h : ∀ a ∈ l, z ∉ c.word a) : z ∉ c.encode l := by
  intro hz
  have ⟨a, ha, hz⟩ := List.mem_flatMap.mp hz
  exact h a ha hz

end PrefixCode

-- The groups of a list by a key, and the keys in the order in which they first occur.
structure Grouping (κ α : Type) [LinearOrder κ] where
  order  : List κ               := []
  groups : BTreeMap κ (List α) := ∅

namespace Grouping

variable {κ α : Type} [LinearOrder κ] (key : α → κ)

def add (g : Grouping κ α) (a : α) : Grouping κ α where
  order  := if key a ∈ g.order then g.order else g.order ++ [key a]
  groups := g.groups.insert (key a) <| (g.groups.get? (key a)).getD [] ++ [a]

-- Take the groups out of the map, one after the other.
def drain : List κ → BTreeMap κ (List α) → List (κ × List α)
  | [], _           => []
  | k :: ks, groups => (k, (groups.get? k).getD []) :: drain ks (groups.remove k)

def grouped (l : List α) : List (κ × List α) :=
  let g := l.foldl (add key) {}
  drain g.order g.groups

variable {key} {l : List α} {k : κ} {as : List α}

-- What the groups are after a part of the list.
structure Groups (key : α → κ) (l : List α) (g : Grouping κ α) : Prop where
  order : g.order = Lists.retainNew (l.map key)
  group : ∀ k, (g.groups.get? k).getD [] = l.filter (key · = k)

theorem groups_empty : Groups key [] {} where
  order   := rfl
  group _ := rfl

theorem groups_add {g : Grouping κ α} {a : α} (h : Groups key l g) : Groups key (l ++ [a]) (g.add key a) where
  order := by
    rw [List.map_append, List.map_singleton, Lists.retainNew_concat, add, h.order]
    simp only [Lists.mem_retainNew]
  group k := by
    rw [List.filter_append, add, BTreeMap.get?_insert]
    by_cases hk : k = key a
    case pos => simp [hk, h.group]
    case neg => simp [hk, h.group, Ne.symm hk]

theorem groups_foldl (key : α → κ) (l : List α) : Groups key l (l.foldl (add key) {}) := by
  induction l using List.reverseRecOn with
  | nil              => exact groups_empty
  | append_singleton l a hi =>
    rw [List.foldl_append]
    exact groups_add hi

-- Each key is asked for once, so that nothing is missing from the map.
theorem drain_eq {ks : List κ} {groups : BTreeMap κ (List α)} (h : ks.Nodup) :
    drain ks groups = ks.map fun k => (k, (groups.get? k).getD []) := by
  induction ks generalizing groups
  case nil          => rfl
  case cons k ks hi =>
    have ⟨hk, hks⟩ := List.nodup_cons.mp h
    rw [drain, hi hks, List.map_cons]
    congr 1
    apply List.map_congr_left
    intro k' hk'
    have hne : k' ≠ k := fun he => hk (he ▸ hk')
    rw [BTreeMap.get?_remove, if_neg hne]

theorem grouped_eq :
    grouped key l = (Lists.retainNew (l.map key)).map fun k => (k, l.filter (key · = k)) := by
  have h := groups_foldl key l
  rw [grouped, drain_eq (h.order ▸ Lists.nodup_retainNew), h.order]
  exact List.map_congr_left fun k _ => by rw [h.group]

theorem keys_grouped : (grouped key l).map Prod.fst = Lists.retainNew (l.map key) := by
  simp [grouped_eq, Function.comp_def]

theorem mem_grouped : (k, as) ∈ grouped key l ↔ k ∈ l.map key ∧ as = l.filter (key · = k) := by
  simp only [grouped_eq, List.mem_map, Lists.mem_retainNew, Prod.mk.injEq]
  grind

end Grouping
