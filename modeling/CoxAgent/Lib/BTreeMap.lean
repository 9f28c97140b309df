import Mathlib.Data.List.Sort
import Mathlib.Data.String.Basic

-- An ordered map is the list of its entries in strictly ascending key order. Keeping the order as a
-- field makes the representation canonical: two maps are equal iff they have the same entries.
@[ext]
structure BTreeMap (κ ν : Type) [LinearOrder κ] where
  entries : List (κ × ν)
  sorted  : entries.Pairwise (fun a b => a.1 < b.1)

-- A set is a map without payload.
abbrev BTreeSet (κ : Type) [LinearOrder κ] := BTreeMap κ Unit

namespace BTreeMap

variable {κ ν : Type} [LinearOrder κ]

instance [DecidableEq ν] : DecidableEq (BTreeMap κ ν) := fun m₁ m₂ =>
  decidable_of_iff (m₁.entries = m₂.entries) BTreeMap.ext_iff.symm

def empty : BTreeMap κ ν where
  entries := []
  sorted  := .nil

instance : EmptyCollection (BTreeMap κ ν) where
  emptyCollection := empty

instance : Inhabited (BTreeMap κ ν) where
  default := ∅

def single (k : κ) (v : ν) : BTreeMap κ ν where
  entries := [(k, v)]
  sorted  := List.pairwise_singleton _ _

def keys (m : BTreeMap κ ν) : List κ :=
  m.entries.map Prod.fst

def values (m : BTreeMap κ ν) : List ν :=
  m.entries.map Prod.snd

def len (m : BTreeMap κ ν) : Nat :=
  m.entries.length

def get? (m : BTreeMap κ ν) (k : κ) : Option ν :=
  (m.entries.find? (·.1 = k)).map Prod.snd

def retain (p : κ → Bool) (m : BTreeMap κ ν) : BTreeMap κ ν where
  entries := m.entries.filter (p ·.1)
  sorted  := m.sorted.filter _

def remove (m : BTreeMap κ ν) (k : κ) : BTreeMap κ ν :=
  m.retain (· ≠ k)

def insert (m : BTreeMap κ ν) (k : κ) (v : ν) : BTreeMap κ ν where
  entries := m.entries.filter (·.1 < k) ++ (k, v) :: m.entries.filter (k < ·.1)
  sorted  := by
    refine List.pairwise_append.mpr ⟨m.sorted.filter _, ?_, ?_⟩
    · exact List.pairwise_cons.mpr ⟨by simp, m.sorted.filter _⟩
    · intro a ha b hb
      have hak : a.1 < k := by simpa using (List.mem_filter.mp ha).right
      rcases List.mem_cons.mp hb with rfl | hb
      · exact hak
      · have hkb : k < b.1 := by simpa using (List.mem_filter.mp hb).right
        exact hak.trans hkb

@[simp]
theorem mem_keys_insert {m : BTreeMap κ ν} {k k' : κ} {v : ν} :
    k' ∈ (m.insert k v).keys ↔ k' = k ∨ k' ∈ m.keys := by
  simp only [keys, insert, List.map_append, List.map_cons, List.mem_append, List.mem_cons, List.mem_map,
    List.mem_filter, decide_eq_true_eq]
  constructor
  case mp =>
    rintro (⟨e, he, rfl⟩ | rfl | ⟨e, he, rfl⟩)
    · exact .inr ⟨e, he.1, rfl⟩
    · exact .inl rfl
    · exact .inr ⟨e, he.1, rfl⟩
  case mpr =>
    rintro (rfl | ⟨e, he, rfl⟩)
    · exact .inr (.inl rfl)
    · rcases lt_trichotomy e.1 k with h | h | h
      · exact .inl ⟨e, ⟨he, h⟩, rfl⟩
      · exact .inr (.inl h)
      · exact .inr (.inr ⟨e, ⟨he, h⟩, rfl⟩)

-- A set that is filled one key after the other.
theorem mem_keys_foldl_insert {m : BTreeSet κ} {ks : List κ} {k' : κ} :
    k' ∈ (ks.foldl (fun m k => m.insert k ()) m).keys ↔ k' ∈ ks ∨ k' ∈ m.keys := by
  induction ks generalizing m
  case nil => simp
  case cons k ks hi =>
    rw [List.foldl_cons, hi, mem_keys_insert, List.mem_cons, or_assoc, or_left_comm]

section Retain

variable {m : BTreeMap κ ν} {p q : κ → Bool} {k : κ}

@[simp]
theorem keys_empty : (∅ : BTreeMap κ ν).keys = [] :=
  rfl

@[simp]
theorem keys_single {v : ν} : (single k v).keys = [k] :=
  rfl

@[simp]
theorem keys_retain : (m.retain p).keys = m.keys.filter p := by
  simp [keys, retain, List.filter_map, Function.comp_def]

@[simp]
theorem mem_keys_remove {k' : κ} : k ∈ (m.remove k').keys ↔ k ∈ m.keys ∧ k ≠ k' := by
  simp [remove]

theorem retain_congr (h : ∀ k ∈ m.keys, p k = q k) : m.retain p = m.retain q := by
  ext1
  apply List.filter_congr
  intro e he
  exact h e.1 (List.mem_map_of_mem he)

theorem retain_eq_self (h : ∀ k ∈ m.keys, p k) : m.retain p = m := by
  ext1
  apply List.filter_eq_self.mpr
  intro e he
  exact h e.1 (List.mem_map_of_mem he)

theorem retain_retain : (m.retain p).retain q = m.retain (fun k => p k && q k) := by
  simp [retain, List.filter_filter, Bool.and_comm]

theorem len_eq_keys_length : m.len = m.keys.length := by
  simp [len, keys]

-- The number of entries a `retain` drops is positive iff some key fails the predicate.
theorem len_retain_lt_iff : (m.retain p).len < m.len ↔ ∃ k ∈ m.keys, p k = false := by
  rw [len_eq_keys_length, len_eq_keys_length, keys_retain, List.length_filter_lt_length_iff_exists]
  simp

end Retain

section Get

variable {m : BTreeMap κ ν} {k k' : κ} {v : ν}

theorem nodup_keys : m.keys.Nodup :=
  List.pairwise_map.mpr (m.sorted.imp ne_of_lt)

theorem get?_eq_some : m.get? k = some v ↔ (k, v) ∈ m.entries := by
  unfold get?
  constructor
  case mp =>
    intro h
    obtain ⟨e, he, rfl⟩ := Option.map_eq_some_iff.mp h
    have hk : e.1 = k := by simpa using List.find?_some he
    exact hk ▸ List.mem_of_find?_eq_some he
  case mpr =>
    intro h
    have hs : (m.entries.find? (·.1 = k)).isSome := List.find?_isSome.mpr ⟨(k, v), h, by simp⟩
    obtain ⟨e, he⟩ := Option.isSome_iff_exists.mp hs
    have hk : e.1 = k := by simpa using List.find?_some he
    have heq := List.inj_on_of_nodup_map nodup_keys (List.mem_of_find?_eq_some he) h hk
    rw [he, heq]
    rfl

@[simp]
theorem get?_empty : (∅ : BTreeMap κ ν).get? k = none :=
  rfl

@[simp]
theorem get?_insert : (m.insert k v).get? k' = if k' = k then some v else m.get? k' := by
  ext v'
  have hm : (k', v') ∈ (m.insert k v).entries ↔
      (k', v') ∈ m.entries ∧ k' < k ∨ (k' = k ∧ v' = v) ∨ (k', v') ∈ m.entries ∧ k < k' := by
    simp [insert]
  rw [get?_eq_some, hm]
  split
  case isTrue h  =>
    subst h
    simp [eq_comm]
  case isFalse h =>
    rw [get?_eq_some]
    have := lt_or_gt_of_ne h
    tauto

@[simp]
theorem get?_remove : (m.remove k).get? k' = if k' = k then none else m.get? k' := by
  ext v'
  rw [get?_eq_some]
  split
  case isTrue h  => simp [remove, retain, h]
  case isFalse h => simp [remove, retain, h, get?_eq_some]

@[simp]
theorem get?_retain {p : κ → Bool} : (m.retain p).get? k = if p k then m.get? k else none := by
  ext v'
  rw [get?_eq_some]
  split
  case isTrue h  => simp [retain, h, get?_eq_some]
  case isFalse h => simp [retain, h]

end Get

end BTreeMap
