import Mathlib.Data.List.Nodup
import Mathlib.Data.List.Perm.Subperm
import Mathlib.Order.WellFounded

-- Ordering items so that each one follows its prerequisites. The first item that is ready comes
-- next. Items on a cycle are appended as they are.
namespace Topo

variable {τ κ : Type} [DecidableEq κ] (key : τ → κ) (deps : τ → List κ) (members : List τ)

-- Not placed yet, and its prerequisites among the members are.
def ready (placed : List κ) (t : τ) : Bool :=
  key t ∉ placed ∧ ∀ d ∈ deps t, d ∈ members.map key → d ∈ placed

-- The counter is the number of members that are still to be placed.
def order.go : Nat → List κ → List κ
  | 0,     ordered => ordered
  | n + 1, ordered =>
    match members.find? (ready key deps members ordered) with
    | some next => go n (ordered ++ [key next])
    | none      => ordered ++ (members.filter (key · ∉ ordered)).map key

def order : List κ :=
  order.go key deps members members.length []

variable {key deps members} {ordered : List κ} {n : Nat}

-- What has been placed, and how much is left.
structure Placed (key : τ → κ) (members : List τ) (n : Nat) (ordered : List κ) : Prop where
  nodup  : ordered.Nodup
  subset : ordered ⊆ members.map key
  length : ordered.length + n = members.length

theorem ready_iff {t : τ} : ready key deps members ordered t ↔
    key t ∉ ordered ∧ ∀ d ∈ deps t, d ∈ members.map key → d ∈ ordered := by
  simp [ready]

theorem Placed.next {t : τ} (h : Placed key members (n + 1) ordered)
    (hf : members.find? (ready key deps members ordered) = some t) :
    Placed key members n (ordered ++ [key t]) := by
  have ht := List.mem_of_find?_eq_some hf
  have hr := ready_iff.mp (List.find?_some hf)
  constructor
  case nodup  => exact List.concat_eq_append ▸ h.nodup.concat hr.left
  case subset => simpa using ⟨h.subset, t, ht, rfl⟩
  case length => simpa [Nat.add_assoc, Nat.add_comm 1] using h.length

-- Every member is placed exactly once, on a cycle or not.
theorem order.go_perm (hm : (members.map key).Nodup) (h : Placed key members n ordered) :
    (order.go key deps members n ordered).Perm (members.map key) := by
  induction n generalizing ordered
  case zero =>
    have hl : (members.map key).length ≤ ordered.length := by simpa using h.length.ge
    exact (h.nodup.subperm h.subset).perm_of_length_le hl
  case succ n hi =>
    rw [go]
    split
    case h_1 next hf => exact hi (h.next hf)
    case h_2 =>
      refine (List.perm_ext_iff_of_nodup ?_ hm).mpr fun k => ?_
      · refine List.nodup_append.mpr ⟨h.nodup, ?_, ?_⟩
        · exact (List.filter_sublist.map key).nodup hm
        · intro a ha b hb he
          obtain ⟨t, ht, rfl⟩ := List.mem_map.mp hb
          exact absurd (he ▸ ha) (by simpa using (List.mem_filter.mp ht).right)
      · by_cases hk : k ∈ ordered
        case pos => simpa [hk] using List.mem_map.mp (h.subset hk)
        case neg => simp [hk]; grind

theorem order_perm (hm : (members.map key).Nodup) :
    (order key deps members).Perm (members.map key) :=
  order.go_perm hm ⟨by simp, by simp, by simp⟩

-- Nothing comes before one of its prerequisites.
def Ordered (deps : κ → List κ) (members : List κ) (ordered : List κ) : Prop :=
  ∀ pre k post, ordered = pre ++ k :: post → ∀ d ∈ deps k, d ∈ members → d ∈ pre

omit [DecidableEq κ] in
theorem Ordered.concat {deps : κ → List κ} {members : List κ} {k : κ}
    (h : Ordered deps members ordered) (hk : ∀ d ∈ deps k, d ∈ members → d ∈ ordered) :
    Ordered deps members (ordered ++ [k]) := by
  intro pre k' post he d hd hm
  rcases List.eq_nil_or_concat post with rfl | ⟨post, last, rfl⟩
  · have ⟨ho, hk'⟩ := List.append_inj' he rfl
    cases hk'
    exact ho ▸ hk d hd hm
  · rw [List.concat_eq_append, ← List.cons_append, ← List.append_assoc] at he
    have ⟨ho, _⟩ := List.append_inj' he rfl
    exact h pre k' post ho d hd hm

-- A member that nothing unplaced comes before exists as long as something is unplaced.
theorem find?_ready {deps' : κ → List κ} (hw : WellFounded fun d k => d ∈ deps' k)
    (hd : ∀ t ∈ members, deps' (key t) = deps t) (h : ∃ t ∈ members, key t ∉ ordered) :
    members.find? (ready key deps members ordered) ≠ none := by
  obtain ⟨t, ht, hn⟩ := h
  let unplaced : Set κ := {k | k ∈ members.map key ∧ k ∉ ordered}
  have hne : unplaced.Nonempty := ⟨key t, List.mem_map_of_mem ht, hn⟩
  have ⟨hm, hu⟩ := hw.min_mem unplaced hne
  obtain ⟨t', ht', he⟩ := List.mem_map.mp hm
  intro hf
  refine List.find?_eq_none.mp hf t' ht' (ready_iff.mpr ⟨he ▸ hu, fun d hd' hdm => ?_⟩)
  by_contra hdn
  refine hw.not_lt_min unplaced ⟨hdm, hdn⟩ ?_
  rw [← he, hd t' ht']
  exact hd'

theorem order.go_ordered {deps' : κ → List κ} (hw : WellFounded fun d k => d ∈ deps' k)
    (hd : ∀ t ∈ members, deps' (key t) = deps t) (hm : (members.map key).Nodup)
    (h : Placed key members n ordered) (ho : Ordered deps' (members.map key) ordered) :
    Ordered deps' (members.map key) (order.go key deps members n ordered) := by
  induction n generalizing ordered
  case zero => exact ho
  case succ n hi =>
    rw [go]
    split
    case h_1 next hf =>
      have hr := ready_iff.mp (List.find?_some hf)
      have hdn := hd next (List.mem_of_find?_eq_some hf)
      exact hi (h.next hf) (ho.concat (hdn ▸ hr.right))
    case h_2 hf =>
      refine absurd hf (find?_ready hw hd ?_)
      -- Fewer are placed than there are.
      by_contra hall
      push Not at hall
      have hs : members.map key ⊆ ordered := by
        intro k hk
        obtain ⟨t, ht, rfl⟩ := List.mem_map.mp hk
        exact hall t ht
      have hle := (hm.subperm hs).length_le
      have hlen := h.length
      simp at hle
      omega

theorem order_ordered {deps' : κ → List κ} (hw : WellFounded fun d k => d ∈ deps' k)
    (hd : ∀ t ∈ members, deps' (key t) = deps t) (hm : (members.map key).Nodup) :
    Ordered deps' (members.map key) (order key deps members) :=
  order.go_ordered hw hd hm ⟨by simp, by simp, by simp⟩ (fun pre k post he => by simp at he)

end Topo
