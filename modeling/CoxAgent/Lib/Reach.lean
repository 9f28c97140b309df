import Mathlib.Algebra.Order.Ring.Nat
import Mathlib.Data.List.Nodup
import Mathlib.Logic.Relation

-- The vertices that a walk over a graph gets to. The graph is given by the successors of each vertex.
namespace Reach

open Relation

variable {α : Type} [DecidableEq α]

section Definitions

variable (succ : α → List α) (keep : α → Bool) (target : α)

-- Take vertices from a stack until the target is one of them, and push the successors of those that are new.
def finds : Nat → List α → List α → Bool
  | _,        _,    []         => false
  | 0,        _,    _ :: _     => false
  | fuel + 1, seen, x :: stack =>
    if x = target then
      true
    else if x ∈ seen then
      finds fuel seen stack
    else
      finds fuel (x :: seen) ((succ x).reverse ++ stack)

-- Go through the successors and on from those that are new and kept. What is kept is noted when it is entered.
def walk : Nat → α → List α × List α → List α × List α
  | 0,        _, noted => noted
  | fuel + 1, x, noted =>
    (succ x).foldl (fun (chain, seen) y =>
      if y ∈ seen then
        (chain, seen)
      else if keep y then
        walk fuel y (chain ++ [y], y :: seen)
      else
        (chain, y :: seen)) noted

-- The pops that are still to come.
def work (nodes seen stack : List α) : Nat :=
  stack.length + (nodes.map fun n => if n ∈ seen then 0 else (succ n).length).sum

-- One step of a walk that enters only what is kept.
def Step (x y : α) : Prop :=
  y ∈ succ x ∧ keep y

end Definitions

variable {succ : α → List α} {keep : α → Bool} {target x y : α} {nodes seen stack : List α}

section Search

-- Between two pops: what was seen is not the target, and what it leads to was seen or waits on the stack.
structure Open (succ : α → List α) (target : α) (seen stack : List α) : Prop where
  missed : target ∉ seen
  next   : ∀ x ∈ seen, ∀ y ∈ succ x, y ∈ seen ∨ y ∈ stack

def Leads (succ : α → List α) (stack : List α) (target : α) : Prop :=
  ∃ x ∈ stack, ReflTransGen (fun a b => b ∈ succ a) x target

omit [DecidableEq α] in
theorem Open.leads (h : Open succ target seen stack) (hx : x ∈ seen)
    (hp : ReflTransGen (fun a b => b ∈ succ a) x target) : Leads succ stack target := by
  induction hp using ReflTransGen.head_induction_on
  case refl             => exact absurd hx h.missed
  case head a b hab hb hi =>
    cases h.next a hx b hab
    case inl hs => exact hi hs
    case inr hs => exact ⟨b, hs, hb⟩

omit [DecidableEq α] in
theorem Open.pop (h : Open succ target seen (x :: stack)) (hx : x ∈ seen) : Open succ target seen stack where
  missed := h.missed
  next a ha b hb := by
    cases h.next a ha b hb
    case inl hs => exact .inl hs
    case inr hs =>
      cases List.mem_cons.mp hs
      case inl he => exact .inl (he ▸ hx)
      case inr hs => exact .inr hs

omit [DecidableEq α] in
theorem Open.push (h : Open succ target seen (x :: stack)) (hx : x ≠ target) :
    Open succ target (x :: seen) ((succ x).reverse ++ stack) where
  missed hm := (List.mem_cons.mp hm).elim (fun he => hx he.symm) h.missed
  next a ha b hb := by
    rw [List.mem_append, List.mem_reverse, List.mem_cons]
    cases List.mem_cons.mp ha
    case inl he => exact .inr (.inl (he ▸ hb))
    case inr ha =>
      cases h.next a ha b hb
      case inl hs => exact .inl (.inr hs)
      case inr hs =>
        cases List.mem_cons.mp hs
        case inl he => exact .inl (.inl he)
        case inr hs => exact .inr (.inr hs)

theorem work_push (hx : x ∉ seen) (hn : x ∉ nodes → succ x = []) :
    work succ nodes (x :: seen) ((succ x).reverse ++ stack) + 1 ≤ work succ nodes seen (x :: stack) := by
  have hsum (l : List α) : (l.map fun n => if n ∈ x :: seen then 0 else (succ n).length).sum ≤
      (l.map fun n => if n ∈ seen then 0 else (succ n).length).sum ∧
      (x ∈ l → (l.map fun n => if n ∈ x :: seen then 0 else (succ n).length).sum + (succ x).length ≤
        (l.map fun n => if n ∈ seen then 0 else (succ n).length).sum) := by
    induction l
    case nil         => simp
    case cons n l hi =>
      have hle : (if n ∈ x :: seen then 0 else (succ n).length) ≤ if n ∈ seen then 0 else (succ n).length := by
        by_cases hm : n ∈ seen
        case pos => simp [hm]
        case neg => split <;> simp
      simp only [List.map_cons, List.sum_cons]
      refine ⟨Nat.add_le_add hle hi.left, fun hm => ?_⟩
      cases List.mem_cons.mp hm
      case inl he =>
        subst he
        rw [if_pos List.mem_cons_self, if_neg hx]
        have := hi.left
        omega
      case inr hm =>
        have := hi.right hm
        omega
  have := (hsum nodes).left
  have := (hsum nodes).right
  simp only [work, List.length_append, List.length_reverse, List.length_cons]
  by_cases hm : x ∈ nodes
  case pos =>
    have := this hm
    omega
  case neg =>
    rw [hn hm, List.length_nil]
    omega

-- The search finds the target exactly if a vertex of the stack leads to it.
theorem finds_iff {fuel : Nat} (hn : ∀ x, x ∉ nodes → succ x = []) (h : Open succ target seen stack)
    (hf : work succ nodes seen stack ≤ fuel) : finds succ target fuel seen stack ↔ Leads succ stack target := by
  induction fuel generalizing seen stack
  case zero =>
    cases stack
    case nil      => simp [finds, Leads]
    case cons x l => simp [work] at hf
  case succ fuel hi =>
    cases stack
    case nil          => simp [finds, Leads]
    case cons x stack =>
      rw [finds]
      split
      case isTrue he  => exact iff_of_true rfl ⟨x, List.mem_cons_self, he ▸ .refl⟩
      case isFalse he =>
        split
        case isTrue hx  =>
          have hw : work succ nodes seen stack ≤ fuel := by
            simp only [work, List.length_cons] at hf ⊢
            omega
          rw [hi (h.pop hx) hw]
          constructor
          case mp  => exact fun ⟨y, hy, hp⟩ => ⟨y, List.mem_cons_of_mem _ hy, hp⟩
          case mpr =>
            intro ⟨y, hy, hp⟩
            cases List.mem_cons.mp hy
            case inl hyx => exact (h.pop hx).leads (hyx ▸ hx) hp
            case inr hy  => exact ⟨y, hy, hp⟩
        case isFalse hx =>
          have hw : work succ nodes (x :: seen) ((succ x).reverse ++ stack) + 1 ≤ work succ nodes seen (x :: stack) :=
            work_push hx (hn x)
          rw [hi (h.push he) (by omega)]
          constructor
          case mp =>
            intro ⟨y, hy, hp⟩
            cases List.mem_append.mp hy
            case inl hy => exact ⟨x, List.mem_cons_self, .head (List.mem_reverse.mp hy) hp⟩
            case inr hy => exact ⟨y, List.mem_cons_of_mem _ hy, hp⟩
          case mpr =>
            intro ⟨y, hy, hp⟩
            cases List.mem_cons.mp hy
            case inl hyx => exact (h.push he).leads (List.mem_cons.mpr (.inl hyx)) hp
            case inr hy  => exact ⟨y, List.mem_append_right _ hy, hp⟩

end Search

section Preorder

variable {l l' new new' : List α} {noted noted' noted'' : List α × List α}

-- What going through the successors `l` of `x` adds to the chain.
structure Added (succ : α → List α) (keep : α → Bool) (x : α) (l new : List α) (noted noted' : List α × List α) :
    Prop where
  chain   : noted'.1 = noted.1 ++ new
  seen    : noted.2 ⊆ noted'.2
  nodup   : new.Nodup
  fresh   : ∀ y ∈ new, y ∉ noted.2
  kept    : ∀ y ∈ new, keep y
  marked  : ∀ y ∈ new, y ∈ noted'.2
  sole    : ∀ y ∈ noted'.2, keep y → y ∈ noted.2 ∨ y ∈ new
  closed  : ∀ y ∈ new, ∀ z ∈ succ y, keep z → z ∈ noted'.2
  covered : ∀ z ∈ l, keep z → z ∈ noted'.2
  ordered : ∀ pre y post, new = pre ++ y :: post → ∃ z ∈ x :: pre, y ∈ succ z

namespace Added

omit [DecidableEq α]

theorem nil : Added succ keep x [] [] noted noted where
  chain   := (List.append_nil _).symm
  seen    := List.Subset.refl _
  nodup   := List.nodup_nil
  fresh   := by simp
  kept    := by simp
  marked  := by simp
  sole    := fun _ hy _ => .inl hy
  closed  := by simp
  covered := by simp
  ordered := by simp

theorem append (h : Added succ keep x l new noted noted') (h' : Added succ keep x l' new' noted' noted'') :
    Added succ keep x (l ++ l') (new ++ new') noted noted'' where
  chain   := by rw [h'.chain, h.chain, List.append_assoc]
  seen    := List.Subset.trans h.seen h'.seen
  nodup   := h.nodup.append h'.nodup fun y hy hy' => h'.fresh y hy' (h.marked y hy)
  fresh   := List.forall_mem_append.mpr ⟨h.fresh, fun y hy hm => h'.fresh y hy (h.seen hm)⟩
  kept    := List.forall_mem_append.mpr ⟨h.kept, h'.kept⟩
  marked  := List.forall_mem_append.mpr ⟨fun y hy => h'.seen (h.marked y hy), h'.marked⟩
  sole y hy hk := by
    rw [List.mem_append]
    cases h'.sole y hy hk
    case inl hy => exact (h.sole y hy hk).imp_right .inl
    case inr hy => exact .inr (.inr hy)
  closed  := List.forall_mem_append.mpr ⟨fun y hy z hz hk => h'.seen (h.closed y hy z hz hk), h'.closed⟩
  covered := List.forall_mem_append.mpr ⟨fun z hz hk => h'.seen (h.covered z hz hk), h'.covered⟩
  ordered pre y post he := by
    rcases List.append_eq_append_iff.mp he with ⟨mid, hpre, hpost⟩ | ⟨mid, hnew, hpre⟩
    case inl =>
      obtain ⟨z, hz, hy⟩ := h'.ordered mid y post hpost
      refine ⟨z, ?_, hy⟩
      rw [hpre, List.mem_cons, List.mem_append]
      exact (List.mem_cons.mp hz).imp_right .inr
    case inr =>
      cases mid
      case nil =>
        rw [List.nil_append] at hpre
        obtain ⟨z, hz, hy⟩ := h'.ordered [] y post hpre.symm
        exact ⟨z, List.mem_cons.mpr (.inl (List.mem_singleton.mp hz)), hy⟩
      case cons c mid =>
        obtain ⟨rfl, -⟩ := List.cons.inj hpre
        exact h.ordered pre y mid hnew

-- A successor that was seen before, or that is not kept.
theorem skip (hy : y ∈ noted.2) : Added succ keep x [y] [] noted noted :=
  { nil with covered := fun _ hz _ => List.mem_singleton.mp hz ▸ hy }

theorem drop (hk : ¬keep y) : Added succ keep x [y] [] noted (noted.1, y :: noted.2) where
  chain   := (List.append_nil _).symm
  seen    := List.subset_cons_self _ _
  nodup   := List.nodup_nil
  fresh   := by simp
  kept    := by simp
  marked  := by simp
  sole z hz hz' := by
    cases List.mem_cons.mp hz
    case inl he => exact absurd (he ▸ hz') hk
    case inr hz => exact .inl hz
  closed  := by simp
  covered := fun z hz _ => List.mem_cons.mpr (.inl (List.mem_singleton.mp hz))
  ordered := by simp

-- A successor that is entered, with what the walk from there adds.
theorem enter (hy : y ∉ noted.2) (hk : keep y) (hx : y ∈ succ x)
    (h : Added succ keep y (succ y) new (noted.1 ++ [y], y :: noted.2) noted') :
    Added succ keep x [y] (y :: new) noted noted' where
  chain   := by rw [h.chain, List.append_assoc, List.singleton_append]
  seen    := fun z hz => h.seen (List.mem_cons_of_mem _ hz)
  nodup   := List.nodup_cons.mpr ⟨fun hm => h.fresh y hm List.mem_cons_self, h.nodup⟩
  fresh   := List.forall_mem_cons.mpr ⟨hy, fun z hz hm => h.fresh z hz (List.mem_cons_of_mem _ hm)⟩
  kept    := List.forall_mem_cons.mpr ⟨hk, h.kept⟩
  marked  := List.forall_mem_cons.mpr ⟨h.seen List.mem_cons_self, h.marked⟩
  sole z hz hz' := by
    rw [List.mem_cons]
    cases h.sole z hz hz'
    case inl hz => exact (List.mem_cons.mp hz).symm.imp_right .inl
    case inr hz => exact .inr (.inr hz)
  closed  := List.forall_mem_cons.mpr ⟨h.covered, h.closed⟩
  covered := fun z hz _ => List.mem_singleton.mp hz ▸ h.seen List.mem_cons_self
  ordered pre z post he := by
    cases pre
    case nil          =>
      obtain ⟨rfl, -⟩ := List.cons.inj he
      exact ⟨x, List.mem_cons_self, hx⟩
    case cons c pre =>
      obtain ⟨rfl, htail⟩ := List.cons.inj he
      obtain ⟨w, hw, hz⟩ := h.ordered pre z post htail
      exact ⟨w, List.mem_cons_of_mem _ hw, hz⟩

end Added

-- The vertices that can still be entered.
def left (keep : α → Bool) (nodes seen : List α) : Nat :=
  nodes.countP fun n => keep n ∧ n ∉ seen

theorem left_mono (h : seen ⊆ stack) : left keep nodes stack ≤ left keep nodes seen :=
  List.countP_mono_left fun n _ hn => by
    simp only [decide_eq_true_eq] at hn ⊢
    exact ⟨hn.left, fun hm => hn.right (h hm)⟩

theorem left_enter (hy : y ∉ seen) (hk : keep y) (hn : y ∈ nodes) :
    left keep nodes (y :: seen) < left keep nodes seen := by
  unfold left
  induction nodes
  case nil              => simp at hn
  case cons n nodes hi  =>
    have hle : nodes.countP (fun n => decide (keep n ∧ n ∉ y :: seen)) ≤
        nodes.countP fun n => decide (keep n ∧ n ∉ seen) :=
      left_mono (List.subset_cons_self _ _)
    rw [List.countP_cons, List.countP_cons]
    by_cases he : n = y
    case pos =>
      subst he
      simp only [List.mem_cons_self, not_true, and_false, decide_false, hk, hy, not_false_eq_true, and_self,
        decide_true]
      simp only [Bool.false_eq_true, ↓reduceIte]
      omega
    case neg =>
      have hlt := hi ((List.mem_cons.mp hn).resolve_left (Ne.symm he))
      have hsame : (keep n ∧ n ∉ y :: seen) ↔ keep n ∧ n ∉ seen := by simp [he]
      simp only [hsame]
      omega

theorem walk_added {fuel : Nat} (hn : ∀ y, keep y → y ∈ nodes) (hf : left keep nodes noted.2 ≤ fuel) :
    ∃ new, Added succ keep x (succ x) new noted (walk succ keep fuel x noted) := by
  induction fuel generalizing x noted
  case zero =>
    -- Nothing is left to enter, and what is not kept need not be noted.
    have hall (y : α) (hk : keep y) : y ∈ noted.2 := by
      by_contra hy
      have := left_enter hy hk (hn y hk)
      omega
    exact ⟨[], { Added.nil with covered := fun z _ hk => hall z hk }⟩
  case succ fuel hi =>
    rw [walk]
    have hfold (l : List α) (hl : l ⊆ succ x) (noted : List α × List α)
        (hf : left keep nodes noted.2 ≤ fuel + 1) : ∃ new, Added succ keep x l new noted
          (l.foldl (fun (chain, seen) y =>
            if y ∈ seen then (chain, seen)
            else if keep y then walk succ keep fuel y (chain ++ [y], y :: seen)
            else (chain, y :: seen)) noted) := by
      induction l generalizing noted
      case nil          => exact ⟨[], .nil⟩
      case cons y l hil =>
        have ⟨hy, hl⟩ := List.cons_subset.mp hl
        have hstep : ∃ new, Added succ keep x [y] new noted
            (if y ∈ noted.2 then noted
              else if keep y then walk succ keep fuel y (noted.1 ++ [y], y :: noted.2)
              else (noted.1, y :: noted.2)) := by
          split
          case isTrue hm  => exact ⟨[], .skip hm⟩
          case isFalse hm =>
            split
            case isFalse hk => exact ⟨[], .drop hk⟩
            case isTrue hk  =>
              have hlt := left_enter hm hk (hn y hk)
              obtain ⟨new, ha⟩ := @hi y (noted.1 ++ [y], y :: noted.2) (Nat.le_of_lt_succ (hlt.trans_le hf))
              exact ⟨y :: new, ha.enter hm hk hy⟩
        obtain ⟨new, ha⟩ := hstep
        obtain ⟨new', ha'⟩ := hil hl _ ((left_mono ha.seen).trans hf)
        exact ⟨new ++ new', ha.append ha'⟩
    exact hfold (succ x) (List.Subset.refl _) noted hf

-- The walk notes each vertex once that can be reached through what is kept.
theorem walk_spec {fuel : Nat} (hn : ∀ y, keep y → y ∈ nodes) (hf : nodes.length ≤ fuel) :
    let chain := (walk succ keep fuel x ([], [x])).1
    (∀ y, y ∈ chain ↔ y ≠ x ∧ TransGen (Step succ keep) x y) ∧ chain.Nodup ∧
      ∀ pre y post, chain = pre ++ y :: post → ∃ z ∈ x :: pre, y ∈ succ z := by
  obtain ⟨new, ha⟩ := @walk_added α _ succ keep x nodes ([], [x]) fuel hn (List.countP_le_length.trans hf)
  have hchain : (walk succ keep fuel x ([], [x])).1 = new := ha.chain
  dsimp only
  rw [hchain]
  refine ⟨fun y => ⟨fun hy => ⟨fun he => ha.fresh y hy (List.mem_singleton.mpr he), ?_⟩, fun ⟨hne, hp⟩ => ?_⟩,
    ha.nodup, ha.ordered⟩
  case refine_1 =>
    -- By induction on the place in the chain.
    obtain ⟨pre, post, he⟩ := List.append_of_mem hy
    induction hl : pre.length using Nat.strong_induction_on generalizing y pre post
    case h n hi =>
      obtain ⟨z, hz, hyz⟩ := ha.ordered pre y post he
      have hstep : Step succ keep z y := ⟨hyz, ha.kept y hy⟩
      cases List.mem_cons.mp hz
      case inl hzx => exact .single (hzx ▸ hstep)
      case inr hz  =>
        obtain ⟨pre', post', hpre⟩ := List.append_of_mem hz
        have hz' : z ∈ new := by
          rw [he]
          exact List.mem_append_left _ hz
        refine .tail (hi pre'.length ?_ z hz' pre' (post' ++ y :: post) ?_ rfl) hstep
        · rw [← hl, hpre, List.length_append, List.length_cons]
          omega
        · rw [he, hpre, List.append_assoc, List.cons_append]
  case refine_2 =>
    have hmem {z : α} (hk : keep z) (hz : z ∈ (walk succ keep fuel x ([], [x])).2) : z = x ∨ z ∈ new :=
      (ha.sole z hz hk).imp_left List.mem_singleton.mp
    have hreach {z : α} (hp : TransGen (Step succ keep) x z) : z = x ∨ z ∈ new := by
      induction hp
      case single z hs      => exact hmem hs.right (ha.covered z hs.left hs.right)
      case tail z w _ hs hi =>
        cases hi
        case inl he => exact hmem hs.right (ha.covered w (he ▸ hs.left) hs.right)
        case inr hz => exact hmem hs.right (ha.closed z hz w hs.left hs.right)
    exact (hreach hp).resolve_left hne

end Preorder

end Reach
