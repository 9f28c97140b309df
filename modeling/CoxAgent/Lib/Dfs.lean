import Mathlib.Algebra.Ring.Nat
import Mathlib.Logic.Function.Basic
import Mathlib.Logic.Relation
import Mathlib.Order.WellFounded

-- Depth-first search for a cycle with an explicit stack and three colours. The graph is given by a
-- list of nodes and the successors of each node.
namespace Dfs

inductive Color
  | white
  | grey
  | black
deriving DecidableEq

-- A vertex without a colour is not a node of the graph.
abbrev Coloring (α : Type) := α → Option Color

-- The flag of a stack entry tells whether the vertex is left (`true`) or entered (`false`) when the
-- entry is popped.
abbrev Stack (α : Type) := List (α × Bool)

variable {α : Type} [DecidableEq α]

-- Push the successors of a vertex that was just entered. A grey successor closes a cycle.
def queue (color : Coloring α) : List α → Stack α → Except α (Stack α)
  | [],      stack => .ok stack
  | d :: ds, stack =>
    match color d with
    | some .grey         => .error d
    | some .black        => queue color ds stack
    | some .white | none => queue color ds ((d, false) :: stack)

variable (succ : α → List α)

-- Pop until the stack is empty.
def loop : Nat → Coloring α → Stack α → Except α (Coloring α)
  | _,        color, []                => .ok color
  | 0,        color, _ :: _            => .ok color
  | fuel + 1, color, (n, true) :: stack  => loop fuel (Function.update color n (some .black)) stack
  | fuel + 1, color, (n, false) :: stack =>
    if color n = some .white then
      let color' := Function.update color n (some .grey)
      match queue color' (succ n) ((n, true) :: stack) with
      | .error d   => .error d
      | .ok stack' => loop fuel color' stack'
    else
      loop fuel color stack

-- Start from each node that is still white.
def search (fuel : Nat) : Coloring α → List α → Option α
  | _,     []      => none
  | color, n :: ns =>
    if color n = some .white then
      match loop succ fuel color [(n, false)] with
      | .error d   => some d
      | .ok color' => search fuel color' ns
    else
      search fuel color ns

-- The pops that entering the white vertices among `nodes` can still cause.
def work (color : Coloring α) (nodes : List α) : Nat :=
  (nodes.map fun n => if color n = some .white then 1 + (succ n).length else 0).sum

def initial (nodes : List α) : Coloring α :=
  fun n => if n ∈ nodes then some .white else none

def firstCycle (nodes : List α) : Option α :=
  search succ (1 + work succ (initial nodes) nodes) (initial nodes) nodes

-- `Dep d n`: `n` depends on `d`.
def Dep (d n : α) : Prop :=
  d ∈ succ n

open Relation

-- Between two pops: what is black is not on or above a cycle, the grey vertices are those whose exit
-- is on the stack, and everything above an exit is reachable from its vertex and still accounts for
-- the successors of the vertex.
structure Inv (nodes : List α) (color : Coloring α) (stack : Stack α) : Prop where
  white   : ∀ {n}, color n = some .white → n ∈ nodes
  black   : ∀ {n}, color n = some .black → Acc (Dep succ) n
  absent  : ∀ {n}, color n = none → succ n = []
  grey    : ∀ {n}, color n = some .grey ↔ (n, true) ∈ stack
  above   : stack.Pairwise fun x y => y.2 = true → x.1 ≠ y.1 ∧ TransGen (Dep succ) x.1 y.1
  pending : ∀ pre {n post}, stack = pre ++ (n, true) :: post →
              ∀ d ∈ succ n, Acc (Dep succ) d ∨ ∃ b, (d, b) ∈ pre

variable {succ} {nodes ns : List α} {color color' : Coloring α} {stack stack' : Stack α} {n d : α}

omit [DecidableEq α] in
theorem acc_of_absent (h : succ n = []) : Acc (Dep succ) n :=
  .intro n fun d hd => by simp [Dep, h] at hd

section Queue

variable {ds : List α}

-- What `queue` pushes, and what it passes over.
omit [DecidableEq α] in
theorem queue_ok (h : queue color ds stack = .ok stack') :
    ∃ pushed : Stack α, stack' = pushed ++ stack ∧ pushed.length ≤ ds.length ∧
      (∀ e ∈ pushed, e.2 = false ∧ e.1 ∈ ds ∧ color e.1 ≠ some .grey) ∧
      (∀ d ∈ ds, color d = some .black ∨ (d, false) ∈ pushed) := by
  induction ds generalizing stack
  case nil =>
    cases h
    exact ⟨[], by simp⟩
  case cons d ds hi =>
    rw [queue] at h
    split at h
    case h_1 => contradiction
    case h_2 hb =>
      have ⟨pushed, he, hl, hp, hd⟩ := hi h
      refine ⟨pushed, he, Nat.le_succ_of_le hl, fun e hm => ?_, fun d' hm => ?_⟩
      · have ⟨h₁, h₂, h₃⟩ := hp e hm
        exact ⟨h₁, List.mem_cons_of_mem _ h₂, h₃⟩
      · rcases List.mem_cons.mp hm with rfl | hm
        · exact .inl hb
        · exact hd d' hm
    all_goals
      rename_i hc
      have ⟨pushed, he, hl, hp, hd⟩ := hi h
      refine ⟨pushed ++ [(d, false)], by simp [he], by simpa using hl, fun e hm => ?_,
        fun d' hm => ?_⟩
      · rcases List.mem_append.mp hm with hm | hm
        · have ⟨h₁, h₂, h₃⟩ := hp e hm
          exact ⟨h₁, List.mem_cons_of_mem _ h₂, h₃⟩
        · cases List.mem_singleton.mp hm
          exact ⟨rfl, List.mem_cons_self, by simp [hc]⟩
      · rcases List.mem_cons.mp hm with rfl | hm
        · simp
        · have := hd d' hm
          grind

omit [DecidableEq α] in
theorem queue_error (h : queue color ds stack = .error d) : d ∈ ds ∧ color d = some .grey := by
  induction ds generalizing stack
  case nil => contradiction
  case cons d' ds hi =>
    rw [queue] at h
    split at h
    case h_1 hg =>
      cases h
      exact ⟨List.mem_cons_self, hg⟩
    all_goals exact ⟨List.mem_cons_of_mem _ (hi h).left, (hi h).right⟩

end Queue

namespace Inv

-- The exit of a vertex: everything it depends on is accounted for, and nothing is above it.
theorem exit (h : Inv succ nodes color ((n, true) :: stack)) :
    Inv succ nodes (Function.update color n (some .black)) stack := by
  have hn : Acc (Dep succ) n := .intro n fun d hd => by
    have := h.pending [] rfl d hd
    simpa using this
  have ⟨ht, hp⟩ := List.pairwise_cons.mp h.above
  have hm : (n, true) ∉ stack := fun hm => (ht _ hm rfl).left rfl
  constructor
  case white =>
    intro m hc
    by_cases he : m = n <;> simp [he] at hc
    exact h.white hc
  case black =>
    intro m hc
    by_cases he : m = n
    case pos => exact he ▸ hn
    case neg => exact h.black (by simpa [he] using hc)
  case absent =>
    intro m hc
    by_cases he : m = n <;> simp [he] at hc
    exact h.absent hc
  case grey =>
    intro m
    by_cases he : m = n
    case pos => simp [he, hm]
    case neg => simp [he, h.grey]
  case above => exact hp
  case pending =>
    intro pre m post hs d hd
    rcases h.pending ((n, true) :: pre) (congrArg _ hs) d hd with ha | ⟨b, hb⟩
    · exact .inl ha
    · rcases List.mem_cons.mp hb with he | hb
      · cases he
        exact .inl hn
      · exact .inr ⟨b, hb⟩

-- A vertex that was queued more than once and has been entered before.
omit [DecidableEq α] in
theorem skip (h : Inv succ nodes color ((n, false) :: stack)) (hc : color n ≠ some .white) :
    Inv succ nodes color stack := by
  have ⟨ht, hp⟩ := List.pairwise_cons.mp h.above
  have hn : Acc (Dep succ) n := by
    match hn : color n with
    | none        => exact acc_of_absent (h.absent hn)
    | some .black => exact h.black hn
    | some .white => exact absurd hn hc
    | some .grey  =>
      have hm : (n, true) ∈ stack := by simpa using h.grey.mp hn
      exact absurd rfl (ht _ hm rfl).left
  refine ⟨h.white, h.black, h.absent, by simp [h.grey], hp, fun pre {m post} hs d hd => ?_⟩
  rcases h.pending ((n, false) :: pre) (congrArg _ hs) d hd with ha | ⟨b, hb⟩
  · exact .inl ha
  · rcases List.mem_cons.mp hb with he | hb
    · cases he
      exact .inl hn
    · exact .inr ⟨b, hb⟩

-- The vertex is grey from here on and its exit lies below its successors.
theorem enter (h : Inv succ nodes color ((n, false) :: stack)) (hc : color n = some .white)
    (hq : queue (Function.update color n (some .grey)) (succ n) ((n, true) :: stack) = .ok stack') :
    Inv succ nodes (Function.update color n (some .grey)) stack' := by
  have ⟨pushed, he, _, hpush, hdeps⟩ := queue_ok hq
  have ⟨ht, hp⟩ := List.pairwise_cons.mp h.above
  have hb : ∀ {m}, Function.update color n (some .grey) m = some .black → Acc (Dep succ) m := by
    intro m hm
    by_cases hmn : m = n <;> simp [hmn] at hm
    exact h.black hm
  subst he
  constructor
  case white =>
    intro m hm
    by_cases hmn : m = n <;> simp [hmn] at hm
    exact h.white hm
  case black => exact hb
  case absent =>
    intro m hm
    by_cases hmn : m = n <;> simp [hmn] at hm
    exact h.absent hm
  case grey =>
    intro m
    have hf : (m, true) ∉ pushed := fun hm => by simpa using (hpush _ hm).left
    by_cases hmn : m = n
    case pos => simp [hmn]
    case neg => simp [hmn, hf, h.grey]
  case above =>
    refine List.pairwise_append.mpr ⟨?_, List.pairwise_cons.mpr ⟨ht, hp⟩, ?_⟩
    · refine List.pairwise_iff_forall_sublist.mpr fun {x y} hs hy => ?_
      have hm := hs.subset (List.mem_cons_of_mem _ List.mem_cons_self)
      simp [(hpush y hm).left] at hy
    · intro x hx y hy hyt
      have ⟨_, hd, hg⟩ := hpush x hx
      rcases List.mem_cons.mp hy with rfl | hy
      · refine ⟨fun hxn => ?_, .single hd⟩
        simp [show x.1 = n from hxn] at hg
      · have ⟨hne, hr⟩ := ht y hy hyt
        refine ⟨fun hxy => ?_, .head hd hr⟩
        have hgy : color y.1 = some .grey :=
          h.grey.mpr (List.mem_cons_of_mem _ (by rwa [← hyt]))
        exact hg (by rw [hxy, Function.update_of_ne (Ne.symm hne), hgy])
  case pending =>
    intro pre m post hs d hd
    -- The exit in question is that of `n` itself or lies below it.
    have hcut : (pre = pushed ∧ m = n) ∨
        ∃ pre', pre = pushed ++ (n, true) :: pre' ∧ stack = pre' ++ (m, true) :: post := by
      rcases List.append_eq_append_iff.mp hs with ⟨mid, hm, hr⟩ | ⟨mid, hm, hr⟩
      · cases mid
        case nil =>
          simp at hm hr
          exact .inl ⟨hm, hr.left.symm⟩
        case cons e mid =>
          simp only [List.cons_append, List.cons.injEq] at hr
          exact .inr ⟨mid, by rw [hm, ← hr.left], hr.right⟩
      · cases mid
        case nil =>
          simp at hm hr
          exact .inl ⟨hm.symm, hr.left⟩
        case cons e mid =>
          simp only [List.cons_append, List.cons.injEq] at hr
          have hmem : (m, true) ∈ pushed := by simp [hm, hr.left]
          simpa using (hpush _ hmem).left
    rcases hcut with ⟨rfl, rfl⟩ | ⟨pre', rfl, hstack⟩
    · rcases hdeps d hd with hblack | hmem
      · exact .inl (hb hblack)
      · exact .inr ⟨false, hmem⟩
    · rcases h.pending ((n, false) :: pre') (congrArg _ hstack) d hd with ha | ⟨b, hmem⟩
      · exact .inl ha
      · rcases List.mem_cons.mp hmem with heq | hmem
        · cases heq
          exact .inr ⟨true, by simp⟩
        · exact .inr ⟨b, by simp [hmem]⟩

-- A successor that is grey when its predecessor is entered lies below it on the stack.
theorem cycle (h : Inv succ nodes color ((n, false) :: stack))
    (hq : queue (Function.update color n (some .grey)) (succ n) ((n, true) :: stack) = .error d) :
    TransGen (Dep succ) d d := by
  have ⟨hd, hg⟩ := queue_error hq
  by_cases hn : d = n
  case pos =>
    subst hn
    exact .single hd
  case neg =>
    have hm : (d, true) ∈ stack := by
      have := h.grey.mp (show color d = some .grey by simpa [hn] using hg)
      simpa using this
    have hr := (List.pairwise_cons.mp h.above).left _ hm rfl |>.right
    exact .head hd hr

end Inv

section Fuel

theorem work_update_le (c : Color) (hc : c ≠ .white) :
    work succ (Function.update color n (some c)) nodes ≤ work succ color nodes := by
  induction nodes
  case nil => exact le_rfl
  case cons m nodes hi =>
    simp only [work, List.map_cons, List.sum_cons] at hi ⊢
    by_cases hm : m = n
    case pos => simpa [hm, hc] using Nat.le_add_left_of_le hi
    case neg => simpa [hm] using hi

theorem work_enter (h : color n = some .white) (hm : n ∈ nodes) :
    work succ (Function.update color n (some .grey)) nodes + (1 + (succ n).length)
      ≤ work succ color nodes := by
  induction nodes
  case nil => contradiction
  case cons m nodes hi =>
    have hle : work succ (Function.update color n (some .grey)) nodes ≤ work succ color nodes :=
      work_update_le .grey (by simp)
    simp only [work, List.map_cons, List.sum_cons] at hi hle ⊢
    by_cases he : m = n
    case pos =>
      subst he
      simp only [Function.update_self, h, ↓reduceIte, Option.some.injEq, reduceCtorEq]
      omega
    case neg =>
      have := hi ((List.mem_cons.mp hm).resolve_left (Ne.symm he))
      simp only [Function.update_of_ne he]
      omega

end Fuel

section Search

-- A vertex that the loop returns is on a cycle.
theorem loop_error {fuel : Nat} (h : Inv succ nodes color stack)
    (hl : loop succ fuel color stack = .error d) : TransGen (Dep succ) d d := by
  fun_induction loop succ fuel color stack
  case case1 => contradiction
  case case2 => contradiction
  case case3 hi => exact hi h.exit hl
  case case4 hq =>
    cases hl
    exact h.cycle hq
  case case5 hc _ _ hq hi => exact hi (h.enter hc hq) hl
  case case6 hc hi => exact hi (h.skip hc) hl

-- With enough fuel the loop ends on an empty stack, so nothing grey is left, and everything that was
-- on the stack has been visited.
theorem loop_ok {fuel : Nat} (h : Inv succ nodes color stack)
    (hf : stack.length + work succ color nodes ≤ fuel)
    (hl : loop succ fuel color stack = .ok color') :
    Inv succ nodes color' [] ∧ work succ color' nodes ≤ work succ color nodes ∧
    (∀ m, color m ≠ some .white → color' m ≠ some .white) ∧
    (∀ e ∈ stack, color' e.1 ≠ some .white) := by
  fun_induction loop succ fuel color stack
  case case1 =>
    cases hl
    exact ⟨h, le_rfl, fun _ => id, by simp⟩
  case case2 => simp at hf
  case case3 fuel color n stack hi =>
    have hw : work succ (Function.update color n (some .black)) nodes ≤ work succ color nodes :=
      work_update_le .black (by simp)
    have ⟨hi₁, hi₂, hi₃, hi₄⟩ := hi h.exit (by simp at hf; omega) hl
    refine ⟨hi₁, by omega, fun m hm => hi₃ m ?_, fun e he => ?_⟩
    · by_cases hmn : m = n <;> simp [hmn, hm]
    · rcases List.mem_cons.mp he with rfl | he
      · exact hi₃ _ (by simp)
      · exact hi₄ e he
  case case4 => contradiction
  case case5 fuel color n stack hc entered stack' hq hi =>
    have ⟨pushed, he, hp, _⟩ := queue_ok hq
    have hw : work succ entered nodes + (1 + (succ n).length) ≤ work succ color nodes :=
      work_enter hc (h.white hc)
    have ⟨hi₁, hi₂, hi₃, hi₄⟩ := hi (h.enter hc hq) (by simp [he] at hf ⊢; omega) hl
    refine ⟨hi₁, by omega, fun m hm => hi₃ m ?_, fun e hm => ?_⟩
    · by_cases hmn : m = n <;> simp [entered, hmn, hm]
    · rcases List.mem_cons.mp hm with rfl | hm
      · exact hi₃ _ (by simp [entered])
      · exact hi₄ e (by simp [he, hm])
  case case6 fuel color n stack hc hi =>
    have ⟨hi₁, hi₂, hi₃, hi₄⟩ := hi (h.skip hc) (by simp at hf; omega) hl
    refine ⟨hi₁, hi₂, hi₃, fun e he => ?_⟩
    rcases List.mem_cons.mp he with rfl | he
    · exact hi₃ _ hc
    · exact hi₄ e he

omit [DecidableEq α] in
theorem inv_start (h : Inv succ nodes color []) : Inv succ nodes color [(n, false)] := by
  refine ⟨h.white, h.black, h.absent, by simp [h.grey], by simp, fun pre {m post} hs => ?_⟩
  have hm : (m, true) ∈ [(n, false)] := hs ▸ by simp
  simp at hm

omit [DecidableEq α] in
-- On an empty stack only white vertices are undecided.
theorem Inv.acc (h : Inv succ nodes color []) (hc : color n ≠ some .white) :
    Acc (Dep succ) n := by
  match hn : color n with
  | none        => exact acc_of_absent (h.absent hn)
  | some .black => exact h.black hn
  | some .white => exact absurd hn hc
  | some .grey  => exact absurd (h.grey.mp hn) List.not_mem_nil

theorem search_some {fuel : Nat} (h : Inv succ nodes color [])
    (hf : 1 + work succ color nodes ≤ fuel) (hs : search succ fuel color ns = some d) :
    TransGen (Dep succ) d d := by
  fun_induction search succ fuel color ns
  case case1 => contradiction
  case case2 hl =>
    cases hs
    exact loop_error (inv_start h) hl
  case case3 hl hi =>
    have ⟨hl₁, hl₂, _⟩ := loop_ok (inv_start h) (by simpa using hf) hl
    exact hi hl₁ (by omega) hs
  case case4 hi => exact hi h hf hs

theorem search_none {fuel : Nat} (h : Inv succ nodes color [])
    (hf : 1 + work succ color nodes ≤ fuel) (hs : search succ fuel color ns = none) :
    ∀ n ∈ ns, Acc (Dep succ) n := by
  fun_induction search succ fuel color ns
  case case1 => simp
  case case2 => contradiction
  case case3 n ns _ _ hl hi =>
    have ⟨hl₁, hl₂, _, hl₄⟩ := loop_ok (inv_start h) (by simpa using hf) hl
    intro m hm
    rcases List.mem_cons.mp hm with rfl | hm
    · exact hl₁.acc (hl₄ (m, false) (by simp))
    · exact hi hl₁ (by omega) hs m hm
  case case4 n ns hc hi =>
    intro m hm
    rcases List.mem_cons.mp hm with rfl | hm
    · exact h.acc hc
    · exact hi h hf hs m hm

theorem inv_initial (h : ∀ n, n ∉ nodes → succ n = []) : Inv succ nodes (initial nodes) [] := by
  refine ⟨?_, ?_, ?_, ?_, .nil, by simp⟩ <;> intro n <;> by_cases hn : n ∈ nodes <;>
    simp [initial, hn, h n]

-- A vertex that is reported is on a cycle.
theorem firstCycle_some (h : ∀ n, n ∉ nodes → succ n = []) (hc : firstCycle succ nodes = some d) :
    TransGen (Dep succ) d d :=
  search_some (inv_initial h) le_rfl hc

-- The search reports nothing iff there is no cycle.
theorem firstCycle_none_iff (h : ∀ n, n ∉ nodes → succ n = []) :
    firstCycle succ nodes = none ↔ WellFounded (Dep succ) := by
  constructor
  case mp =>
    intro hc
    refine ⟨fun n => ?_⟩
    by_cases hn : n ∈ nodes
    case pos => exact search_none (inv_initial h) le_rfl hc n hn
    case neg => exact acc_of_absent (h n hn)
  case mpr =>
    intro hw
    cases hc : firstCycle succ nodes
    case none   => rfl
    case some d => exact absurd (firstCycle_some h hc) (hw.transGen.irrefl.irrefl d)

end Search

end Dfs

-- The search without a bound on the number of pops: a derivation is a run that ends.
namespace Dfs

variable {α : Type} [DecidableEq α] (succ : α → List α)

inductive Ends : Coloring α → Stack α → Except α (Coloring α) → Prop
  | done  : Ends color [] (.ok color)
  | exit  : Ends (Function.update color n (some .black)) stack r → Ends color ((n, true) :: stack) r
  | skip  : color n ≠ some .white → Ends color stack r → Ends color ((n, false) :: stack) r
  | cycle : color n = some .white →
      queue (Function.update color n (some .grey)) (succ n) ((n, true) :: stack) = .error d →
      Ends color ((n, false) :: stack) (.error d)
  | enter : color n = some .white →
      queue (Function.update color n (some .grey)) (succ n) ((n, true) :: stack) = .ok stack' →
      Ends (Function.update color n (some .grey)) stack' r → Ends color ((n, false) :: stack) r

inductive Finds : Coloring α → List α → Option α → Prop
  | nil   : Finds color [] none
  | skip  : color n ≠ some .white → Finds color ns r → Finds color (n :: ns) r
  | cycle : color n = some .white → Ends succ color [(n, false)] (.error d) →
      Finds color (n :: ns) (some d)
  | next  : color n = some .white → Ends succ color [(n, false)] (.ok color') → Finds color' ns r →
      Finds color (n :: ns) r

variable {succ} {nodes ns : List α} {color color' : Coloring α} {stack : Stack α}

-- The next pop is decided by the entry on top and its colour.
theorem Ends.det {r r' : Except α (Coloring α)} (h : Ends succ color stack r)
    (h' : Ends succ color stack r') : r = r' := by
  induction h
  case done => cases h'; rfl
  case exit hi =>
    cases h'
    case exit h' => exact hi h'
  case skip hc _ hi =>
    cases h'
    case skip h'      => exact hi h'
    case cycle hw _   => exact absurd hw hc
    case enter hw _ _ => exact absurd hw hc
  case cycle hc hq =>
    cases h'
    case skip hw _   => exact absurd hc hw
    case cycle hq'   => cases hq.symm.trans hq'; rfl
    case enter hq' _ => cases hq.symm.trans hq'
  case enter hc hq _ hi =>
    cases h'
    case skip hw _    => exact absurd hc hw
    case cycle hq'    => cases hq.symm.trans hq'
    case enter hq' h' =>
      cases hq.symm.trans hq'
      exact hi h'

theorem Finds.det {r r' : Option α} (h : Finds succ color ns r) (h' : Finds succ color ns r') :
    r = r' := by
  induction h
  case nil => cases h'; rfl
  case skip hc _ hi =>
    cases h'
    case skip h'     => exact hi h'
    case cycle hw _  => exact absurd hw hc
    case next hw _ _ => exact absurd hw hc
  case cycle hc he =>
    cases h'
    case skip hw _  => exact absurd hc hw
    case cycle he'  => cases he.det he'; rfl
    case next he' _ => cases he.det he'
  case next hc he _ hi =>
    cases h'
    case skip hw _   => exact absurd hc hw
    case cycle he'   => cases he.det he'
    case next he' h' =>
      cases he.det he'
      exact hi h'

section Fuel

-- Nothing becomes white again.
theorem loop_white {fuel : Nat} (h : loop succ fuel color stack = .ok color') {n : α}
    (hn : color' n = some .white) : color n = some .white := by
  fun_induction loop succ fuel color stack
  case case1 => cases h; exact hn
  case case2 => cases h; exact hn
  case case3 hi =>
    have := hi h
    grind [Function.update_apply]
  case case4 => contradiction
  case case5 hi =>
    have := hi h
    grind [Function.update_apply]
  case case6 hi => exact hi h

omit [DecidableEq α] in
theorem work_le_of_white (h : ∀ n, color' n = some .white → color n = some .white) :
    work succ color' nodes ≤ work succ color nodes := by
  induction nodes
  case nil => exact le_rfl
  case cons n nodes hi =>
    simp only [work, List.map_cons, List.sum_cons] at hi ⊢
    by_cases hn : color' n = some .white
    case pos => simpa [hn, h n hn] using hi
    case neg => simpa [hn] using Nat.le_add_left_of_le hi

-- A vertex is entered at most once, so the pops are bounded by the stack and the white vertices.
theorem ends_loop {fuel : Nat} (hw : ∀ n, color n = some .white → n ∈ nodes)
    (hf : stack.length + work succ color nodes ≤ fuel) :
    Ends succ color stack (loop succ fuel color stack) := by
  fun_induction loop succ fuel color stack
  case case1 => exact .done
  case case2 => simp at hf
  case case3 fuel color n stack hi =>
    have hle : work succ (Function.update color n (some .black)) nodes ≤ work succ color nodes :=
      work_update_le .black (by simp)
    refine .exit (hi ?_ (by simp at hf; omega))
    intro m hm
    by_cases he : m = n <;> simp [he] at hm
    exact hw m hm
  case case4 hc _ _ hq => exact .cycle hc hq
  case case5 fuel color n stack hc entered stack' hq hi =>
    obtain ⟨pushed, he, hp, _⟩ := queue_ok hq
    have hle : work succ entered nodes + (1 + (succ n).length) ≤ work succ color nodes :=
      work_enter hc (hw n hc)
    refine .enter hc hq (hi ?_ (by simp [he] at hf ⊢; omega))
    intro m hm
    by_cases he : m = n <;> simp [entered, he] at hm
    exact hw m hm
  case case6 hc hi => exact .skip hc (hi hw (by simp at hf; omega))

theorem finds_search {fuel : Nat} (hw : ∀ n, color n = some .white → n ∈ nodes)
    (hf : 1 + work succ color nodes ≤ fuel) :
    Finds succ color ns (search succ fuel color ns) := by
  have hends : ∀ {color n}, (∀ n, color n = some .white → n ∈ nodes) →
      1 + work succ color nodes ≤ fuel →
      Ends succ color [(n, false)] (loop succ fuel color [(n, false)]) :=
    fun hw hf => ends_loop hw (by simpa using hf)
  fun_induction search succ fuel color ns
  case case1 => exact .nil
  case case2 hc _ hl => exact .cycle hc (hl ▸ hends hw hf)
  case case3 color _ _ hc color' hl hi =>
    have hle : work succ color' nodes ≤ work succ color nodes :=
      work_le_of_white fun _ => loop_white hl
    exact .next hc (hl ▸ hends hw hf) (hi (fun n hn => hw n (loop_white hl hn)) (by omega))
  case case4 hc hi => exact .skip hc (hi hw hf)

end Fuel

-- The search ends on every graph, and `firstCycle` is its result.
theorem finds_iff {r : Option α} :
    Finds succ (initial nodes) nodes r ↔ r = firstCycle succ nodes := by
  have h : Finds succ (initial nodes) nodes (firstCycle succ nodes) := by
    refine finds_search (fun n hn => ?_) le_rfl
    by_contra hm
    simp [initial, hm] at hn
  constructor
  · intro hr
    exact hr.det h
  · rintro rfl
    exact h

-- Without a cycle the search finds nothing, so the graph can be worked off.
theorem acyclic_iff_wellFounded (h : ∀ n, n ∉ nodes → succ n = []) :
    (∀ n, ¬ Relation.TransGen (Dep succ) n n) ↔ WellFounded (Dep succ) := by
  constructor
  case mp =>
    intro hc
    apply (firstCycle_none_iff h).mp
    cases hf : firstCycle succ nodes
    case none   => rfl
    case some n => exact absurd (firstCycle_some h hf) (hc n)
  case mpr => exact fun hw n => hw.transGen.irrefl.irrefl n

end Dfs
