import Mathlib.Data.List.Nodup
import Mathlib.Data.List.Perm.Subperm
import Mathlib.Logic.Function.Basic
import Mathlib.Logic.Relation
import Mathlib.Order.Lattice

-- The best path behind each vertex of a graph, with a memo. A vertex that is absent has no successors at all,
-- and a path enters only vertices that are open.
namespace LongestPath

open Relation

variable {α β : Type} [DecidableEq α]

abbrev Memo (α : Type) := α → Option (List α)

section Definitions

variable (deps : α → Option (List α)) (isOpen : α → Bool) (better : List α → List α → Bool)

-- The vertices of the walk so far are in `seen`, so that a cycle is not followed.
def longest : Nat → List α → α → Memo α → List α × Memo α
  | 0,        _,    x, memo => ((memo x).getD [], memo)
  | fuel + 1, seen, x, memo =>
    match memo x with
    | some cached => (cached, memo)
    | none        =>
      match deps x with
      | none    => ([], memo)
      | some ds =>
        let (best, memo) := ds.foldl (fun (best, memo) d =>
          if d ∈ x :: seen then
            (best, memo)
          else if isOpen d then
            let (path, memo) := longest fuel (x :: seen) d memo
            (if better (d :: path) best then d :: path else best, memo)
          else
            (best, memo)) ([], memo)
        (best, Function.update memo x (some best))

def Next (x y : α) : Prop :=
  (∃ ds, deps x = some ds ∧ y ∈ ds) ∧ isOpen y

-- What is behind `x` on a path.
def Path (x : α) (l : List α) : Prop :=
  (x :: l).IsChain (Next deps isOpen)

-- What the preference decides by, up to ties. A path that is no worse stays so behind a vertex in front of it.
structure Preference [LinearOrder β] (rank : List α → β) : Prop where
  le_of_better     : ∀ {l l'}, better l l' → rank l' ≤ rank l
  le_of_not_better : ∀ {l l'}, ¬better l l' → rank l ≤ rank l'
  cons             : ∀ {l l'} x, rank l ≤ rank l' → rank (x :: l) ≤ rank (x :: l')

def Best [LinearOrder β] (rank : List α → β) (x : α) (l : List α) : Prop :=
  Path deps isOpen x l ∧ ∀ l', Path deps isOpen x l' → rank l' ≤ rank l

def Sound [LinearOrder β] (rank : List α → β) (memo : Memo α) : Prop :=
  ∀ k l, memo k = some l → Best deps isOpen rank k l

end Definitions

variable {deps : α → Option (List α)} {isOpen : α → Bool} {better : List α → List α → Bool} [LinearOrder β]
  {rank : List α → β} {x y d : α} {l l' seen nodes done : List α} {memo : Memo α} {st : List α × Memo α}

section Paths

omit [DecidableEq α] [LinearOrder β]

theorem path_nil : Path deps isOpen x [] :=
  .singleton x

theorem path_cons : Path deps isOpen x (y :: l) ↔ Next deps isOpen x y ∧ Path deps isOpen y l :=
  List.isChain_cons_cons

theorem path_of_absent (hx : deps x = none) (h : Path deps isOpen x l) : l = [] := by
  cases l
  case nil      => rfl
  case cons y l =>
    have ⟨⟨ds, hd, _⟩, _⟩ := (path_cons.mp h).left
    rw [hx] at hd
    contradiction

end Paths

section Walk

omit [DecidableEq α]

-- What is found after some of the successors of `x`.
structure Folded (deps : α → Option (List α)) (isOpen : α → Bool) (rank : List α → β) (x : α) (done : List α)
    (st : List α × Memo α) : Prop where
  path  : Path deps isOpen x st.1
  sound : Sound deps isOpen rank st.2
  empty : rank [] ≤ rank st.1
  tops  : ∀ d ∈ done, isOpen d → ∀ l, Path deps isOpen d l → rank (d :: l) ≤ rank st.1

theorem Folded.init (hs : Sound deps isOpen rank memo) : Folded deps isOpen rank x [] ([], memo) where
  path  := path_nil
  sound := hs
  empty := le_refl _
  tops  := by simp

theorem Folded.pass (h : Folded deps isOpen rank x done st) (hd : ¬isOpen d) :
    Folded deps isOpen rank x (done ++ [d]) st :=
  { h with tops := List.forall_mem_append.mpr ⟨h.tops, List.forall_mem_singleton.mpr fun ho => absurd ho hd⟩ }

theorem Folded.take (hp : Preference better rank) (h : Folded deps isOpen rank x done st)
    (hn : Next deps isOpen x d) (hb : Best deps isOpen rank d l) (hs : Sound deps isOpen rank memo) :
    Folded deps isOpen rank x (done ++ [d]) (if better (d :: l) st.1 then d :: l else st.1, memo) := by
  have hle : rank st.1 ≤ rank (if better (d :: l) st.1 then d :: l else st.1) ∧
      rank (d :: l) ≤ rank (if better (d :: l) st.1 then d :: l else st.1) := by
    split
    case isTrue hc  => exact ⟨hp.le_of_better hc, le_refl _⟩
    case isFalse hc => exact ⟨le_refl _, hp.le_of_not_better hc⟩
  constructor
  case path =>
    dsimp only
    split
    case isTrue  => exact path_cons.mpr ⟨hn, hb.left⟩
    case isFalse => exact h.path
  case sound => exact hs
  case empty => exact h.empty.trans hle.left
  case tops  =>
    refine List.forall_mem_append.mpr ⟨fun e he ho l hl => (h.tops e he ho l hl).trans hle.left, ?_⟩
    exact List.forall_mem_singleton.mpr fun _ l hl => (hp.cons d (hb.right l hl)).trans hle.right

theorem Folded.best (h : Folded deps isOpen rank x done st) (hd : deps x = some done) :
    Best deps isOpen rank x st.1 := by
  refine ⟨h.path, fun l hl => ?_⟩
  cases l
  case nil      => exact h.empty
  case cons d l =>
    obtain ⟨⟨⟨ds, hds, hm⟩, ho⟩, hl⟩ := path_cons.mp hl
    obtain rfl := Option.some.inj (hd.symm.trans hds)
    exact h.tops d hm ho l hl

end Walk

section Memo

theorem sound_update (hs : Sound deps isOpen rank memo) (hb : Best deps isOpen rank x l) :
    Sound deps isOpen rank (Function.update memo x (some l)) := by
  intro k l' hk
  by_cases he : k = x
  case pos =>
    subst he
    rw [Function.update_self] at hk
    exact Option.some.inj hk ▸ hb
  case neg =>
    rw [Function.update_of_ne he] at hk
    exact hs k l' hk

-- Without a cycle the memo is never wrong, and what is found is best.
theorem longest_best (hp : Preference better rank) (hc : ∀ x, ¬TransGen (Next deps isOpen) x x) {fuel : Nat}
    (hn : ∀ x, (deps x).isSome → x ∈ nodes) (hseen : ∀ y ∈ seen, TransGen (Next deps isOpen) y x)
    (hnodup : seen.Nodup) (hmem : seen ⊆ nodes) (hf : nodes.length ≤ fuel + seen.length)
    (hs : Sound deps isOpen rank memo) :
    Best deps isOpen rank x (longest deps isOpen better fuel seen x memo).1 ∧
      Sound deps isOpen rank (longest deps isOpen better fuel seen x memo).2 := by
  have hx : x ∉ seen := fun hm => hc x (hseen x hm)
  have habsent (hd : deps x = none) : Best deps isOpen rank x [] :=
    ⟨path_nil, fun l hl => path_of_absent hd hl ▸ le_refl _⟩
  induction fuel generalizing x seen memo
  case zero =>
    -- The vertices of the walk are all there are.
    have hd : deps x = none := by
      by_contra hd
      have hsub := (hnodup.cons hx).subperm (List.cons_subset.mpr ⟨hn x (Option.isSome_iff_ne_none.mpr hd), hmem⟩)
      have := hsub.length_le
      rw [List.length_cons] at this
      omega
    rw [longest]
    refine ⟨?_, hs⟩
    cases hm : memo x
    case none   => exact habsent hd
    case some l => exact hs x l hm
  case succ fuel hi =>
    rw [longest]
    split
    case h_1 l hm => exact ⟨hs x l hm, hs⟩
    case h_2 =>
      split
      case h_1 hd    => exact ⟨habsent hd, hs⟩
      case h_2 ds hd =>
        have hxn : x ∈ nodes := hn x (by rw [hd, Option.isSome_some])
        have hstep (done : List α) (st : List α × Memo α) (d : α) (hdm : d ∈ ds)
            (h : Folded deps isOpen rank x done st) : Folded deps isOpen rank x (done ++ [d])
              (if d ∈ x :: seen then st
                else if isOpen d then
                  (if better (d :: (longest deps isOpen better fuel (x :: seen) d st.2).1) st.1 then
                    d :: (longest deps isOpen better fuel (x :: seen) d st.2).1 else st.1,
                    (longest deps isOpen better fuel (x :: seen) d st.2).2)
                else st) := by
          by_cases ho : isOpen d
          case neg =>
            rw [if_neg ho, ite_self]
            exact h.pass ho
          case pos =>
            have hnext : Next deps isOpen x d := ⟨⟨ds, hd, hdm⟩, ho⟩
            have hwalk : ∀ y ∈ x :: seen, TransGen (Next deps isOpen) y d :=
              List.forall_mem_cons.mpr ⟨.single hnext, fun y hy => (hseen y hy).tail hnext⟩
            have hdx : d ∉ x :: seen := fun hm => hc d (hwalk d hm)
            rw [if_neg hdx, if_pos ho]
            have hlen : nodes.length ≤ fuel + (x :: seen).length := by
              rw [List.length_cons]
              omega
            have hbest := hi hwalk (hnodup.cons hx) (List.cons_subset.mpr ⟨hxn, hmem⟩) hlen h.sound hdx
              fun hd => ⟨path_nil, fun l hl => path_of_absent hd hl ▸ le_refl _⟩
            exact h.take hp hnext hbest.left hbest.right
        have hfold (l done : List α) (hl : l ⊆ ds) (st : List α × Memo α)
            (h : Folded deps isOpen rank x done st) : Folded deps isOpen rank x (done ++ l)
              (l.foldl (fun (best, memo) d =>
                if d ∈ x :: seen then (best, memo)
                else if isOpen d then
                  let (path, memo) := longest deps isOpen better fuel (x :: seen) d memo
                  (if better (d :: path) best then d :: path else best, memo)
                else (best, memo)) st) := by
          induction l generalizing done st
          case nil           => rwa [List.append_nil]
          case cons d l hil  =>
            have ⟨hdm, hl⟩ := List.cons_subset.mp hl
            have hcons := hil (done ++ [d]) hl _ (hstep done st d hdm h)
            rwa [List.append_assoc, List.singleton_append] at hcons
        have h := hfold ds [] (List.Subset.refl _) ([], memo) (.init hs)
        have hb := h.best hd
        exact ⟨hb, sound_update h.sound hb⟩

end Memo

end LongestPath
