import Mathlib.Data.List.Infix
import Mathlib.Data.List.Pairwise

-- Files at places, which are the names on the way from the root.

section Nested

variable {κ : Type} {p q : List κ}

-- One of the places is above the other, so that they cannot both hold a file.
def Nested (p q : List κ) : Prop :=
  p ≠ q ∧ (p <+: q ∨ q <+: p)

instance [DecidableEq κ] : Decidable (Nested p q) :=
  inferInstanceAs (Decidable (_ ∧ _))

theorem Nested.symm (h : Nested p q) : Nested q p :=
  ⟨h.1.symm, h.2.symm⟩

theorem nested_append_left {dir : List κ} : Nested (dir ++ p) (dir ++ q) ↔ Nested p q := by
  simp [Nested]

end Nested

-- A file is never above another one.
structure FileTree (κ β : Type) where
  entries : List (List κ × β)
  apart   : entries.Pairwise fun a b => a.1 ≠ b.1 ∧ ¬Nested a.1 b.1

namespace FileTree

variable {κ β : Type}

theorem eq_of_mem {t : FileTree κ β} {e f : List κ × β} (he : e ∈ t.entries) (hf : f ∈ t.entries) (h : e.1 = f.1) :
    e = f := by
  have : Std.Symm fun a b : List κ × β => a.1 ≠ b.1 ∧ ¬Nested a.1 b.1 :=
    ⟨fun _ _ h => ⟨h.1.symm, fun hn => h.2 hn.symm⟩⟩
  by_contra hne
  exact (t.apart.forall he hf hne).1 h

variable [DecidableEq κ]

def get (t : FileTree κ β) (p : List κ) : Option β :=
  (t.entries.find? (·.1 = p)).map (·.2)

-- The directories on the way are created. They cannot be where there is a file, nor can the file be
-- where there is a directory with files.
def put (t : FileTree κ β) (p : List κ) (b : β) : Option (FileTree κ β) :=
  if h : ∃ e ∈ t.entries, Nested e.1 p then
    none
  else
    some {
      entries := t.entries.filter (·.1 ≠ p) ++ [(p, b)]
      apart   := by
        refine List.pairwise_append.mpr ⟨t.apart.filter _, List.pairwise_singleton _ _, ?_⟩
        intro e he f hf
        cases List.mem_singleton.mp hf
        have hm := List.mem_filter.mp he
        exact ⟨by simpa using hm.2, fun hn => h ⟨e, hm.1, hn⟩⟩
    }

-- One file after the other, up to the first that cannot be put.
def putAll (t : FileTree κ β) (files : List (List κ × β)) : Option (FileTree κ β) :=
  files.foldlM (fun t f => t.put f.1 f.2) t

-- The files below a directory, by the names from there.
def below (t : FileTree κ β) (dir : List κ) : List (List κ) :=
  (t.entries.filter fun e => dir <+: e.1 ∧ e.1 ≠ dir).map (·.1.drop dir.length)

variable {t t' : FileTree κ β} {p q dir : List κ} {b b' : β}

theorem get_eq_some : t.get p = some b ↔ (p, b) ∈ t.entries := by
  simp only [get, Option.map_eq_some_iff]
  constructor
  case mp =>
    rintro ⟨e, he, rfl⟩
    have hp := List.find?_some he
    rw [← of_decide_eq_true hp]
    exact List.mem_of_find?_eq_some he
  case mpr =>
    intro hm
    have hs : (t.entries.find? (·.1 = p)).isSome := List.find?_isSome.mpr ⟨(p, b), hm, by simp⟩
    obtain ⟨e, he⟩ := Option.isSome_iff_exists.mp hs
    have hp := List.find?_some he
    have := t.eq_of_mem (List.mem_of_find?_eq_some he) hm (of_decide_eq_true hp)
    exact ⟨e, he, congrArg Prod.snd this⟩

theorem get_isSome : (t.get p).isSome ↔ ∃ e ∈ t.entries, e.1 = p := by
  simp [get]

theorem put_eq_none : t.put p b = none ↔ ∃ e ∈ t.entries, Nested e.1 p := by
  unfold put
  split
  case isTrue h  => simp [h]
  case isFalse h => simp [h]

theorem put_isSome : (t.put p b).isSome ↔ ∀ e ∈ t.entries, ¬Nested e.1 p := by
  rw [← Option.ne_none_iff_isSome, Ne, put_eq_none]
  simp

theorem mem_put (h : t.put p b = some t') {e : List κ × β} :
    e ∈ t'.entries ↔ (e ∈ t.entries ∧ e.1 ≠ p) ∨ e = (p, b) := by
  unfold put at h
  split at h
  case isTrue => contradiction
  case isFalse =>
    cases h
    simp

theorem get_put_self (h : t.put p b = some t') : t'.get p = some b :=
  get_eq_some.mpr ((mem_put h).mpr (.inr rfl))

theorem get_put_ne (h : t.put p b = some t') (hq : q ≠ p) : t'.get q = t.get q := by
  ext c
  rw [get_eq_some, get_eq_some, mem_put h]
  simp [hq]

theorem get_isSome_put (h : t.put p b = some t') (hq : (t.get q).isSome) : (t'.get q).isSome := by
  by_cases he : q = p
  case pos => simp [he, get_put_self h]
  case neg => rwa [get_put_ne h he]

section PutAll

variable {f : List κ × β} {files : List (List κ × β)}

theorem putAll_cons : t.putAll (f :: files) = (t.put f.1 f.2).bind (·.putAll files) := by
  simp only [putAll, List.foldlM_cons]
  rfl

theorem putAll_append {files' : List (List κ × β)} :
    t.putAll (files ++ files') = (t.putAll files).bind (·.putAll files') := by
  simp only [putAll, List.foldlM_append]
  rfl

theorem putAll_isSome_entries :
    (t.putAll files).isSome ↔
      (∀ f ∈ files, ∀ e ∈ t.entries, ¬Nested e.1 f.1) ∧
      ∀ f ∈ files, ∀ g ∈ files, ¬Nested f.1 g.1 := by
  induction files generalizing t
  case nil => simp [putAll]
  case cons f files hi =>
    rw [putAll_cons]
    cases hf : t.put f.1 f.2
    case none =>
      obtain ⟨e, he, hn⟩ := put_eq_none.mp hf
      constructor
      case mp  => simp
      case mpr => exact fun h => absurd hn (h.1 f List.mem_cons_self e he)
    case some t₁ =>
      have hput : ∀ e ∈ t.entries, ¬Nested e.1 f.1 := put_isSome.mp (Option.isSome_iff_exists.mpr ⟨t₁, hf⟩)
      have mem {e : List κ × β} := mem_put hf (e := e)
      have self : ¬Nested f.1 f.1 := fun h => h.1 rfl
      rw [Option.bind_some, hi]
      constructor
      case mp =>
        intro h
        have old (g : List κ × β) (hg : g ∈ files) : ¬Nested f.1 g.1 := h.1 g hg _ (mem.mpr (.inr rfl))
        refine ⟨List.forall_mem_cons.mpr ⟨hput, ?_⟩, ?_⟩
        · intro g hg e he
          by_cases hp : e.1 = f.1
          case pos => exact hp ▸ old g hg
          case neg => exact h.1 g hg e (mem.mpr (.inl ⟨he, hp⟩))
        · refine List.forall_mem_cons.mpr ⟨List.forall_mem_cons.mpr ⟨self, old⟩, ?_⟩
          intro g hg
          exact List.forall_mem_cons.mpr ⟨fun hn => old g hg hn.symm, h.2 g hg⟩
      case mpr =>
        intro h
        refine ⟨?_, ?_⟩
        · intro g hg e he
          rcases mem.mp he with he | rfl
          · exact h.1 g (List.mem_cons_of_mem _ hg) e he.1
          · exact h.2 f List.mem_cons_self g (List.mem_cons_of_mem _ hg)
        · intro g hg g' hg'
          exact h.2 g (List.mem_cons_of_mem _ hg) g' (List.mem_cons_of_mem _ hg')

theorem forall_entries {P : List κ → Prop} : (∀ e ∈ t.entries, P e.1) ↔ ∀ p, (t.get p).isSome → P p := by
  constructor
  case mp =>
    intro h p hp
    obtain ⟨e, he, rfl⟩ := get_isSome.mp hp
    exact h e he
  case mpr => exact fun h e he => h e.1 (get_isSome.mpr ⟨e, he, rfl⟩)

-- Files can be put one after the other iff none of their places is above another file.
theorem putAll_isSome :
    (t.putAll files).isSome ↔
      (∀ f ∈ files, ∀ p, (t.get p).isSome → ¬Nested p f.1) ∧
      ∀ f ∈ files, ∀ g ∈ files, ¬Nested f.1 g.1 := by
  rw [putAll_isSome_entries]
  exact and_congr_left' (forall₂_congr fun f _ => forall_entries (P := fun p => ¬Nested p f.1))

theorem get_isSome_putAll (h : t.putAll files = some t') (hp : (t.get p).isSome) : (t'.get p).isSome := by
  induction files generalizing t
  case nil =>
    cases h
    exact hp
  case cons f files hi =>
    rw [putAll_cons, Option.bind_eq_some_iff] at h
    obtain ⟨t₁, h₁, h⟩ := h
    exact hi h (get_isSome_put h₁ hp)

theorem get_isSome_putAll_mem (h : t.putAll files = some t') (hf : f ∈ files) : (t'.get f.1).isSome := by
  obtain ⟨l, l', rfl⟩ := List.append_of_mem hf
  rw [putAll_append, Option.bind_eq_some_iff] at h
  obtain ⟨t₁, _, h⟩ := h
  rw [putAll_cons, Option.bind_eq_some_iff] at h
  obtain ⟨t₂, h₂, h⟩ := h
  exact get_isSome_putAll h (by simp [get_put_self h₂])

theorem get_putAll_notMem (h : t.putAll files = some t') (hp : ∀ f ∈ files, f.1 ≠ p) :
    t'.get p = t.get p := by
  induction files generalizing t
  case nil =>
    cases h
    rfl
  case cons f files hi =>
    rw [putAll_cons, Option.bind_eq_some_iff] at h
    obtain ⟨t₁, h₁, h⟩ := h
    rw [List.forall_mem_cons] at hp
    rw [hi h hp.2, get_put_ne h₁ hp.1.symm]

-- The files that are put at one place are the same.
theorem get_putAll_mem (h : t.putAll files = some t') (hm : (p, b) ∈ files)
    (hs : ∀ f ∈ files, f.1 = p → f.2 = b) : t'.get p = some b := by
  induction files generalizing t
  case nil => contradiction
  case cons f files hi =>
    rw [putAll_cons, Option.bind_eq_some_iff] at h
    obtain ⟨t₁, h₁, h⟩ := h
    rw [List.forall_mem_cons] at hs
    by_cases hf : (p, b) ∈ files
    case pos => exact hi h hf hs.2
    case neg =>
      have hb : f = (p, b) := (List.mem_cons.mp hm).resolve_right hf |>.symm
      have hn : ∀ g ∈ files, g.1 ≠ p := fun g hg hp => hf (by rwa [← hs.2 g hg hp, ← hp])
      rw [hb] at h₁
      rw [get_putAll_notMem h hn, get_put_self h₁]

end PutAll

theorem mem_below {names : List κ} :
    names ∈ t.below dir ↔ names ≠ [] ∧ (t.get (dir ++ names)).isSome := by
  simp only [below, List.mem_map, List.mem_filter, decide_eq_true_eq, get_isSome]
  constructor
  case mp =>
    rintro ⟨e, ⟨he, hd, hne⟩, rfl⟩
    have hp := List.prefix_iff_eq_append.mp hd
    refine ⟨fun hn => hne ?_, e, he, hp.symm⟩
    rw [← hp, hn, List.append_nil]
  case mpr =>
    rintro ⟨hn, e, he, hp⟩
    refine ⟨e, ⟨he, hp ▸ List.prefix_append _ _, ?_⟩, by simp [hp]⟩
    rw [hp]
    simpa using hn

end FileTree
