import CoxAgent.Backlog.Radar
import CoxAgent.Lib.FirstBest
import CoxAgent.Lib.Lists
import Mathlib.Data.List.Perm.Subperm

namespace Radar

variable {E E' : List Entry} {allowed : List String} {n : String} {x y h m : Entry} {i : Nat}

-- Two tickets of different projects that have one title, with nothing that excuses it.
structure Twin (allowed : List String) (x y : Entry) : Prop where
  norm    : x.norm = y.norm
  project : x.snap.projectId ≠ y.snap.projectId
  exempt  : sameTagExempt x.snap y.snap 1 = false
  allowed : allowlisted allowed x.snap y.snap = false

-- The ticket that stands for a title: the least one, and the first in the list among equals.
def Home (E : List Entry) (h : Entry) : Prop :=
  FirstBest.Leads (fun e => e.norm = h.norm) (fun e => OrderDual.toDual (side e.snap)) E h

-- The ticket is part of the entry of its title.
def Collapsed (allowed : List String) (E : List Entry) (x : Entry) : Prop :=
  ∃ h, Home E h ∧ h.norm = x.norm ∧ (∃ m ∈ E, Twin allowed h m) ∧ (x = h ∨ Twin allowed h x)

section Collapse

def members (E : List Entry) (n : String) : List (Entry × Nat) :=
  (E.zipIdx.filter (·.1.norm = n)).mergeSort fun x y => side x.1.snap ≤ side y.1.snap

-- What stands in the entry of a home.
def twins (allowed : List String) (home : Entry × Nat) (rest : List (Entry × Nat)) : List (Entry × Nat) :=
  rest.filter fun m =>
    m.1.snap.projectId ≠ home.1.snap.projectId && !sameTagExempt home.1.snap m.1.snap 1 &&
      !allowlisted allowed home.1.snap m.1.snap

theorem mem_members {z : Entry × Nat} : z ∈ members E n ↔ E[z.2]? = some z.1 ∧ z.1.norm = n := by
  rw [members, List.mem_mergeSort, List.mem_filter, List.mem_zipIdx_iff_getElem?, decide_eq_true_eq]

theorem nodup_zipIdx : E.zipIdx.Nodup := by
  refine .of_map Prod.snd ?_
  rw [List.zipIdx_map_snd]
  exact List.nodup_range'

theorem home_of_members {z : Entry × Nat} {rest : List (Entry × Nat)} (hm : members E n = z :: rest) :
    Home E z.1 ∧ z.1.norm = n := by
  have hz : z.1.norm = n := (mem_members.mp (hm ▸ List.mem_cons_self)).2
  have hl := FirstBest.leads_of_mergeSort (f := fun z : Entry × Nat => side z.1.snap)
    (nodup_zipIdx.filter _) hm
  have hl' : FirstBest.Leads (fun e : Entry => e.norm = n) (fun e => OrderDual.toDual (side e.snap))
      (E.zipIdx.map Prod.fst) z.1 := FirstBest.Leads.map (g := Prod.fst) hl.of_filter
  rw [List.zipIdx_map_fst] at hl'
  exact ⟨by rwa [Home, hz], hz⟩

theorem two_le_dedup {l : List String} {a b : String} (ha : a ∈ l) (hb : b ∈ l) (hab : a ≠ b) :
    2 ≤ l.dedup.length := by
  have hd : [a, b].Nodup := by simp [hab]
  have hs : [a, b] ⊆ l.dedup := by simp [ha, hb]
  exact (List.subperm_of_subset hd hs).length_le

-- The guards before the home is taken change nothing: without a second project it has no twins.
theorem collapseTitle_eq : collapseTitle E allowed n =
    match members E n with
    | []           => none
    | home :: rest =>
      if twins allowed home rest = [] then
        none
      else
        some ({
          home            := radarHome home.1.snap
          dups            := (twins allowed home rest).map fun m => radarDup 1 m.1.snap
          normalizedTitle := home.1.norm
        }, home.2 :: (twins allowed home rest).map (·.2)) := by
  have hlen : (E.zipIdx.filter (·.1.norm = n)).length = (members E n).length :=
    (List.mergeSort_perm _ _).length_eq.symm
  rw [collapseTitle]
  change (if _ then _ else if ((members E n).map _).dedup.length < 2 then _ else match members E n with
    | [] => _
    | home :: rest => _) = _
  rw [hlen]
  cases hm : members E n
  case nil => simp
  case cons home rest =>
    have hguard (hg : rest = [] ∨ ((home :: rest).map (·.1.snap.projectId)).dedup.length < 2) :
        twins allowed home rest = [] := by
      rw [twins, List.filter_eq_nil_iff]
      intro z hz hp
      cases hg
      case inl hr => simp [hr] at hz
      case inr hd =>
        simp only [Bool.and_eq_true, decide_eq_true_eq] at hp
        have h2 := @two_le_dedup ((home :: rest).map (·.1.snap.projectId)) _ _
          (List.mem_map_of_mem (List.mem_cons_of_mem _ hz)) (List.mem_map_of_mem List.mem_cons_self) hp.1.1
        omega
    by_cases h1 : (home :: rest).length < 2
    case pos =>
      have hr : rest = [] := List.eq_nil_of_length_eq_zero (by simp only [List.length_cons] at h1; omega)
      simp only [if_pos h1, if_pos (hguard (.inl hr))]
    case neg =>
      by_cases h2 : ((home :: rest).map (·.1.snap.projectId)).dedup.length < 2
      case pos => simp only [if_neg h1, if_pos h2, if_pos (hguard (.inr h2))]
      case neg =>
        simp only [if_neg h1, if_neg h2]
        rfl

theorem mem_twins {home z : Entry × Nat} {rest : List (Entry × Nat)} (hm : members E n = home :: rest) :
    z ∈ twins allowed home rest ↔ E[z.2]? = some z.1 ∧ Twin allowed home.1 z.1 := by
  have hh := (home_of_members hm).2
  have hmem : z ∈ home :: rest ↔ E[z.2]? = some z.1 ∧ z.1.norm = n := hm ▸ mem_members
  rw [twins, List.mem_filter]
  simp only [Bool.and_eq_true, decide_eq_true_eq, Bool.not_eq_true']
  constructor
  case mp =>
    rintro ⟨hz, ⟨hp, he⟩, ha⟩
    have ⟨hE, hn⟩ := hmem.mp (List.mem_cons_of_mem _ hz)
    exact ⟨hE, ⟨hh.trans hn.symm, hp.symm, he, ha⟩⟩
  case mpr =>
    rintro ⟨hE, hn, hp, he, ha⟩
    have hz := hmem.mpr ⟨hE, hn.symm.trans hh⟩
    refine ⟨(List.mem_cons.mp hz).resolve_left fun heq => hp (by rw [heq]), ⟨hp.symm, he⟩, ha⟩

theorem home_unique (hx : Home E x) (hy : Home E y) (h : x.norm = y.norm) : x = y := by
  rw [Home, h] at hx
  exact hx.unique hy

theorem Home.mem (h : Home E x) : x ∈ E :=
  FirstBest.Leads.mem h

-- Every title has a home.
theorem exists_home (hx : x ∈ E) : ∃ h, Home E h ∧ h.norm = x.norm := by
  have ⟨i, hi⟩ := List.mem_iff_getElem?.mp hx
  have hm : (x, i) ∈ members E x.norm := mem_members.mpr ⟨hi, rfl⟩
  cases hms : members E x.norm
  case nil         => simp [hms] at hm
  case cons z rest => exact ⟨z.1, home_of_members hms⟩

-- What the entry of a title says.
structure Spec (allowed : List String) (E : List Entry) (h : Entry) (r : DuplicatePair × List Nat) : Prop where
  home   : r.1.home = radarHome h.snap
  dups   : ∀ d, d ∈ r.1.dups ↔ ∃ m ∈ E, Twin allowed h m ∧ d = radarDup 1 m.snap
  hidden : ∀ i, i ∈ r.2 ↔ ∃ m, E[i]? = some m ∧ (m = h ∨ Twin allowed h m)

theorem members_home (hh : Home E h) : ∃ i rest, members E h.norm = (h, i) :: rest ∧ E[i]? = some h := by
  have ⟨i, hi⟩ := List.mem_iff_getElem?.mp hh.mem
  have hm : (h, i) ∈ members E h.norm := mem_members.mpr ⟨hi, rfl⟩
  cases hms : members E h.norm
  case nil         => simp [hms] at hm
  case cons z rest =>
    have ⟨hz, hn⟩ := home_of_members hms
    have hzh : z.1 = h := home_unique hz hh hn
    have hmem := mem_members.mp (hms ▸ List.mem_cons_self)
    exact ⟨z.2, rest, by rw [← hzh], by rw [hmem.1, hzh]⟩

theorem twins_eq_nil {rest : List (Entry × Nat)} (hm : members E h.norm = (h, i) :: rest) :
    twins allowed (h, i) rest = [] ↔ ¬∃ m ∈ E, Twin allowed h m := by
  rw [List.eq_nil_iff_forall_not_mem]
  simp only [mem_twins hm, Prod.forall, not_exists, not_and]
  constructor
  case mp =>
    intro hn m hmem ht
    have ⟨j, hj⟩ := List.mem_iff_getElem?.mp hmem
    exact hn m j hj ht
  case mpr => exact fun hn m j hj => hn m (List.mem_of_getElem? hj)

theorem collapseTitle_eq_none (hh : Home E h) :
    collapseTitle E allowed h.norm = none ↔ ¬∃ m ∈ E, Twin allowed h m := by
  have ⟨i, rest, hm, _⟩ := members_home hh
  rw [collapseTitle_eq, hm, ← twins_eq_nil hm]
  simp

theorem collapseTitle_spec {r : DuplicatePair × List Nat} (hE : E.Nodup) (hh : Home E h)
    (hr : collapseTitle E allowed h.norm = some r) : Spec allowed E h r := by
  have ⟨i, rest, hm, hi⟩ := members_home hh
  rw [collapseTitle_eq, hm] at hr
  simp only [Option.ite_none_left_eq_some, Option.some.injEq] at hr
  obtain ⟨-, rfl⟩ := hr
  constructor
  case home => rfl
  case dups =>
    intro d
    simp only [List.mem_map, mem_twins hm, Prod.exists]
    constructor
    case mp  => exact fun ⟨m, j, ⟨hj, ht⟩, hd⟩ => ⟨m, List.mem_of_getElem? hj, ht, hd.symm⟩
    case mpr =>
      rintro ⟨m, hmem, ht, hd⟩
      have ⟨j, hj⟩ := List.mem_iff_getElem?.mp hmem
      exact ⟨m, j, ⟨hj, ht⟩, hd.symm⟩
  case hidden =>
    intro k
    simp only [List.mem_cons, List.mem_map, mem_twins hm, Prod.exists, exists_eq_right]
    constructor
    case mp =>
      rintro (rfl | ⟨m, hk, ht⟩)
      case inl => exact ⟨h, hi, .inl rfl⟩
      case inr => exact ⟨m, hk, .inr ht⟩
    case mpr =>
      rintro ⟨m, hk, rfl | ht⟩
      case inr => exact .inr ⟨m, hk, ht⟩
      case inl =>
        have ⟨hlt, _⟩ := List.getElem?_eq_some_iff.mp hk
        exact .inl ((List.getElem?_inj hlt hE).mp (hk.trans hi.symm))

variable {norms : List String} (hn : norms.Perm (E.map (·.norm)).dedup)
include hn

-- The entries of the first pass, in whatever order the titles come.
theorem mem_collapse {p : DuplicatePair} : p ∈ (collapseIdenticalTitles E allowed norms).1 ↔
    ∃ h r, Home E h ∧ collapseTitle E allowed h.norm = some r ∧ p = r.1 := by
  simp only [collapseIdenticalTitles, List.mem_map, List.mem_filterMap, hn.mem_iff, List.mem_dedup]
  constructor
  case mp =>
    rintro ⟨r, ⟨_, ⟨x, hx, rfl⟩, hr⟩, rfl⟩
    have ⟨h, hh, hxn⟩ := exists_home hx
    exact ⟨h, r, hh, hxn ▸ hr, rfl⟩
  case mpr => exact fun ⟨h, r, hh, hr, hp⟩ => ⟨r, ⟨h.norm, ⟨h, hh.mem, rfl⟩, hr⟩, hp.symm⟩

-- What the first pass hides from the second.
theorem mem_hidden (hE : E.Nodup) (hx : E[i]? = some x) :
    i ∈ (collapseIdenticalTitles E allowed norms).2 ↔ Collapsed allowed E x := by
  simp only [collapseIdenticalTitles, List.mem_flatMap, List.mem_filterMap, hn.mem_iff, List.mem_dedup, List.mem_map]
  constructor
  case mp =>
    rintro ⟨r, ⟨_, ⟨y, hy, rfl⟩, hr⟩, hi⟩
    have ⟨h, hh, hyn⟩ := exists_home hy
    rw [← hyn] at hr
    have ⟨m, hm, ht⟩ := ((collapseTitle_spec hE hh hr).hidden i).mp hi
    cases hx.symm.trans hm
    have htwin : ∃ m ∈ E, Twin allowed h m := by
      by_contra hno
      exact absurd ((collapseTitle_eq_none hh).mpr hno) (by simp [hr])
    refine ⟨h, hh, ?_, htwin, ht⟩
    obtain rfl | ht := ht
    case inl => rfl
    case inr => exact ht.norm
  case mpr =>
    rintro ⟨h, hh, _, htwin, ht⟩
    have hr := mt (collapseTitle_eq_none hh).mp (not_not.mpr htwin)
    have ⟨r, hr⟩ := Option.ne_none_iff_exists'.mp hr
    exact ⟨r, ⟨h.norm, ⟨h, hh.mem, rfl⟩, hr⟩, ((collapseTitle_spec hE hh hr).hidden i).mpr ⟨x, hx, ht⟩⟩

end Collapse

section Paraphrase

variable {a b : Entry} {p : DuplicatePair}

def score (a b : Entry) : ℚ :=
  UnitFloat.div (jaccard a.toks b.toks).1 (jaccard a.toks b.toks).2

-- Two tickets whose titles are nearly the same, with nothing that excuses it.
structure Similar (allowed : List String) (a b : Entry) : Prop where
  norm    : a.norm ≠ b.norm
  near    : dupeThreshold ≤ score a b
  exempt  : sameTagExempt a.snap b.snap (score a b) = false
  allowed : allowlisted allowed a.snap b.snap = false

-- The home of the two, and the other one.
def sides (a b : Entry) : Entry × Entry :=
  if side a.snap ≤ side b.snap then (a, b) else (b, a)

def pairOf (a b : Entry) : DuplicatePair where
  home            := radarHome (sides a b).1.snap
  dups            := [radarDup (score a b) (sides a b).2.snap]
  normalizedTitle := normalizeTitle (sides a b).1.snap.title

-- The one stands before the other in the list.
def Before (E : List Entry) (a b : Entry) : Prop :=
  ∃ l₁ l₂, E = l₁ ++ a :: l₂ ∧ b ∈ l₂

theorem paraphrase_eq_some : paraphrase allowed a b = some p ↔ Similar allowed a b ∧ p = pairOf a b := by
  have hsides : (if side a.snap ≤ side b.snap then (a.snap, b.snap) else (b.snap, a.snap)) =
      ((sides a b).1.snap, (sides a b).2.snap) := by
    unfold sides
    split <;> rfl
  simp only [paraphrase, hsides, Option.ite_none_left_eq_some, Option.some.injEq, Bool.not_eq_true, not_lt]
  constructor
  case mp  =>
    rintro ⟨hn, hs, he, ha, hp⟩
    exact ⟨⟨Ne.symm hn, hs, he, ha⟩, hp.symm⟩
  case mpr =>
    rintro ⟨⟨hn, hs, he, ha⟩, hp⟩
    exact ⟨hn.symm, hs, he, ha, hp.symm⟩

theorem before_iff : Before E a b ↔ ∃ i, E[i]? = some a ∧ b ∈ E.drop (i + 1) := by
  constructor
  case mp =>
    rintro ⟨l₁, l₂, rfl, hb⟩
    refine ⟨l₁.length, by simp, ?_⟩
    rw [List.drop_append, List.drop_eq_nil_of_le (by omega)]
    simpa using hb
  case mpr =>
    rintro ⟨i, hi, hb⟩
    have ⟨hlt, he⟩ := List.getElem?_eq_some_iff.mp hi
    refine ⟨E.take i, E.drop (i + 1), ?_, hb⟩
    rw [← he, ← List.drop_eq_getElem_cons hlt, List.take_append_drop]

-- The entries of the second pass. Only the first of the two tickets has to be left over from the first one.
theorem mem_paraphrasePairs {norms : List String} (hn : norms.Perm (E.map (·.norm)).dedup) (hE : E.Nodup) :
    p ∈ paraphrasePairs E allowed (collapseIdenticalTitles E allowed norms).2 ↔
      ∃ a b, Before E a b ∧ ¬Collapsed allowed E a ∧ Similar allowed a b ∧ p = pairOf a b := by
  simp only [paraphrasePairs, List.mem_flatMap, Prod.exists, List.mk_mem_zipIdx_iff_getElem?]
  constructor
  case mp =>
    rintro ⟨a, i, hi, hp⟩
    split at hp
    case isTrue => simp at hp
    case isFalse hc =>
      have ⟨b, hb, hab⟩ := List.mem_filterMap.mp hp
      have ⟨hs, hp⟩ := paraphrase_eq_some.mp hab
      exact ⟨a, b, before_iff.mpr ⟨i, hi, hb⟩, mt (mem_hidden hn hE hi).mpr hc, hs, hp⟩
  case mpr =>
    rintro ⟨a, b, hab, hc, hs, hp⟩
    have ⟨i, hi, hb⟩ := before_iff.mp hab
    refine ⟨a, i, hi, ?_⟩
    rw [if_neg (mt (mem_hidden hn hE hi).mp hc)]
    exact List.mem_filterMap.mpr ⟨b, hb, paraphrase_eq_some.mpr ⟨hs, hp⟩⟩

end Paraphrase

section Symmetry

variable {a b : Entry} {s t : TicketSnapshot}

theorem pairKey_comm {k k' : String × String} : pairKey k k' = pairKey k' k := by
  simp only [pairKey]
  split
  case isTrue h =>
    split
    case isTrue h' => rw [le_antisymm h h']
    case isFalse   => rfl
  case isFalse h => rw [if_pos (le_of_not_ge h)]

theorem allowlisted_comm : allowlisted allowed s t = allowlisted allowed t s := by
  rw [allowlisted, allowlisted, pairKey_comm]

theorem sameTagExempt_comm {score : ℚ} : sameTagExempt s t score = sameTagExempt t s score := by
  have h : sameServiceTag s t = sameServiceTag t s := by
    unfold sameServiceTag
    cases s.serviceTag <;> cases t.serviceTag <;> simp [eq_comm]
  rw [sameTagExempt, sameTagExempt, h]

theorem Twin.symm (h : Twin allowed x y) : Twin allowed y x where
  norm    := h.norm.symm
  project := h.project.symm
  exempt  := sameTagExempt_comm.trans h.exempt
  allowed := allowlisted_comm.trans h.allowed

theorem jaccard_comm {l m : List String} (hl : l.Nodup) (hm : m.Nodup) : jaccard l m = jaccard m l := by
  rw [jaccard, jaccard, Lists.length_inter_comm hl hm, Lists.length_union_comm hl hm]
  simp only [or_comm]

theorem sides_comm (h : side a.snap ≠ side b.snap) : sides a b = sides b a := by
  rw [sides, sides]
  split
  case isTrue hab => rw [if_neg (not_le.mpr (lt_of_le_of_ne hab h))]
  case isFalse hab => rw [if_pos (le_of_not_ge hab)]

theorem sides_eq : sides a b = (a, b) ∨ sides a b = (b, a) := by
  unfold sides
  split
  case isTrue  => exact .inl rfl
  case isFalse => exact .inr rfl

end Symmetry

section Entries

variable {S S' : List TicketSnapshot} {a b : Entry}

def entryOf (s : TicketSnapshot) : Entry where
  snap := s
  norm := normalizeTitle s.title
  toks := titleTokens s.title

theorem mem_entries : x ∈ entries S ↔ x.snap ∈ S ∧ x = entryOf x.snap ∧ minTitleLen ≤ x.norm.utf8ByteSize := by
  simp only [entries, List.mem_filter, List.mem_map, decide_eq_true_eq, ge_iff_le]
  constructor
  case mp =>
    rintro ⟨⟨s, hs, rfl⟩, hlen⟩
    exact ⟨hs, rfl, hlen⟩
  case mpr => exact fun ⟨hs, hx, hlen⟩ => ⟨⟨x.snap, hs, hx.symm⟩, hlen⟩

theorem entries_perm (h : S.Perm S') : (entries S).Perm (entries S') :=
  (h.map _).filter _

theorem entries_cons (hx : x ∈ entries S) : entries (x.snap :: S') = x :: entries S' := by
  have ⟨_, he, hlen⟩ := mem_entries.mp hx
  have hp : (decide ((entryOf x.snap).norm.utf8ByteSize ≥ minTitleLen)) = true := by
    rw [← he]
    exact decide_eq_true hlen
  have hc : entries (x.snap :: S') = entryOf x.snap :: entries S' :=
    List.filter_cons_of_pos (p := fun e : Entry => decide (e.norm.utf8ByteSize ≥ minTitleLen)) hp
  rw [hc, ← he]

theorem norm_eq (hx : x ∈ entries S) : x.norm = normalizeTitle x.snap.title := by
  have ⟨_, he, _⟩ := mem_entries.mp hx
  rw [he]
  simp only [entryOf]

theorem nodup_toks (hx : x ∈ entries S) : x.toks.Nodup := by
  have ⟨_, he, _⟩ := mem_entries.mp hx
  rw [he]
  simp only [entryOf, titleTokens, List.nodup_dedup]

variable (hd : (S.map key).Nodup)
include hd

theorem eq_of_key (hx : x ∈ entries S) (hy : y ∈ entries S) (h : key x.snap = key y.snap) : x = y := by
  have ⟨hxs, hx, _⟩ := mem_entries.mp hx
  have ⟨hys, hy, _⟩ := mem_entries.mp hy
  rw [hx, hy, List.inj_on_of_nodup_map hd hxs hys h]

theorem nodup_entries : (entries S).Nodup := by
  refine .filter _ (.map_on (fun s _ t _ h => congrArg Entry.snap h) ?_)
  exact .of_map _ hd

end Entries

section Reports

variable {S : List TicketSnapshot} {norms : List String} {a b : Entry} {p : DuplicatePair}

-- The pairs of a home and another ticket that the radar reports.
def Reports (allowed : List String) (E : List Entry) (x y : Entry) : Prop :=
  (Home E x ∧ y ∈ E ∧ Twin allowed x y) ∨
    ∃ a b, Before E a b ∧ ¬Collapsed allowed E a ∧ Similar allowed a b ∧ (x, y) = sides a b

theorem Similar.symm (ha : a ∈ entries S) (hb : b ∈ entries S) (h : Similar allowed a b) : Similar allowed b a := by
  have hs : score a b = score b a := by
    rw [score, score, jaccard_comm (nodup_toks ha) (nodup_toks hb)]
  exact ⟨h.norm.symm, hs ▸ h.near, hs ▸ sameTagExempt_comm.trans h.exempt, allowlisted_comm.trans h.allowed⟩

theorem Before.mem (h : Before E a b) : a ∈ E ∧ b ∈ E := by
  have ⟨l₁, l₂, hE, hb⟩ := h
  simp [hE, hb]

theorem before_or (ha : a ∈ E) (hb : b ∈ E) (h : a ≠ b) : Before E a b ∨ Before E b a := by
  obtain ⟨l₁, l₂, rfl⟩ := List.append_of_mem ha
  rw [List.mem_append, List.mem_cons] at hb
  obtain hb | hb | hb := hb
  case inl =>
    obtain ⟨k₁, k₂, rfl⟩ := List.append_of_mem hb
    exact .inr ⟨k₁, k₂ ++ a :: l₂, by simp, by simp⟩
  case inr.inl => exact absurd hb.symm h
  case inr.inr => exact .inl ⟨l₁, l₂, rfl, hb⟩

theorem not_before_symm (hE : E.Nodup) (h : Before E a b) : ¬Before E b a := by
  rw [before_iff] at h ⊢
  rintro ⟨j, hj, ha⟩
  have ⟨i, hi, hb⟩ := h
  -- The place of the one is behind that of the other, and the other way round.
  have hlt {x y : Entry} {i j : Nat} (hi : E[i]? = some x) (hj : E[j]? = some y) (hy : y ∈ E.drop (i + 1)) :
      i < j := by
    have ⟨k, hk⟩ := List.mem_iff_getElem?.mp hy
    rw [List.getElem?_drop] at hk
    have ⟨hlt, _⟩ := List.getElem?_eq_some_iff.mp hj
    have := (List.getElem?_inj hlt hE).mp (hj.trans hk.symm)
    omega
  have := hlt hi hj hb
  have := hlt hj hi ha
  omega

theorem mem_find (hd : (S.map key).Nodup) (hn : HashOrder S norms) :
    p ∈ findCrossProjectDuplicates norms S allowed ↔
      (∃ h r, Home (entries S) h ∧ collapseTitle (entries S) allowed h.norm = some r ∧ p = r.1) ∨
        ∃ a b, Before (entries S) a b ∧ ¬Collapsed allowed (entries S) a ∧ Similar allowed a b ∧ p = pairOf a b := by
  simp only [findCrossProjectDuplicates, List.mem_mergeSort, List.mem_append]
  rw [mem_collapse hn, mem_paraphrasePairs hn (nodup_entries hd)]

end Reports

end Radar
