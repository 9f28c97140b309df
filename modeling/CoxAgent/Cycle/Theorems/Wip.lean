import CoxAgent.Cycle.Hygiene
import CoxAgent.Lib.Instant
import CoxAgent.Lib.Lists
import CoxAgent.Lib.Replace

-- A ref of parked work, of a ticket or of none.
inductive WipRef
  | ticket (id : TicketId)
  | parked (workDir : OsPath) (now : Instant)

def unattributed : String := "unattributed-"

namespace WipRef

def name : WipRef → String
  | ticket id          => wipRefFor id
  | parked workDir now => unattributedWipRef workDir now.rfc3339

def isParked : WipRef → Bool
  | ticket _   => false
  | parked _ _ => true

def slot (workDir : OsPath) : String :=
  workDir.fileName.elim "unknown-slot" fun name => .ofList (name.toStringLossy.toList.take 60)

-- What follows the prefix that all refs of parked work have.
def leaf : WipRef → String
  | ticket id          => id.asStr
  | parked workDir now => unattributed ++ compactInstant now.rfc3339 ++ "-" ++ slot workDir

-- By its name it is of no ticket.
def looksParked (r : WipRef) : Bool :=
  Text.startsWith r.leaf unattributed

variable {r : WipRef} {id : TicketId} {workDir workDir' : OsPath} {now now' : Instant}

section Text

theorem filter_zeroPad {w n : Nat} : (Text.zeroPad w n).filter (·.isAlphanum) = Text.zeroPad w n := by
  rw [List.filter_eq_self]
  intro c hc
  simp [Char.isAlphanum, Text.isDigit_of_mem_zeroPad hc]

theorem filter_digits {ds : List (Fin 10)} : (Instant.digits ds).filter (·.isAlphanum) = Instant.digits ds := by
  rw [List.filter_eq_self]
  intro c hc
  obtain ⟨d, -, rfl⟩ := List.mem_map.mp hc
  have hd : ∀ d : Fin 10, (Instant.digit d).isAlphanum := by decide
  exact hd d

theorem toList_compactInstant :
    (compactInstant now.rfc3339).toList = now.stamp ++ (Instant.digits now.fraction ++ ['Z']) := by
  have hfraction : (if now.fraction = [] then [] else '.' :: Instant.digits now.fraction).filter (·.isAlphanum) =
      Instant.digits now.fraction := by
    split
    case isTrue h  => simp [h, Instant.digits]
    case isFalse h => simp [filter_digits]
  rw [compactInstant, Instant.rfc3339, String.toList_ofList, String.toList_ofList]
  simp [Instant.stamp, filter_zeroPad, hfraction]

theorem name_eq (r : WipRef) : r.name = wipRefPrefix ++ r.leaf := by
  cases r
  case ticket => rfl
  case parked => rfl

theorem looksParked_parked : (parked workDir now).looksParked := by
  rw [looksParked, Text.startsWith_iff, leaf, String.append_assoc, String.append_assoc, String.toList_append]
  exact List.prefix_append _ _

theorem toList_name_parked : (parked workDir now).name.toList = wipRefPrefix.toList ++ (unattributed.toList ++
    (now.stamp ++ (Instant.digits now.fraction ++ 'Z' :: '-' :: (slot workDir).toList))) := by
  rw [name_eq, leaf]
  simp [toList_compactInstant]

-- The names are in the order of the instants, unless one extends the other.
theorem name_lt (workDir workDir' : OsPath) (h : now.Before now') :
    (parked workDir now).name < (parked workDir' now').name ∨ now.Extends now' := by
  rw [String.lt_iff_toList_lt, toList_name_parked, toList_name_parked]
  exact (Instant.text_lt h).imp_left fun h => List.append_left_lt (List.append_left_lt h)

end Text

end WipRef

-- The refs of a repository, of which no two have the same name.
structure WipRefs where
  refs     : List WipRef
  distinct : (refs.map (·.name)).Nodup

namespace WipRefs

section Definitions

variable (w : WipRefs) (tickets : BTreeMap String Bool) (keep : Nat)

def stale : List String :=
  staleWipRefs (w.refs.map (·.name)) tickets keep

-- No ref of an open ticket is stale, and of the parked ones the latest are not.
structure PrunesSpent : Prop where
  attributed : ∀ id, .ticket id ∈ w.refs → tickets.get? id.asStr = some false →
                 wipRefFor id ∉ w.stale tickets keep
  latest     : ∀ workDir now workDir' now', .parked workDir now ∈ w.refs → .parked workDir' now' ∈ w.refs →
                 now.Before now' → (WipRef.parked workDir now).name ∉ w.stale tickets keep →
                 (WipRef.parked workDir' now').name ∉ w.stale tickets keep
  number     : w.refs.countP (fun r => r.isParked ∧ r.name ∉ w.stale tickets keep) = min keep (w.refs.countP (·.isParked))

-- Fewer than `keep` refs that look parked have a name that comes later.
def Within (r : WipRef) : Prop :=
  w.refs.countP (fun r' => r'.looksParked ∧ r.name < r'.name) < keep

-- A ticket whose id starts as the names of parked work do.
def Masked (id : TicketId) : Prop :=
  .ticket id ∈ w.refs ∧ Text.startsWith id.asStr unattributed

-- Open tickets of that kind are within the limit, others are not if parked work is beyond it, and no ref within it
-- is extended by one beyond it.
structure Unmixed : Prop where
  attributed : ∀ id, w.Masked id → tickets.get? id.asStr = some false → w.Within keep (.ticket id)
  parked     : (∃ id, w.Masked id ∧ w.Within keep (.ticket id)) →
                 ∀ workDir now, .parked workDir now ∈ w.refs → w.Within keep (.parked workDir now)
  extended   : ∀ workDir now workDir' now', .parked workDir now ∈ w.refs → .parked workDir' now' ∈ w.refs →
                 now.Extends now' → w.Within keep (.parked workDir now) → w.Within keep (.parked workDir' now')

end Definitions

variable {w : WipRefs} {tickets : BTreeMap String Bool} {keep : Nat} {r r' : WipRef}

section Order

-- The refs that look parked, those with the later names first.
def ranked (w : WipRefs) : List WipRef :=
  ((w.refs.filter (·.looksParked)).mergeSort fun a b => a.name ≤ b.name).reverse

theorem ranked_perm : w.ranked.Perm (w.refs.filter (·.looksParked)) :=
  (List.reverse_perm _).trans (List.mergeSort_perm _ _)

theorem mem_ranked : r ∈ w.ranked ↔ r ∈ w.refs ∧ r.looksParked := by
  rw [ranked_perm.mem_iff, List.mem_filter]

theorem name_inj (hr : r ∈ w.refs) (hr' : r' ∈ w.refs) (h : r.name = r'.name) : r = r' :=
  List.inj_on_of_nodup_map w.distinct hr hr' h

theorem nodup_ranked : (w.ranked.map (·.name)).Nodup :=
  (ranked_perm.map _).nodup_iff.mpr (w.distinct.sublist (List.filter_sublist.map _))

theorem pairwise_ranked : (w.ranked.map (·.name)).Pairwise fun a b => b ≤ a := by
  rw [ranked, List.pairwise_map, List.pairwise_reverse]
  refine (List.pairwise_mergeSort ?trans ?total _).imp of_decide_eq_true
  case trans => exact fun a b c hab hbc => by simpa using le_trans (of_decide_eq_true hab) (of_decide_eq_true hbc)
  case total => exact fun a b => by simpa using le_total a.name b.name

-- The names of a list, without the prefix that all of them have.
theorem filterMap_name {refs : List WipRef} :
    (refs.map (·.name)).filterMap (fun n => (Text.stripPrefix n wipRefPrefix).map fun leaf => (n, leaf)) =
      refs.map fun r => (r.name, r.leaf) := by
  have hstrip (r : WipRef) : Text.stripPrefix r.name wipRefPrefix = some r.leaf := by
    rw [Text.stripPrefix_eq_some, r.name_eq, String.toList_append]
  rw [List.filterMap_map, ← List.filterMap_eq_map]
  refine List.filterMap_congr fun r _ => ?_
  rw [Function.comp_apply, hstrip]
  rfl

theorem stale_eq : w.stale tickets keep =
    (w.refs.filter fun r => !r.looksParked && (tickets.get? r.leaf).getD true).map (·.name) ++
      (w.ranked.drop keep).map (·.name) := by
  have hsort : ((w.refs.filter (·.looksParked)).map (·.name)).mergeSort (· ≤ ·) =
      ((w.refs.filter (·.looksParked)).mergeSort fun a b => a.name ≤ b.name).map (·.name) :=
    (List.map_mergeSort (f := WipRef.name) fun _ _ _ _ => rfl).symm
  rw [stale, staleWipRefs, filterMap_name, ranked, List.map_drop, List.map_reverse, ← hsort]
  simp only [List.partition_eq_filter_filter, List.filter_map, List.map_map, List.filter_filter]
  exact congrArg (· ++ _) (congrArg _ (List.filter_congr fun r _ => Bool.and_comm _ _))

end Order

section Kept

theorem nodup_filter_ranked : w.ranked.Nodup :=
  .of_map _ nodup_ranked

theorem not_mem_stale_of_looksParked (hr : r ∈ w.refs) (hl : r.looksParked) :
    r.name ∉ w.stale tickets keep ↔ r ∈ w.ranked.take keep := by
  have hm : r ∈ w.ranked := mem_ranked.mpr ⟨hr, hl⟩
  have htake : r ∉ w.ranked.drop keep ↔ r ∈ w.ranked.take keep := by
    have hd := List.disjoint_take_drop (nodup_filter_ranked (w := w)) (le_refl keep)
    rw [← List.take_append_drop keep w.ranked, List.mem_append] at hm
    exact ⟨hm.resolve_right, fun ht hd' => hd ht hd'⟩
  rw [← htake, stale_eq, List.mem_append, not_or, List.mem_map, List.mem_map]
  constructor
  case mp => exact fun h hd => h.right ⟨r, hd, rfl⟩
  case mpr =>
    intro h
    constructor
    case left =>
      rintro ⟨r', hr', hn⟩
      have ⟨hm', hd⟩ := List.mem_filter.mp hr'
      obtain rfl := name_inj hm' hr hn
      simp [hl] at hd
    case right =>
      rintro ⟨r', hr', hn⟩
      obtain rfl := name_inj (mem_ranked.mp (List.mem_of_mem_drop hr')).left hr hn
      exact h hr'

theorem not_mem_stale_of_open (hr : r ∈ w.refs) (hl : r.looksParked = false) (ho : tickets.get? r.leaf = some false) :
    r.name ∉ w.stale tickets keep := by
  rw [stale_eq, List.mem_append, not_or, List.mem_map, List.mem_map]
  constructor
  case left =>
    rintro ⟨r', hr', hn⟩
    have ⟨hm', hd⟩ := List.mem_filter.mp hr'
    obtain rfl := name_inj hm' hr hn
    simp [ho] at hd
  case right =>
    rintro ⟨r', hr', hn⟩
    have ⟨hm', hl'⟩ := mem_ranked.mp (List.mem_of_mem_drop hr')
    obtain rfl := name_inj hm' hr hn
    exact absurd hl' (by simp [hl])

theorem mem_take_iff_within (hr : r ∈ w.refs) (hl : r.looksParked) : r ∈ w.ranked.take keep ↔ w.Within keep r := by
  have hm : r ∈ w.ranked := mem_ranked.mpr ⟨hr, hl⟩
  have hname : r ∈ w.ranked.take keep ↔ r.name ∈ (w.ranked.map (·.name)).take keep := by
    rw [← List.map_take, List.mem_map]
    constructor
    case mp => exact fun h => ⟨r, h, rfl⟩
    case mpr =>
      rintro ⟨r', hr', hn⟩
      exact name_inj (mem_ranked.mp (List.mem_of_mem_take hr')).left hr hn ▸ hr'
  have htake := Lists.mem_take_iff (r := fun a b => b ≤ a) (n := keep) (by simpa using pairwise_ranked) nodup_ranked
    (fun b hb hb' => le_antisymm (by simpa using hb') (by simpa using hb)) (List.mem_map_of_mem (f := WipRef.name) hm)
  rw [hname, htake, Within, List.countP_map, ranked_perm.countP_eq, List.countP_filter]
  refine iff_of_eq (congrArg (· < keep) (List.countP_congr fun r' _ => ?_))
  simp only [Function.comp_apply, Bool.and_eq_true, decide_eq_true_eq]
  constructor
  case mp  => exact fun ⟨⟨h, hn⟩, hl⟩ => ⟨hl, lt_of_le_of_ne h hn.symm⟩
  case mpr => exact fun ⟨hl, h⟩ => ⟨⟨h.le, h.ne'⟩, hl⟩

theorem masked_iff {id : TicketId} : w.Masked id ↔ .ticket id ∈ w.refs ∧ (WipRef.ticket id).looksParked :=
  Iff.rfl

theorem not_mem_stale_iff (hr : r ∈ w.refs) (hl : r.looksParked) : r.name ∉ w.stale tickets keep ↔ w.Within keep r :=
  (not_mem_stale_of_looksParked hr hl).trans (mem_take_iff_within hr hl)

theorem Within.of_lt (h : w.Within keep r) (hn : r.name < r'.name) : w.Within keep r' := by
  refine lt_of_le_of_lt (List.countP_mono_left fun r'' _ hc => ?_) h
  rw [decide_eq_true_eq] at hc ⊢
  exact ⟨hc.left, hn.trans hc.right⟩

end Kept

section Prune

theorem looksParked_of_isParked (h : r.isParked) : r.looksParked := by
  cases r
  case ticket => contradiction
  case parked => exact WipRef.looksParked_parked

theorem countP_ranked {p : WipRef → Bool} (hp : ∀ r, p r → r.looksParked) : w.refs.countP p = w.ranked.countP p := by
  rw [ranked_perm.countP_eq, List.countP_filter]
  refine List.countP_congr fun r _ => ?_
  rw [Bool.and_eq_true]
  exact ⟨fun h => ⟨h, hp r h⟩, fun h => h.left⟩

theorem countP_kept : w.refs.countP (fun r => r.isParked ∧ r.name ∉ w.stale tickets keep) =
    (w.ranked.take keep).countP (·.isParked) := by
  have hkept {r : WipRef} (hm : r ∈ w.ranked) : r.name ∉ w.stale tickets keep ↔ r ∈ w.ranked.take keep :=
    have ⟨hr, hl⟩ := mem_ranked.mp hm
    not_mem_stale_of_looksParked hr hl
  have htake : (w.ranked.take keep).countP (fun r => r.isParked ∧ r.name ∉ w.stale tickets keep) =
      (w.ranked.take keep).countP (·.isParked) := by
    refine List.countP_congr fun r hr => ?_
    rw [decide_eq_true_eq]
    exact and_iff_left ((hkept (List.mem_of_mem_take hr)).mpr hr)
  have hdrop : (w.ranked.drop keep).countP (fun r => r.isParked ∧ r.name ∉ w.stale tickets keep) = 0 := by
    rw [List.countP_eq_zero]
    intro r hr hn
    rw [decide_eq_true_eq] at hn
    have ht := (hkept (List.mem_of_mem_drop hr)).mp hn.right
    exact List.disjoint_take_drop (nodup_filter_ranked (w := w)) (le_refl keep) ht hr
  rw [countP_ranked fun r h => looksParked_of_isParked (of_decide_eq_true h).left]
  rw [← List.take_append_drop keep w.ranked, List.countP_append, htake, hdrop, List.take_append_drop, Nat.add_zero]

-- The parked work that is kept is as much as there may be.
theorem number_iff : w.refs.countP (fun r => r.isParked ∧ r.name ∉ w.stale tickets keep) =
      min keep (w.refs.countP (·.isParked)) ↔
    ((∃ id, w.Masked id ∧ w.Within keep (.ticket id)) →
      ∀ workDir now, .parked workDir now ∈ w.refs → w.Within keep (.parked workDir now)) := by
  rw [countP_kept, countP_ranked fun r => looksParked_of_isParked, Lists.countP_take_eq_min_iff]
  constructor
  case mp =>
    rintro h ⟨id, ⟨hid, hl⟩, hw⟩ workDir now hp
    have ht := (mem_take_iff_within hid hl).mpr hw
    have hm : .parked workDir now ∈ w.ranked := mem_ranked.mpr ⟨hp, WipRef.looksParked_parked⟩
    cases h
    case inl h => exact absurd (h _ ht) (by simp [WipRef.isParked])
    case inr h =>
      rw [← List.take_append_drop keep w.ranked, List.mem_append] at hm
      exact (mem_take_iff_within hp WipRef.looksParked_parked).mp (hm.resolve_right fun hd => h _ hd rfl)
  case mpr =>
    intro h
    by_cases hm : ∃ id, w.Masked id ∧ w.Within keep (.ticket id)
    case pos =>
      refine .inr fun r hd hp => ?_
      cases r
      case ticket => contradiction
      case parked workDir now =>
        have ⟨hr, hl⟩ := mem_ranked.mp (List.mem_of_mem_drop hd)
        have ht := (mem_take_iff_within hr hl).mpr (h hm workDir now hr)
        exact List.disjoint_take_drop (nodup_filter_ranked (w := w)) (le_refl keep) ht hd
    case neg =>
      refine .inl fun r ht => ?_
      cases r
      case parked    => rfl
      case ticket id =>
        have ⟨hr, hl⟩ := mem_ranked.mp (List.mem_of_mem_take ht)
        exact absurd ⟨id, ⟨hr, hl⟩, (mem_take_iff_within hr hl).mp ht⟩ hm

theorem prunes_spent_iff : w.PrunesSpent tickets keep ↔ w.Unmixed tickets keep := by
  have hparked (workDir : OsPath) (now : Instant) (h : .parked workDir now ∈ w.refs) :
      (WipRef.parked workDir now).name ∉ w.stale tickets keep ↔ w.Within keep (.parked workDir now) :=
    not_mem_stale_iff h WipRef.looksParked_parked
  constructor
  case mp =>
    intro h
    constructor
    case attributed =>
      intro id hm ho
      have ⟨hid, hl⟩ := masked_iff.mp hm
      exact (not_mem_stale_iff hid hl).mp (h.attributed id hid ho)
    case parked => exact number_iff.mp h.number
    case extended =>
      intro workDir now workDir' now' hp hp' he hw
      exact (hparked _ _ hp').mp (h.latest _ _ _ _ hp hp' he.before ((hparked _ _ hp).mpr hw))
  case mpr =>
    intro h
    constructor
    case attributed =>
      intro id hid ho
      cases hl : (WipRef.ticket id).looksParked
      case false => exact not_mem_stale_of_open hid hl ho
      case true  => exact (not_mem_stale_iff hid hl).mpr (h.attributed id ⟨hid, hl⟩ ho)
    case latest =>
      intro workDir now workDir' now' hp hp' hb hn
      have hw := (hparked _ _ hp).mp hn
      refine (hparked _ _ hp').mpr ?_
      cases WipRef.name_lt workDir workDir' hb
      case inl hlt => exact hw.of_lt hlt
      case inr he  => exact h.extended _ _ _ _ hp hp' he hw
    case number => exact number_iff.mpr h.parked

-- Noon and a fraction of a second.
def noon (fraction : List (Fin 10)) : Instant where
  year      := 2026
  month     := 8
  day       := 20
  hour      := 12
  minute    := 0
  second    := 0
  fraction  := fraction
  year_lt   := by decide
  month_le  := by decide
  day_le    := by decide
  hour_lt   := by decide
  minute_lt := Nat.succ_pos _
  second_lt := Nat.succ_pos _

def noonRef (fraction : List (Fin 10)) : WipRef :=
  .parked [.normal (OsStr.ofString "slot-1")] (noon fraction)

-- Work of one second, of which the first is kept instead of the second.
def noonRefs : WipRefs where
  refs     := [noonRef [5], noonRef [5, 1], noonRef [5, 2], noonRef [5, 3]]
  distinct := by decide +kernel

theorem not_prunes_spent : ¬∀ (w : WipRefs) (tickets : BTreeMap String Bool) (keep : Nat), w.PrunesSpent tickets keep := by
  intro h
  have hm := prunes_spent_iff.mp (h noonRefs ∅ maxKeptUnattributed)
  have hextends : (noon [5]).Extends (noon [5, 1]) := ⟨rfl, by decide, by norm_num [noon, Instant.value]⟩
  have hwithin : noonRefs.Within maxKeptUnattributed (noonRef [5]) := by
    unfold Within
    decide +kernel
  have hbeyond : ¬noonRefs.Within maxKeptUnattributed (noonRef [5, 1]) := by
    unfold Within
    decide +kernel
  exact hbeyond (hm.extended _ _ _ _ (by simp [noonRefs, noonRef]) (by simp [noonRefs, noonRef]) hextends hwithin)

end Prune

end WipRefs
