import CoxAgent.Questions.Batching

-- What the digests release and what stays held back.

section Owner

variable {t u : String} {cs : List Char}

theorem toLower_eq_at {c : Char} : c.toLower = '@' ↔ c = '@' := by
  rw [← Char.toNat_inj, ← Char.toNat_inj, Text.toNat_toLower, show '@'.toNat = 64 from rfl]
  grind

theorem map_toLower_toLower : (cs.map (·.toLower)).map (·.toLower) = cs.map (·.toLower) := by
  rw [List.map_map]
  refine List.map_congr_left fun c _ => ?_
  rw [Function.comp_apply, ← Char.toNat_inj, Text.toNat_toLower, Text.toNat_toLower]
  grind

theorem startsWith_at_iff : Text.startsWith t "@" ↔ ∃ cs, t.toList = '@' :: cs := by
  rw [Text.startsWith, List.isPrefixOf_iff_prefix]
  exact exists_congr fun cs => eq_comm

theorem toList_ownerOf (ht : Text.trimChars t.toList = '@' :: cs) :
    (ownerOf t).toList = cs.map (·.toLower) := by
  have hs : Text.stripPrefix (Text.trim t) "@" = some (.ofList cs) := by
    have hd : ('@' :: cs).drop "@".length = cs := rfl
    rw [Text.stripPrefix, if_pos (startsWith_at_iff.mpr ⟨cs, by simp [Text.trim, ht]⟩), Text.trim,
      String.toList_ofList, ht, hd]
  simp [ownerOf, hs, toAsciiLowercase]

theorem eqIgnoreAsciiCase_tag_iff (ht : Text.trimChars t.toList = '@' :: cs) :
    eqIgnoreAsciiCase u ("@" ++ ownerOf t) ↔ u.toList.map (·.toLower) = '@' :: cs.map (·.toLower) := by
  have htag : ("@" ++ ownerOf t).toList.map (·.toLower) = '@' :: cs.map (·.toLower) := by
    rw [String.toList_append, toList_ownerOf ht, List.map_append, map_toLower_toLower]
    rfl
  rw [eqIgnoreAsciiCase, decide_eq_true_eq, toAsciiLowercase, toAsciiLowercase, String.ofList_inj, htag]

-- The release by the address finds what is written without white space around it.
theorem eqIgnoreAsciiCase_owner_iff (ht : Text.startsWith (Text.trim t) "@") :
    eqIgnoreAsciiCase u ("@" ++ ownerOf t) ↔
      Text.trim u = u ∧ Text.startsWith u "@" ∧ ownerOf u = ownerOf t := by
  obtain ⟨cs, hcs⟩ := startsWith_at_iff.mp ht
  rw [Text.trim, String.toList_ofList] at hcs
  rw [eqIgnoreAsciiCase_tag_iff hcs]
  constructor
  case mp =>
    intro h
    have hmap : (Text.trimChars u.toList).map (·.toLower) = u.toList.map (·.toLower) := by
      rw [← Text.trimChars_map Text.isWhitespace_toLower, h, ← toLower_eq_at.mpr rfl, ← List.map_cons, ← hcs,
        Text.trimChars_map Text.isWhitespace_toLower, Text.trimChars_trimChars]
    have htrim : Text.trimChars u.toList = u.toList :=
      Text.trimChars_eq_of_length (by simpa using congrArg List.length hmap)
    obtain ⟨c, cs', hu, hc, hcs'⟩ := List.map_eq_cons_iff.mp h
    cases toLower_eq_at.mp hc
    refine ⟨?_, startsWith_at_iff.mpr ⟨cs', hu⟩, ?_⟩
    · rw [Text.trim, htrim, String.ofList_toList]
    · rw [← String.toList_inj, toList_ownerOf hcs, toList_ownerOf (htrim.trans hu), hcs']
  case mpr =>
    rintro ⟨htrim, hat, ho⟩
    obtain ⟨cs', hu⟩ := startsWith_at_iff.mp hat
    have htrim : Text.trimChars u.toList = '@' :: cs' := by
      rw [← hu, ← htrim, Text.trim, String.toList_ofList, Text.trimChars_trimChars]
    rw [← String.toList_inj, toList_ownerOf hcs, toList_ownerOf htrim] at ho
    rw [hu, List.map_cons, ho, toLower_eq_at.mpr rfl]

theorem startsWith_trim (h : Text.startsWith t "@") : Text.startsWith (Text.trim t) "@" := by
  have ⟨cs, ht⟩ := startsWith_at_iff.mp h
  have hd : t.toList.dropWhile Text.isWhitespace = '@' :: cs := by
    rw [ht]
    rfl
  have hp : Text.trimChars t.toList <+: '@' :: cs := hd ▸ List.rdropWhile_prefix _ _
  rw [startsWith_at_iff, Text.trim, String.toList_ofList]
  cases he : Text.trimChars t.toList with
  | cons c cs' =>
    rw [he, List.cons_prefix_cons] at hp
    exact ⟨cs', by rw [hp.1]⟩
  | nil        =>
    rw [Text.trimChars, hd, List.rdropWhile_eq_nil_iff] at he
    exact absurd (he '@' List.mem_cons_self) (by decide)

end Owner

section Released

variable {qs qs' batch : List AgentQuestion} {owner : String} {i : Nat}

-- What a release is decided by, and leaves as it is.
def AgentQuestion.label (q : AgentQuestion) : String × String :=
  (q.id, q.to)

-- The places of the questions that a digest releases.
def FreedBy (labels : List (String × String)) (owner : String) (batch : List AgentQuestion) (i : Nat) : Prop :=
  (∃ x ∈ batch, labels.findIdx? (·.1 = x.id) = some i) ∨
    ∃ l, labels[i]? = some l ∧ eqIgnoreAsciiCase l.2 ("@" ++ owner)

theorem released_released (q : AgentQuestion) : q.released.released = q.released :=
  rfl

theorem label_released (q : AgentQuestion) : q.released.label = q.label :=
  rfl

theorem changedAt_releaseById (qs batch : List AgentQuestion) : Lists.ChangedAt (·.released)
    (fun i => ∃ x ∈ batch, (qs.map (·.label)).findIdx? (·.1 = x.id) = some i) qs
    (batch.foldl (fun qs q => (Lists.updateFirst (·.id = q.id) (·.released) qs).getD qs) qs) := by
  refine Lists.ChangedAt.foldl released_released label_released fun qs' hqs x _ => ?_
  refine Lists.ChangedAt.updateFirst.congr fun i => ?_
  rw [← hqs, List.findIdx?_map]
  rfl

theorem changedAt_releaseByAddress (qs : List AgentQuestion) (owner : String) : Lists.ChangedAt (·.released)
    (fun i => ∃ l, (qs.map (·.label))[i]? = some l ∧ eqIgnoreAsciiCase l.2 ("@" ++ owner)) qs
    (qs.map fun q => if q.deferred && eqIgnoreAsciiCase q.to ("@" ++ owner) then q.released else q) := by
  have hm (q : AgentQuestion) : (if q.deferred && eqIgnoreAsciiCase q.to ("@" ++ owner) then q.released else q) =
      if eqIgnoreAsciiCase q.to ("@" ++ owner) then q.released else q := by
    cases hd : q.deferred
    case true  => rw [Bool.true_and]
    case false =>
      have hq : q.released = q := by rw [AgentQuestion.released, ← hd]
      rw [hq, ite_self, ite_self]
  simp only [hm]
  refine Lists.ChangedAt.map_if.congr fun i => ?_
  rw [List.getElem?_map]
  simp only [Option.map_eq_some_iff, AgentQuestion.label]
  grind

theorem changedAt_releaseBatch : Lists.ChangedAt (·.released) (FreedBy (qs.map (·.label)) owner batch) qs
    (releaseBatch owner batch qs) := by
  have hid := changedAt_releaseById qs batch
  have hlabels := hid.map_eq label_released
  have hto := changedAt_releaseByAddress
    (batch.foldl (fun qs q => (Lists.updateFirst (·.id = q.id) (·.released) qs).getD qs) qs) owner
  rw [hlabels] at hto
  exact hid.trans released_released hto

end Released

section Due

variable {human : FocusWindows} {minute : Nat} {t u window : String}

def ToPerson («to» : String) : Prop :=
  Text.startsWith (Text.trim «to») "@" ∧ ownerOf «to» ≠ ""

-- No window is active for which the person has asked for digests.
def Due (human : FocusWindows) (minute : Nat) («to» : String) : Prop :=
  ∀ fw, focusOf human «to» = some fw → fw.deferToDigest → ¬inQuietWindow fw.windowUtc minute

theorem not_inQuietWindow_of_blank (h : Text.Blank window) : ¬inQuietWindow window minute := by
  have hc : Text.trimChars window.toList = [] := by simpa [Text.Blank, Text.trim] using h
  have hw : windowBounds window = none := by
    rw [windowBounds, hc]
    rfl
  simp [inQuietWindow, hw]

theorem due_iff_not_inFocus : Due human minute t ↔ ¬inFocus human t minute := by
  rw [inFocus, batchingOn, Due]
  cases focusOf human t with
  | none    => simp
  | some fw =>
    have hb : inQuietWindow fw.windowUtc minute → Text.trim fw.windowUtc ≠ "" :=
      fun h hb => not_inQuietWindow_of_blank hb h
    rw [Option.filter_some]
    grind

theorem due_congr (h : ownerOf t = ownerOf u) : Due human minute t ↔ Due human minute u := by
  simp only [Due, focusOf, h]

-- A question that has just been asked is held back from everybody who takes none.
theorem exists_shouldDefer_iff :
    (∃ age sla, shouldDefer human t minute age sla) ↔ ToPerson t ∧ ¬Due human minute t := by
  rw [due_iff_not_inFocus, not_not, inFocus]
  constructor
  case mp =>
    intro ⟨age, sla, h⟩
    rw [shouldDefer] at h
    cases hb : batchingOn human t with
    | none    => simp [hb] at h
    | some fw =>
      have ho : ownerOf t ≠ "" := by
        intro ho
        simp [batchingOn, focusOf, ho] at hb
      grind [ToPerson]
  case mpr =>
    intro ⟨⟨ha, _⟩, hf⟩
    refine ⟨0, 0, ?_⟩
    rw [shouldDefer, ha]
    cases hb : batchingOn human t with
    | none    => simp [hb] at hf
    | some fw => simpa [hb] using hf

end Due

namespace ProjectState

variable {human : FocusWindows} {minute i : Nat} {s : ProjectState} {q x : AgentQuestion} {owner : String}
  {batch : List AgentQuestion} {now mint : Nat → String}

-- A digest carries the question.
@[mk_iff]
structure Surfaces (human : FocusWindows) (minute : Nat) (s : ProjectState) (x : AgentQuestion) : Prop where
  held     : x.isHeld
  due      : Due human minute x.to
  relevant : s.stillRelevant x

theorem startsWith_of_isHeld (h : q.isHeld) : Text.startsWith q.to "@" := by
  grind [AgentQuestion.isHeld]

theorem mem_selectDeferred : (owner, batch) ∈ s.selectDeferred ↔
    (∃ x ∈ s.questions, x.isHeld ∧ ownerOf x.to = owner) ∧
      batch = (s.questions.filter (·.isHeld)).filter (ownerOf ·.to = owner) := by
  rw [selectDeferred, Grouping.mem_grouped, List.mem_map]
  simp only [List.mem_filter, and_assoc]

theorem mem_flushBatches : (owner, batch) ∈ s.flushBatches human minute ↔ batch ≠ [] ∧ ∃ held,
    (owner, held) ∈ s.selectDeferred ∧
      batch = (held.filter (!inFocus human ·.to minute)).filter s.stillRelevant := by
  simp only [flushBatches, List.mem_filter, List.mem_map, Prod.mk.injEq, Prod.exists]
  grind

theorem mem_batch (h : (owner, batch) ∈ s.flushBatches human minute) :
    x ∈ batch ↔ x ∈ s.questions ∧ Surfaces human minute s x ∧ ownerOf x.to = owner := by
  have ⟨_, held, hheld, hb⟩ := mem_flushBatches.mp h
  have ⟨_, hh⟩ := mem_selectDeferred.mp hheld
  rw [hb, hh, surfaces_iff, due_iff_not_inFocus]
  simp only [List.mem_filter]
  grind

theorem exists_batch (hx : x ∈ s.questions) (h : Surfaces human minute s x) :
    ∃ batch, (ownerOf x.to, batch) ∈ s.flushBatches human minute := by
  refine ⟨_, mem_flushBatches.mpr ⟨?_, _, mem_selectDeferred.mpr ⟨⟨x, hx, h.held, rfl⟩, rfl⟩, rfl⟩⟩
  have hd : !inFocus human x.to minute := by simpa using due_iff_not_inFocus.mp h.due
  apply List.ne_nil_of_mem (a := x)
  simp [hx, h.held, h.relevant, hd]

theorem nodup_owners : ((s.flushBatches human minute).map (·.1)).Nodup := by
  have hk : (s.selectDeferred.map (·.1)).Nodup := by
    rw [selectDeferred, Grouping.keys_grouped]
    exact Lists.nodup_retainNew
  rw [flushBatches]
  refine (List.Nodup.sublist (List.filter_sublist.map _)) ?_
  rw [List.map_map]
  exact hk

theorem countP_batches (hx : x ∈ s.questions) (h : Surfaces human minute s x) :
    (s.flushBatches human minute).countP (x ∈ ·.2) = 1 := by
  have ⟨batch, hb⟩ := exists_batch hx h
  have hmem : ∀ b ∈ s.flushBatches human minute, x ∈ b.2 ↔ b.1 = ownerOf x.to := by
    intro b hb
    rw [mem_batch hb]
    exact ⟨fun h => h.2.2.symm, fun ho => ⟨hx, h, ho.symm⟩⟩
  calc (s.flushBatches human minute).countP (x ∈ ·.2)
    _ = (s.flushBatches human minute).countP (·.1 = ownerOf x.to) :=
        List.countP_congr fun b hb => by simpa using hmem b hb
    _ = 1 := Lists.countP_key_eq_one nodup_owners hb

-- The question is the first with the id of one that a digest carries.
def FoundById (human : FocusWindows) (minute : Nat) (s : ProjectState) (i : Nat) : Prop :=
  ∃ x ∈ s.questions, Surfaces human minute s x ∧ s.questions.findIdx? (·.id = x.id) = some i

-- The address is written plainly, and a digest goes to the person.
def FoundByAddress (human : FocusWindows) (minute : Nat) (s : ProjectState) (q : AgentQuestion) : Prop :=
  Text.trim q.to = q.to ∧ ∃ x ∈ s.questions, Surfaces human minute s x ∧ ownerOf x.to = ownerOf q.to

-- What the flush releases at all.
def Freed (human : FocusWindows) (minute : Nat) (s : ProjectState) (i : Nat) : Prop :=
  FoundById human minute s i ∨
    ∃ q, s.questions[i]? = some q ∧ Text.startsWith q.to "@" ∧ FoundByAddress human minute s q

theorem exists_freedBy_iff : (∃ b ∈ s.flushBatches human minute, FreedBy (s.questions.map (·.label)) b.1 b.2 i) ↔
    Freed human minute s i := by
  have hid (x : AgentQuestion) : (s.questions.map (·.label)).findIdx? (·.1 = x.id) =
      s.questions.findIdx? (·.id = x.id) := List.findIdx?_map
  have hto {x : AgentQuestion} (q : AgentQuestion) (h : Surfaces human minute s x) :
      eqIgnoreAsciiCase q.to ("@" ++ ownerOf x.to) ↔
        Text.trim q.to = q.to ∧ Text.startsWith q.to "@" ∧ ownerOf q.to = ownerOf x.to :=
    eqIgnoreAsciiCase_owner_iff (startsWith_trim (startsWith_of_isHeld h.held))
  constructor
  case mp =>
    rintro ⟨⟨owner, batch⟩, hb, h⟩
    cases h with
    | inl h =>
      have ⟨x, hx, hf⟩ := h
      have ⟨hxs, hs, _⟩ := (mem_batch hb).mp hx
      exact .inl ⟨x, hxs, hs, hid x ▸ hf⟩
    | inr h =>
      have ⟨l, hl, he⟩ := h
      have ⟨x, hx⟩ := List.exists_mem_of_ne_nil _ (mem_flushBatches.mp hb).1
      have ⟨hxs, hs, ho⟩ := (mem_batch hb).mp hx
      rw [List.getElem?_map, Option.map_eq_some_iff] at hl
      obtain ⟨q, hq, rfl⟩ := hl
      have ⟨ht, ha, hoq⟩ := (hto q hs).mp (ho ▸ he)
      exact .inr ⟨q, hq, ha, ht, x, hxs, hs, hoq.symm⟩
  case mpr =>
    intro h
    cases h with
    | inl h =>
      have ⟨x, hx, hs, hf⟩ := h
      have ⟨batch, hb⟩ := exists_batch hx hs
      exact ⟨(ownerOf x.to, batch), hb, .inl ⟨x, (mem_batch hb).mpr ⟨hx, hs, rfl⟩, (hid x).trans hf⟩⟩
    | inr h =>
      have ⟨q, hq, ha, ht, x, hx, hs, ho⟩ := h
      have ⟨batch, hb⟩ := exists_batch hx hs
      have hl : (s.questions.map (·.label))[i]? = some q.label := by rw [List.getElem?_map, hq, Option.map_some]
      exact ⟨(ownerOf x.to, batch), hb, .inr ⟨q.label, hl, (hto q hs).mpr ⟨ht, ha, ho.symm⟩⟩⟩

theorem questions_foldl_deliverDigest {batches : List ((String × List AgentQuestion) × Nat)} :
    (batches.foldl (fun s ((owner, batch), n) =>
      s.deliverDigest (now (2 * n)) (now (2 * n + 1)) (mint n) owner batch) s).questions =
      batches.foldl (fun qs b => releaseBatch b.1.1 b.1.2 qs) s.questions := by
  induction batches generalizing s
  case nil               => rfl
  case cons b batches hi => rw [List.foldl_cons, hi, questions_deliverDigest, List.foldl_cons]

theorem changedAt_flush : Lists.ChangedAt (·.released) (Freed human minute s) s.questions
    (s.flushFocusDigests now mint human minute).questions := by
  rw [flushFocusDigests, questions_foldl_deliverDigest]
  have hstep (qs : List AgentQuestion) (hqs : qs.map (·.label) = s.questions.map (·.label)) :
      ∀ b ∈ (s.flushBatches human minute).zipIdx, Lists.ChangedAt (·.released)
        (FreedBy (s.questions.map (·.label)) b.1.1 b.1.2) qs (releaseBatch b.1.1 b.1.2 qs) := by
    intro b _
    rw [← hqs]
    exact changedAt_releaseBatch
  have h := Lists.ChangedAt.foldl released_released label_released hstep
  refine h.congr fun i => ?_
  rw [← exists_freedBy_iff]
  exact Lists.exists_mem_zipIdx.symm

-- Nothing is held back for a person who takes questions, nothing is released to one who takes none, and a
-- digest carries what is held back and matters.
structure NothingHidden (human : FocusWindows) (minute : Nat) (s s' : ProjectState) : Prop where
  released : ∀ q ∈ s'.questions, ToPerson q.to → Due human minute q.to → ¬q.deferred
  kept     : ∀ (i : Nat) (q : AgentQuestion), s.questions[i]? = some q → ToPerson q.to → ¬Due human minute q.to →
               s'.questions[i]?.map AgentQuestion.deferred = some q.deferred
  carried  : ∀ q ∈ s.questions, q.deferred → q.isOpen → ToPerson q.to → Due human minute q.to →
               s.stillRelevant q → (s.flushBatches human minute).countP (q ∈ ·.2) = 1
  seen     : ∀ q ∈ s.questions, q.deferred → q.isOpen →
               (∃ age sla, shouldDefer human q.to minute age sla) → ∃ b ∈ s.selectDeferred, q ∈ b.2

-- A question that is held back is found when the person takes questions, and not before. If it is one for
-- a digest then its address starts with the sign.
structure HeldSoundly (human : FocusWindows) (minute : Nat) (s : ProjectState) (i : Nat) (q : AgentQuestion) :
    Prop where
  found  : Due human minute q.to → FoundById human minute s i ∨ FoundByAddress human minute s q
  missed : ¬Due human minute q.to → ¬FoundById human minute s i
  tagged : q.isOpen → (Due human minute q.to → s.stillRelevant q) → Text.startsWith q.to "@"

theorem isHeld_iff : q.isHeld ↔ q.isOpen ∧ q.deferred ∧ Text.startsWith q.to "@" ∧ ownerOf q.to ≠ "" := by
  simp [AgentQuestion.isHeld, and_assoc]

theorem exists_selected_iff (hq : q ∈ s.questions) : (∃ b ∈ s.selectDeferred, q ∈ b.2) ↔ q.isHeld := by
  constructor
  case mp =>
    intro ⟨b, hb, hqb⟩
    rw [(mem_selectDeferred.mp hb).2, List.mem_filter, List.mem_filter] at hqb
    exact hqb.1.2
  case mpr =>
    intro h
    exact ⟨_, mem_selectDeferred.mpr ⟨⟨q, hq, h, rfl⟩, rfl⟩, by simp [hq, h]⟩

-- The same person takes questions under each address.
theorem not_foundByAddress (h : ¬Due human minute q.to) : ¬FoundByAddress human minute s q :=
  fun ⟨_, _, _, hs, ho⟩ => h ((due_congr ho).mp hs.due)

theorem heldSoundly_of_nothingHidden {s' : ProjectState}
    (hc : Lists.ChangedAt (·.released) (Freed human minute s) s.questions s'.questions)
    (h : NothingHidden human minute s s') (hq : s.questions[i]? = some q) (hd : q.deferred) (ha : ToPerson q.to) :
    HeldSoundly human minute s i q := by
  have hmem : q ∈ s.questions := List.mem_of_getElem? hq
  constructor
  case found =>
    intro hdue
    by_contra hn
    have hkept := hc.kept i fun hf => hn (hf.imp_right fun ⟨q', hq', _, hf⟩ => by
      cases hq.symm.trans hq'
      exact hf)
    exact h.released q (List.mem_of_getElem? (hkept.trans hq)) ha hdue hd
  case missed =>
    intro hdue hf
    have hk := h.kept i q hq ha hdue
    rw [hc.changed i (.inl hf), hq, hd] at hk
    exact Bool.false_ne_true (Option.some_inj.mp hk)
  case tagged =>
    intro ho hr
    by_cases hdue : Due human minute q.to
    case pos =>
      have hone := h.carried q hmem hd ho ha hdue (hr hdue)
      have ⟨b, hb, hqb⟩ := List.countP_pos_iff.mp (Nat.lt_of_lt_of_eq Nat.zero_lt_one hone.symm)
      exact startsWith_of_isHeld ((mem_batch hb).mp (of_decide_eq_true hqb)).2.1.held
    case neg =>
      have hseen := h.seen q hmem hd ho (exists_shouldDefer_iff.mpr ⟨ha, hdue⟩)
      exact startsWith_of_isHeld ((exists_selected_iff hmem).mp hseen)

theorem nothingHidden_of_heldSoundly {s' : ProjectState}
    (hc : Lists.ChangedAt (·.released) (Freed human minute s) s.questions s'.questions)
    (h : ∀ i (q : AgentQuestion), s.questions[i]? = some q → q.deferred → ToPerson q.to → HeldSoundly human minute s i q) :
    NothingHidden human minute s s' := by
  constructor
  case released =>
    intro q hq ha hdue hd
    have ⟨i, hi⟩ := List.getElem?_of_mem hq
    by_cases hf : Freed human minute s i
    case pos =>
      rw [hc.changed i hf, Option.map_eq_some_iff] at hi
      obtain ⟨q', _, rfl⟩ := hi
      contradiction
    case neg =>
      rw [hc.kept i hf] at hi
      have hs := (h i q hi hd ha).found hdue
      refine hf (hs.imp_right fun hf => ⟨q, hi, ?_, hf⟩)
      exact hf.1 ▸ ha.1
  case kept =>
    intro i q hi ha hdue
    by_cases hf : Freed human minute s i
    case neg => rw [hc.kept i hf, hi, Option.map_some]
    case pos =>
      have hd : ¬q.deferred := by
        intro hd
        cases hf with
        | inl hf => exact (h i q hi hd ha).missed hdue hf
        | inr hf =>
          have ⟨q', hi', _, hf⟩ := hf
          cases hi.symm.trans hi'
          exact not_foundByAddress hdue hf
      rw [hc.changed i hf, hi, Bool.eq_false_of_not_eq_true hd]
      rfl
  case carried =>
    intro q hq hd ho ha hdue hr
    have ⟨i, hi⟩ := List.getElem?_of_mem hq
    have ht := (h i q hi hd ha).tagged ho fun _ => hr
    exact countP_batches hq ⟨isHeld_iff.mpr ⟨ho, hd, ht, ha.2⟩, hdue, hr⟩
  case seen =>
    intro q hq hd ho hs
    have ⟨ha, hdue⟩ := exists_shouldDefer_iff.mp hs
    have ⟨i, hi⟩ := List.getElem?_of_mem hq
    have ht := (h i q hi hd ha).tagged ho fun hn => absurd hn hdue
    exact (exists_selected_iff hq).mpr (isHeld_iff.mpr ⟨ho, hd, ht, ha.2⟩)

theorem nothing_hidden_iff (human : FocusWindows) (minute : Nat) (s : ProjectState) (now mint : Nat → String) :
    NothingHidden human minute s (s.flushFocusDigests now mint human minute) ↔
      ∀ i (q : AgentQuestion), s.questions[i]? = some q → q.deferred → ToPerson q.to →
        HeldSoundly human minute s i q :=
  ⟨fun h _ _ => heldSoundly_of_nothingHidden changedAt_flush h, nothingHidden_of_heldSoundly changedAt_flush⟩

section Stale

-- The ticket is done before the window of the person ends.
def doneTicket : Ticket :=
  { id := ⟨"F001"⟩, kind := .feature, title := "Export", status := .done }

def staleQuestion : AgentQuestion :=
  { id := "F001#1", ticket := "F001", «from» := "DevFeature", «to» := "@luffy", body := "Which format?",
    askedAt := "2026-03-01T09:30:00Z", deferred := true }

def staleBoard : ProjectState :=
  { tickets := [doneTicket], questions := [staleQuestion] }

def morningFocus : FocusWindows :=
  .single "luffy" { windowUtc := "09:00-12:00", deferToDigest := true }

theorem not_nothing_hidden : ¬NothingHidden morningFocus 780 staleBoard
    (staleBoard.flushFocusDigests (fun _ => "") (fun _ => "") morningFocus 780) := by
  intro h
  have hq : staleQuestion ∈
      (staleBoard.flushFocusDigests (fun _ => "") (fun _ => "") morningFocus 780).questions := by
    decide +kernel
  have hdue : Due morningFocus 780 staleQuestion.to := due_iff_not_inFocus.mpr (by decide +kernel)
  exact h.released staleQuestion hq ⟨by decide +kernel, by decide +kernel⟩ hdue rfl

end Stale

end ProjectState
