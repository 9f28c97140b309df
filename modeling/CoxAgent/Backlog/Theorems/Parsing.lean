import CoxAgent.Backlog.Parsing
import CoxAgent.Lib.JsonText
import CoxAgent.Lib.Lists

namespace Parsing

open Json (Reader)

variable {fits : List Char → Bool} {raw : String} {r o pre mid suf cs ds : List Char}
variable {items : List ProposedItem} {item : ProposedItem} {a b c : Char}

section Fences

-- A text in a code block: its first and its last line are fences.
def Fenced (raw : String) : Prop :=
  2 ≤ (Text.lines raw).length ∧
  fence <+: ((Text.lines raw).headD "").toList.dropWhile Text.isWhitespace ∧
  fence <:+ (Text.trim ((Text.lines raw).getLastD "")).toList

theorem stripCodeFences_of_fenced (h : Fenced raw) :
    stripCodeFences raw = "\n".intercalate (Text.lines raw).tail.dropLast := by
  obtain ⟨hl, hp, hs⟩ := h
  simp only [stripCodeFences]
  rw [if_neg (by omega), if_pos]
  rw [Bool.and_eq_true, List.isPrefixOf_iff_prefix, List.isSuffixOf_iff_suffix]
  exact ⟨hp, hs⟩

theorem stripCodeFences_of_not_fenced (h : ¬Fenced raw) : stripCodeFences raw = raw := by
  simp only [stripCodeFences]
  split
  case isTrue     => rfl
  case isFalse hl =>
    rw [if_neg]
    rw [Bool.and_eq_true, List.isPrefixOf_iff_prefix, List.isSuffixOf_iff_suffix]
    exact fun hb => h ⟨by omega, hb⟩

theorem intercalate_feed (ls : List (List Char)) :
    "\n".intercalate (ls.map .ofList) = .ofList (['\n'].intercalate ls) := by
  apply String.toList_injective
  simp [String.toList_intercalate, List.map_map]

-- The lines between the first and the last.
theorem stripCodeFences_lines (hp : '\n' ∉ pre) (hs : '\n' ∉ suf.dropLast) (hn : suf ≠ [])
    (hf : Fenced (.ofList (pre ++ '\n' :: (mid ++ '\n' :: suf)))) :
    (stripCodeFences (.ofList (pre ++ '\n' :: (mid ++ '\n' :: suf)))).toList ++ ['\n'] =
      Text.unix (mid ++ ['\n']) := by
  obtain ⟨z, hz⟩ := @Text.lines_append_last suf mid hs hn
  rw [stripCodeFences_of_fenced hf, Text.lines_cons hp, hz, List.tail_cons, List.dropLast_concat,
    intercalate_feed, String.toList_ofList]
  exact Text.unix_lines mid

theorem exists_last_feed (h : '\n' ∈ suf.dropLast) :
    ∃ body last, suf = body ++ '\n' :: last ∧ '\n' ∉ last.dropLast ∧ last ≠ [] := by
  obtain rfl | ⟨l, c, rfl⟩ := suf.eq_nil_or_concat
  case inl => simp at h
  case inr =>
    rw [List.concat_eq_append, List.dropLast_concat, ← List.mem_reverse] at h
    obtain ⟨last, body, he, hn⟩ := List.eq_append_cons_of_mem h
    refine ⟨body.reverse, last.reverse ++ [c], ?_, ?_, by simp⟩
    · rw [← List.reverse_reverse l, he]
      simp
    · rw [List.dropLast_concat, List.mem_reverse]
      exact hn

-- What is in a text and not in its first or last line is kept, but for carriage returns before line feeds.
theorem stripCodeFences_around (hh : mid.head? = some a) (ha : a ≠ '\n') (hl : mid.getLast? = some b) (hb : b ≠ '\r')
    (hf : Fenced (.ofList (pre ++ mid ++ suf)) → '\n' ∈ pre ∧ '\n' ∈ suf.dropLast) :
    ∃ pre' suf', pre' ⊆ pre ∧ suf' ⊆ suf ∧
      ∃ mid' ∈ [mid, Text.unix mid], stripCodeFences (.ofList (pre ++ mid ++ suf)) = .ofList (pre' ++ mid' ++ suf') := by
  by_cases hF : Fenced (.ofList (pre ++ mid ++ suf))
  case neg =>
    exact ⟨pre, suf, List.Subset.refl _, List.Subset.refl _, mid, by simp, stripCodeFences_of_not_fenced hF⟩
  case pos =>
    obtain ⟨hp, hs⟩ := hf hF
    obtain ⟨first, pre', hpre, hfirst⟩ := List.eq_append_cons_of_mem hp
    obtain ⟨suf', last, hsuf, hlast, hn⟩ := exists_last_feed hs
    have he : pre ++ mid ++ suf = first ++ '\n' :: (pre' ++ mid ++ suf' ++ '\n' :: last) := by simp [hpre, hsuf]
    rw [he] at hF ⊢
    have hk := stripCodeFences_lines hfirst hlast hn hF
    have hu : Text.unix (pre' ++ mid ++ suf' ++ ['\n']) =
        Text.unix pre' ++ Text.unix mid ++ Text.unix (suf' ++ ['\n']) := by
      rw [List.append_assoc, List.append_assoc, Text.unix_append (.inr ?_), Text.unix_append (.inl ?_),
        List.append_assoc]
      · simpa [hl] using hb
      · simpa [hh] using ha
    have hg : (Text.unix (suf' ++ ['\n'])).getLast? = some '\n' := by
      rw [Text.getLast?_unix, List.getLast?_concat]
    obtain ⟨q, hq⟩ := List.getLast?_eq_some_iff.mp hg
    rw [hu, hq, ← List.append_assoc] at hk
    refine ⟨Text.unix pre', q, ?_, ?_, Text.unix mid, by simp, String.toList_injective ?_⟩
    · intro c hc
      simp [hpre, Text.unix_subset pre' hc]
    · intro c hc
      have hm : c ∈ Text.unix (suf' ++ ['\n']) := hq ▸ List.mem_append_left _ hc
      have hm := Text.unix_subset _ hm
      rw [hsuf]
      simp only [List.mem_append, List.mem_cons, List.not_mem_nil, or_false] at hm ⊢
      exact hm.imp_right .inl
    · rw [List.append_inj_left' hk rfl, String.toList_ofList]

end Fences
section Strict

-- The text is an array without anything around it, and its values are the items.
structure Renders (fits : List Char → Bool) (r : List Char) (items : List ProposedItem) : Prop where
  first : r.head? = some '['
  last  : r.getLast? = some ']'
  array : isArrayText fits r
  read  : readItems r = some items

theorem isArrayText_iff : isArrayText fits cs ↔ ∃ v, Json.read (valueLimits fits) cs = some v ∧ isArray v :=
  Option.any_eq_true ..

theorem Renders.unix (h : Renders fits r items) : Renders fits (Text.unix r) items where
  first := Text.head?_unix h.first (by decide)
  last  := (Text.getLast?_unix r).trans h.last
  array := by
    obtain ⟨v, hv, ha⟩ := isArrayText_iff.mp h.array
    exact isArrayText_iff.mpr ⟨v, Json.read_unix hv, ha⟩
  read  := by
    obtain ⟨v, hv, hi⟩ := Option.bind_eq_some_iff.mp h.read
    rw [readItems, Json.read_unix hv]
    exact hi

-- An array does not go on after its last bracket.
theorem not_isArrayText_of_append (h : isArrayText fits (cs ++ ds)) (hd : ds.getLast? = some ']') :
    ¬isArrayText fits cs := by
  intro hc
  obtain ⟨v, hv, ha⟩ := isArrayText_iff.mp hc
  obtain ⟨w, hw, -⟩ := isArrayText_iff.mp h
  have hn : ∀ text, v ≠ .num text := by
    rintro text rfl
    contradiction
  exact absurd (Json.blank_of_read_append hv hn hw _ (List.mem_of_getLast? hd)) (by decide)

theorem firstValidSlice_eq (h : Renders fits r items) (hp : '[' ∉ pre) :
    firstValidSlice fits (.ofList (pre ++ r ++ suf)) = some r := by
  have hd : (pre ++ r ++ suf).dropWhile (· ≠ '[') = r ++ suf := by
    obtain ⟨l, hl⟩ := List.head?_eq_some_iff.mp h.first
    rw [List.append_assoc, List.dropWhile_append_of_pos ?_, hl]
    · rfl
    · intro c hc
      simpa using fun he : c = '[' => hp (he ▸ hc)
  obtain ⟨l, hl⟩ := List.getLast?_eq_some_iff.mp h.last
  have hi : r.inits = l.inits ++ [r] := by
    rw [hl, List.inits_append]
    rfl
  rw [firstValidSlice, String.toList_ofList, hd, List.inits_append, hi, List.append_assoc, List.filter_append,
    List.singleton_append, List.filter_cons_of_pos (by simp [h.last]), List.find?_eq_some_iff_append]
  refine ⟨h.array, _, _, rfl, fun x hx => ?_⟩
  obtain ⟨hx, hb⟩ := List.mem_filter.mp hx
  -- A prefix that is an array would be all of the text, which has a bracket more.
  obtain ⟨m, rfl⟩ := (List.mem_inits x l).mp hx
  have ha := h.array
  rw [hl, List.append_assoc] at ha
  simpa using not_isArrayText_of_append ha (List.getLast?_concat ..)

theorem trimTrailingProse_eq (h : r.getLast? = some ']') :
    ∃ suf', trimTrailingProse (.ofList (pre ++ r ++ suf)) = .ofList (pre ++ r ++ suf') := by
  obtain ⟨l, rfl⟩ := List.getLast?_eq_some_iff.mp h
  refine ⟨suf.rdropWhile (!isClosing ·), ?_⟩
  rw [trimTrailingProse, if_pos (by simp [isClosing]), String.toList_ofList, ← List.append_assoc,
    @Lists.rdropWhile_append _ (!isClosing ·) ']' (by decide)]

theorem parseItems_eq (h : Renders fits r items) (hp : '[' ∉ pre)
    (hf : Fenced (.ofList (pre ++ r ++ suf)) → '\n' ∈ pre ∧ '\n' ∈ suf.dropLast) :
    parseItems fits (.ofList (pre ++ r ++ suf)) = .ok items := by
  obtain ⟨pre', suf', hs, -, r', hr, he⟩ := stripCodeFences_around h.first (by decide) h.last (by decide) hf
  have hp : '[' ∉ pre' := fun hm => hp (hs hm)
  have h : Renders fits r' items := by
    simp only [List.mem_cons, List.not_mem_nil, or_false] at hr
    obtain rfl | rfl := hr
    · exact h
    · exact h.unix
  obtain ⟨suf'', ht⟩ := @trimTrailingProse_eq r' pre' suf' h.last
  have hb : ¬(!(String.ofList (pre' ++ r' ++ suf'')).toList.contains '[' ||
      !(String.ofList (pre' ++ r' ++ suf'')).toList.contains ']') := by
    simp [List.mem_of_head? h.first, List.mem_of_getLast? h.last]
  unfold parseItems
  rw [he]
  dsimp only
  rw [ht, List.findSome?_cons, if_neg hb, firstValidSlice_eq h hp]
  dsimp only
  rw [h.read]

end Strict
section Lenient

-- The text is an object without anything around it, and its value is the item.
structure RendersItem (o : List Char) (item : ProposedItem) : Prop where
  first : o.head? = some '{'
  last  : o.getLast? = some '}'
  read  : readItem o = some item

theorem RendersItem.unix (h : RendersItem o item) : RendersItem (Text.unix o) item where
  first := Text.head?_unix h.first (by decide)
  last  := (Text.getLast?_unix o).trans h.last
  read  := by
    obtain ⟨v, hv, hi⟩ := Option.bind_eq_some_iff.mp h.read
    rw [readItem, Json.read_unix hv]
    exact hi

-- What the scan knows of an object that is read.
def scanOf (r : Reader) (text : List Char) (out : List (List Char)) : Scan where
  depth    := r.nesting.count true
  inString := r.inText.isSome
  escaped  := r.inText = some .escaped
  start    := some text
  out      := out

variable {lim : Json.Limits} {p p' : Reader} {text : List Char} {out : List (List Char)} {m m' : Json.StrMode}

theorem scanStep_text (h : p.inText = some m) (hc : ¬(m = .plain ∧ c = '\x22')) (hm : m.next c = some m')
    (ht : p'.inText = some m') (hn : p'.nesting = p.nesting) :
    scanStep (scanOf p text out) c = scanOf p' (text ++ [c]) out := by
  cases m
  case plain =>
    have hq : c ≠ '\x22' := fun hq => hc ⟨rfl, hq⟩
    simp only [Json.StrMode.next] at hm
    by_cases hb : c = '\x5c'
    case pos =>
      rw [if_pos hb] at hm
      cases hm
      simp [scanStep, scanOf, h, ht, hn, hb]
    case neg =>
      rw [if_neg hb] at hm
      simp only [Option.ite_none_left_eq_some] at hm
      cases hm.2
      simp [scanStep, scanOf, h, ht, hn, hb, hq]
  case escaped =>
    have hm' : m' ≠ .escaped := by
      rintro rfl
      simp only [Json.StrMode.next] at hm
      split at hm
      case isTrue  => contradiction
      case isFalse => simp at hm
    simp [scanStep, scanOf, h, ht, hn, hm']
  case hex left =>
    have hx : Json.isHex c ∧ m' ≠ .escaped := by
      cases left <;> simp only [Json.StrMode.next, Option.ite_none_right_eq_some, Option.some.injEq] at hm
      all_goals
        rw [← hm.2]
        simp [hm.1]
    have hb : c ≠ '\x5c' := by rintro rfl; exact absurd hx.1 (by decide)
    have hq : c ≠ '\x22' := by rintro rfl; exact absurd hx.1 (by decide)
    simp [scanStep, scanOf, h, ht, hn, hb, hq, hx.2]

theorem count_pos_of_getLast? {l : List Bool} (h : l.getLast? = some true) : l.count true ≠ 0 :=
  (List.count_pos_iff.mpr (List.mem_of_getLast? h)).ne'

-- One character of an object: the object is read on, or it is at its end.
theorem scanStep_scanOf (hl : p.Lettered) (hr : p.nesting.getLast? = some true) (h : p.step lim c = some p') :
    (p'.nesting.getLast? = some true ∧ scanStep (scanOf p text out) c = scanOf p' (text ++ [c]) out) ∨
    (p'.Closed ∧ scanStep (scanOf p text out) c = { out := out ++ [text ++ [c]] }) := by
  have hz := count_pos_of_getLast? hr
  cases (Reader.step_move hl h).1
  case quote ht hc ht' hn      => exact .inl ⟨hn ▸ hr, by simp [scanStep, scanOf, ht, hc, ht', hn]⟩
  case unquote ht hc ht' hn    => exact .inl ⟨hn ▸ hr, by simp [scanStep, scanOf, ht, hc, ht', hn]⟩
  case text ht hc hm ht' hn    => exact .inl ⟨hn ▸ hr, scanStep_text ht hc hm ht' hn⟩
  case openObj ht hc ht' hn    =>
    refine .inl ⟨?_, by simp [scanStep, scanOf, ht, hc, ht', hn]⟩
    rw [hn, List.getLast?_cons, hr]
    rfl
  case closeObj ht hc ht' hn ha =>
    by_cases he : p'.nesting = []
    case pos =>
      refine .inr ⟨ha (List.map_eq_nil_iff.mp he), ?_⟩
      simp [scanStep, scanOf, ht, hc, ← hn, he]
    case neg =>
      have hr' : p'.nesting.getLast? = some true := by
        rw [← hr, ← hn, List.getLast?_cons_of_ne_nil he]
      have hz' := count_pos_of_getLast? hr'
      exact .inl ⟨hr', by simp [scanStep, scanOf, ht, hc, ht', ← hn, hz']⟩
  case openArr ht hc ht' hn    =>
    refine .inl ⟨?_, by simp [scanStep, scanOf, ht, hc, ht', hn]⟩
    rw [hn, List.getLast?_cons, hr]
    rfl
  case closeArr ht hc ht' hn   =>
    have he : p'.nesting ≠ [] := by
      intro he
      simp [← hn, he] at hr
    refine .inl ⟨?_, by simp [scanStep, scanOf, ht, hc, ht', ← hn]⟩
    rw [← hr, ← hn, List.getLast?_cons_of_ne_nil he]
  case other ht hc ht' hn      =>
    simp only [List.mem_cons, List.not_mem_nil, or_false, not_or] at hc
    exact .inl ⟨hn ▸ hr, by simp [scanStep, scanOf, ht, hc, ht', hn]⟩

theorem foldl_scanOf (hl : p.Lettered) (hr : p.nesting.getLast? = some true) (h : p.run lim cs = some p')
    (hp : p'.Closed) (hc : cs.getLast? = some '}') :
    cs.foldl scanStep (scanOf p text out) = { out := out ++ [text ++ cs] } := by
  induction cs generalizing p text
  case nil => contradiction
  case cons c cs hi =>
    rw [Reader.run_cons, Option.bind_eq_some_iff] at h
    obtain ⟨p₁, h₁, h⟩ := h
    have hl₁ := (Reader.step_move hl h₁).2
    cases @scanStep_scanOf c lim p p₁ text out hl hr h₁
    case inl hs =>
      cases cs
      case nil =>
        cases h
        obtain ⟨v, rfl⟩ := hp
        exact absurd hs.1 (by simp [Reader.nesting])
      case cons d cs =>
        rw [List.getLast?_cons_cons] at hc
        rw [List.foldl_cons, hs.2, hi hl₁ hs.1 h hc, List.append_assoc, List.singleton_append]
    case inr hs =>
      cases cs
      case nil          => rw [List.foldl_cons, hs.2, List.foldl_nil]
      case cons d cs =>
        -- Nothing but blanks comes after an object, and the brace would come after it.
        rw [List.getLast?_cons_cons] at hc
        exact absurd (Reader.run_closed hs.1 h _ (List.mem_of_getLast? hc)) (by decide)

theorem foldl_object (h : RendersItem o item) :
    o.foldl scanStep { out := out } = { out := out ++ [o] } := by
  obtain ⟨cs, rfl⟩ := List.head?_eq_some_iff.mp h.first
  obtain ⟨v, hv, hi⟩ := Option.bind_eq_some_iff.mp h.read
  obtain ⟨p, hp, hr⟩ := Option.bind_eq_some_iff.mp hv
  rw [Reader.run_cons] at hp
  have hl := h.last
  cases cs
  case nil => contradiction
  case cons c cs =>
    rw [List.getLast?_cons_cons] at hl
    have hn : ∀ text, v ≠ .num text := by
      rintro text rfl
      contradiction
    exact foldl_scanOf (p := ⟨.keyOrEnd, [.obj [] []]⟩) trivial rfl hp ⟨v, Reader.closed_of_result hr hn⟩ hl

-- Garbage between objects has no braces and no quotes.
def Garbage (g : List Char) : Prop :=
  ∀ c ∈ g, c ∉ ['\x22', '{', '}']

theorem foldl_garbage (h : Garbage cs) : cs.foldl scanStep { out := out } = { out := out } := by
  induction cs
  case nil => rfl
  case cons c cs hi =>
    obtain ⟨hc, hg⟩ := List.forall_mem_cons.mp h
    simp only [List.mem_cons, List.not_mem_nil, or_false, not_or] at hc
    have hs : scanStep { out := out } c = { out := out } := by simp [scanStep, hc]
    rw [List.foldl_cons, hs]
    exact hi hg

-- After the last object a brace may be closed.
theorem out_foldl (hq : '\x22' ∉ cs) (hb : '{' ∉ cs) {s : Scan} (hd : s.depth ≤ 0) (hi : s.inString = false)
    (hs : s.start = none) : (cs.foldl scanStep s).out = s.out := by
  induction cs generalizing s
  case nil => rfl
  case cons c cs h =>
    rw [List.mem_cons, not_or] at hq hb
    have hc : c ≠ '\x22' ∧ c ≠ '{' := ⟨Ne.symm hq.1, Ne.symm hb.1⟩
    have hn : ¬s.depth - 1 = 0 := by omega
    rw [List.foldl_cons, h hq.2 hb.2]
    all_goals
      by_cases hr : c = '}' <;> simp [scanStep, hi, hs, hc, hr, hn]
    all_goals omega

-- An object with the garbage before it.
structure Chunk (ch : List Char × List Char) (item : ProposedItem) : Prop where
  garbage : Garbage ch.1
  object  : RendersItem ch.2 item

def strew (chunks : List (List Char × List Char)) : List Char :=
  chunks.flatMap fun ch => ch.1 ++ ch.2

variable {chunks : List (List Char × List Char)} {g tail : List Char}

theorem foldl_strew (h : chunks.Forall₂ Chunk items) :
    (strew chunks).foldl scanStep { out := out } = { out := out ++ chunks.map (·.2) } := by
  induction h generalizing out
  case nil => simp [strew]
  case cons ch item chunks items hc h hi =>
    have he : strew (ch :: chunks) = ch.1 ++ ch.2 ++ strew chunks := List.flatMap_cons ..
    rw [he, List.foldl_append, List.foldl_append, foldl_garbage hc.garbage, foldl_object hc.object, hi]
    simp

theorem filterMap_readItem (h : chunks.Forall₂ Chunk items) : (chunks.map (·.2)).filterMap readItem = items := by
  induction h
  case nil => rfl
  case cons ch item chunks items hc h hi => rw [List.map_cons, List.filterMap_cons_some hc.object.read, hi]

theorem getLast?_strew (h : chunks.Forall₂ Chunk items) (hn : chunks ≠ []) : (strew chunks).getLast? = some '}' := by
  induction h
  case nil => contradiction
  case cons ch item chunks items hc h hi =>
    have he : strew (ch :: chunks) = ch.1 ++ ch.2 ++ strew chunks := List.flatMap_cons ..
    rw [he]
    cases chunks
    case nil => simp [strew, hc.object.last]
    case cons => simp [hi]

-- The same objects, without carriage returns before line feeds.
theorem exists_strew_unix (h : chunks.Forall₂ Chunk items) :
    ∃ chunks', Text.unix (strew chunks) = strew chunks' ∧ chunks'.Forall₂ Chunk items := by
  induction h
  case nil => exact ⟨[], rfl, .nil⟩
  case cons ch item chunks items hc h hi =>
    obtain ⟨chunks', he, h'⟩ := hi
    have hs : strew (ch :: chunks) = ch.1 ++ (ch.2 ++ strew chunks) := by simp [strew]
    obtain ⟨o, ho⟩ := List.head?_eq_some_iff.mp hc.object.first
    refine ⟨(Text.unix ch.1, Text.unix ch.2) :: chunks', ?_, .cons ⟨?_, hc.object.unix⟩ h'⟩
    · rw [hs, Text.unix_append (.inr (by simp [ho])), Text.unix_append (.inl (by simp [hc.object.last])), he]
      simp [strew]
    · exact fun c hm => hc.garbage c (Text.unix_subset _ hm)

theorem topLevelObjects_eq (hg : Garbage pre) (h : chunks.Forall₂ Chunk items) (hq : '\x22' ∉ tail) (hb : '{' ∉ tail) :
    topLevelObjects (.ofList (pre ++ strew chunks ++ tail)) = chunks.map (·.2) := by
  rw [topLevelObjects, String.toList_ofList, List.foldl_append, List.foldl_append, foldl_garbage hg, foldl_strew h,
    out_foldl hq hb (by simp) rfl rfl, List.nil_append]

theorem parseItemsLenient_eq (h : ((g, o) :: chunks).Forall₂ Chunk items) (hq : '\x22' ∉ tail) (hb : '{' ∉ tail)
    (hf : Fenced (.ofList (strew ((g, o) :: chunks) ++ tail)) → '\n' ∈ g ∧ '\n' ∈ tail.dropLast) :
    parseItemsLenient (.ofList (strew ((g, o) :: chunks) ++ tail)) = .ok items := by
  obtain ⟨item, items, hc, hr, rfl⟩ := List.forall₂_cons_left_iff.mp h
  have h₀ : (([], o) :: chunks).Forall₂ Chunk (item :: items) := .cons ⟨nofun, hc.object⟩ hr
  have he : strew ((g, o) :: chunks) ++ tail = g ++ strew (([], o) :: chunks) ++ tail := by simp [strew]
  have hh : (strew (([], o) :: chunks)).head? = some '{' := by
    obtain ⟨l, rfl⟩ := List.head?_eq_some_iff.mp hc.object.first
    rfl
  rw [he] at hf ⊢
  obtain ⟨pre, suf, hp, hs, mid, hm, he⟩ := stripCodeFences_around hh (by decide) (getLast?_strew h₀ nofun) (by decide) hf
  obtain ⟨chunks', rfl, h'⟩ : ∃ chunks', mid = strew chunks' ∧ chunks'.Forall₂ Chunk (item :: items) := by
    simp only [List.mem_cons, List.not_mem_nil, or_false] at hm
    obtain rfl | rfl := hm
    · exact ⟨_, rfl, h₀⟩
    · exact exists_strew_unix h₀
  have hg : Garbage pre := fun c hm => hc.garbage c (hp hm)
  rw [parseItemsLenient, he, topLevelObjects_eq hg h' (fun hm => hq (hs hm)) (fun hm => hb (hs hm)),
    filterMap_readItem h']

end Lenient
-- The items are found in a text if no bracket comes before their array and, in a code block, the array is on
-- neither of the lines with a fence. If the array is broken, the objects of the items are found in the same
-- way, unless a brace is closed between them that none has opened.
theorem items_survive (fits : List Char → Bool) :
    (∀ pre r suf items, Renders fits r items → '[' ∉ pre →
      (Fenced (.ofList (pre ++ r ++ suf)) → '\n' ∈ pre ∧ '\n' ∈ suf.dropLast) →
      parseItems fits (.ofList (pre ++ r ++ suf)) = .ok items) ∧
    ∀ g o chunks tail items, ((g, o) :: chunks).Forall₂ Chunk items → '\x22' ∉ tail → '{' ∉ tail →
      (Fenced (.ofList (strew ((g, o) :: chunks) ++ tail)) → '\n' ∈ g ∧ '\n' ∈ tail.dropLast) →
      parseItemsLenient (.ofList (strew ((g, o) :: chunks) ++ tail)) = .ok items :=
  ⟨fun _ _ _ _ => parseItems_eq, fun _ _ _ _ _ => parseItemsLenient_eq⟩

-- Two items, in an array between fences, and on their own with garbage around them.
def crashItem : ProposedItem where
  title              := "Crash on [start]"
  priority           := .high
  complexity         := .small
  acceptanceCriteria := ["It \"runs\"."]

def docsItem : ProposedItem where
  title      := "Docs"
  priority   := .low
  complexity := .medium

def crashText : List Char :=
  ("\x7b\"title\": \"Crash on [start]\", \"priority\": \"high\", \"complexity\": \"small\", " ++
    "\"acceptance_criteria\": [\"It \\\"runs\\\".\"]\x7d").toList

def docsText : List Char :=
  "\x7b\"complexity\": \"medium\", \"priority\": \"low\", \"title\": \"Docs\"\x7d".toList

def bothText : List Char :=
  '[' :: (crashText ++ ", ".toList ++ docsText ++ [']'])

theorem items_survive_prose :
    parseItems (fun _ => true) (.ofList ("```json\n".toList ++ bothText ++ "\n```".toList)) = .ok [crashItem, docsItem] ∧
      parseItemsLenient (.ofList (strew [("Items: [".toList, crashText), (",\n] - ".toList, docsText)] ++ " ]".toList)) =
        .ok [crashItem, docsItem] := by
  have hboth : Renders (fun _ => true) bothText [crashItem, docsItem] :=
    ⟨rfl, by decide +kernel, by decide +kernel, by decide +kernel⟩
  have hcrash : Chunk ("Items: [".toList, crashText) crashItem :=
    ⟨by simp [Garbage], by decide +kernel, by decide +kernel, by decide +kernel⟩
  have hdocs : Chunk (",\n] - ".toList, docsText) docsItem :=
    ⟨by simp [Garbage], by decide +kernel, by decide +kernel, by decide +kernel⟩
  obtain ⟨harray, hobjects⟩ := items_survive fun _ => true
  refine ⟨harray _ _ _ _ hboth (by decide) fun _ => ⟨by decide, by decide⟩, ?_⟩
  refine hobjects _ _ _ _ _ (.cons hcrash (.cons hdocs .nil)) (by decide) (by decide) fun h => ?_
  exact absurd h.2.1 (by decide +kernel)

-- The items are lost after a bracket that belongs to no array, on the line of a fence, and if there are none.
theorem not_items_survive_anything :
    (¬∀ fits pre r suf items, Renders fits r items →
      (∀ cs, cs <:+: pre ∨ cs <:+: suf → ¬isArrayText fits cs) →
      parseItems fits (.ofList (pre ++ r ++ suf)) = .ok items) ∧
    (¬∀ fits pre r suf items, Renders fits r items → '[' ∉ pre →
      parseItems fits (.ofList (pre ++ r ++ suf)) = .ok items) ∧
    ¬∀ chunks tail items, chunks.Forall₂ Chunk items → '\x22' ∉ tail → '{' ∉ tail →
      parseItemsLenient (.ofList (strew chunks ++ tail)) = .ok items := by
  have hr : Renders (fun _ => true) "[]".toList [] := ⟨rfl, rfl, by decide +kernel, by decide +kernel⟩
  refine ⟨fun h => ?bracket, fun h => ?fence, fun h => ?empty⟩
  case bracket =>
    have hn : ∀ l ∈ "[x] ".toList.tails, ∀ cs ∈ l.inits, ¬isArrayText (fun _ => true) cs := by decide +kernel
    have h := h (fun _ => true) "[x] ".toList "[]".toList [] [] hr ?_
    · exact absurd h (by decide +kernel)
    · rintro cs (hc | hc)
      · obtain ⟨l, hl, hs⟩ := List.infix_iff_prefix_suffix.mp hc
        exact hn l ((List.mem_tails l _).mpr hs) cs ((List.mem_inits cs l).mpr hl)
      · rw [List.eq_nil_of_infix_nil hc]
        decide +kernel
  case fence => exact absurd (h _ "```".toList _ "\n```".toList [] hr (by decide)) (by decide +kernel)
  case empty => exact absurd (h [] [] [] .nil nofun nofun) (by decide +kernel)

end Parsing
