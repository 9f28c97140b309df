import CoxAgent.Backlog.AddTicket
import CoxAgent.Lib.Lists
import Mathlib

-- A character that a normalised title keeps.
def isWordChar (c : Char) : Bool :=
  c.isAlphanum && c.toLower = c

-- What the normal form of a title looks like before it is trimmed: words with one blank between them, and
-- perhaps one at the end.
structure Spaced (l : List Char) : Prop where
  chars  : ∀ c ∈ l, c = ' ' ∨ isWordChar c
  head   : l.head? ≠ some ' '
  single : l.IsChain fun a b => ¬(a = ' ' ∧ b = ' ')

variable {c : Char} {l out : List Char} {t u : String} {titles : List String}

section Normalize

theorem isWordChar_toLower (h : c.isAlphanum) : isWordChar c.toLower := by
  have hd : c.isDigit → c.toLower = c := by
    intro h
    apply Char.toLower_eq_of_not_isUpper
    simp only [Char.isDigit, Char.isUpper, Bool.and_eq_true, decide_eq_true_eq, ge_iff_le,
      UInt32.le_iff_toNat_le] at h ⊢
    have h₁ : 'A'.val.toNat = 65 := rfl
    have h₂ : '9'.val.toNat = 57 := rfl
    omega
  simp only [isWordChar, Char.toLower_toLower_eq_toLower, decide_true, Bool.and_true]
  simp only [Char.isAlphanum, Bool.or_eq_true] at h ⊢
  obtain h | h := h
  · exact .inl (by simpa using h)
  · exact .inr (by rw [hd h]; exact h)

theorem not_isWhitespace_of_isAlphanum (h : c.isAlphanum) : ¬Text.isWhitespace c := by
  simp only [Char.isAlphanum, Char.isAlpha, Char.isUpper, Char.isLower, Char.isDigit, Bool.or_eq_true,
    Bool.and_eq_true, decide_eq_true_eq, ge_iff_le, UInt32.le_iff_toNat_le] at h
  have h₁ : 'A'.val.toNat = 65 := rfl
  have h₂ : 'Z'.val.toNat = 90 := rfl
  have h₃ : 'a'.val.toNat = 97 := rfl
  have h₄ : 'z'.val.toNat = 122 := rfl
  have h₅ : '0'.val.toNat = 48 := rfl
  have h₆ : '9'.val.toNat = 57 := rfl
  have h₇ : c.toNat = c.val.toNat := rfl
  simp only [Text.isWhitespace, decide_eq_true_eq]
  omega

theorem isWordChar_ne_blank (h : isWordChar c) : c ≠ ' ' := by
  intro he
  subst he
  exact absurd h (by decide)

theorem isAlphanum_of_isWordChar (h : isWordChar c) : c.isAlphanum :=
  (Bool.and_eq_true_iff.mp h).1

namespace Spaced

theorem nil : Spaced [] where
  chars  := by simp
  head   := by simp
  single := .nil

theorem snoc (h : Spaced l) (hc : c = ' ' ∨ isWordChar c) (hh : l = [] → c ≠ ' ')
    (hs : l.getLast? = some ' ' → c ≠ ' ') : Spaced (l ++ [c]) where
  chars  := by
    rw [List.forall_mem_append, List.forall_mem_singleton]
    exact ⟨h.chars, hc⟩
  head   := by
    cases l
    case nil      => simpa using hh rfl
    case cons a l => exact h.head
  single := by
    rw [List.isChain_append]
    refine ⟨h.single, .singleton c, fun a ha b hb ⟨hab, hbb⟩ => ?_⟩
    subst hab
    have hb : c = b := by simpa using hb
    exact hs ha (hb.trans hbb)

theorem of_append {l' : List Char} (h : Spaced (l ++ l')) : Spaced l where
  chars  := fun c hc => h.chars c (List.mem_append_left _ hc)
  head   := by
    cases l
    case nil      => simp
    case cons a l => exact h.head
  single := (List.isChain_append.mp h.single).1

end Spaced

-- One more character of a title. The flag says whether the text ends with a blank.
theorem spaced_step (h : Spaced out) : ∃ out', normalizeTitle.step (out, out.getLast? = some ' ') c =
      (out', decide (out'.getLast? = some ' ')) ∧ Spaced out' ∧ (out' = [] ↔ out = [] ∧ ¬c.isAlphanum) := by
  unfold normalizeTitle.step
  by_cases hc : c.isAlphanum
  case pos =>
    have hw := isWordChar_toLower hc
    have hb := isWordChar_ne_blank hw
    refine ⟨out ++ [c.toLower], ?_, h.snoc (.inr hw) (fun _ => hb) fun _ => hb, by simp [hc]⟩
    simp [hc, hb]
  case neg =>
    by_cases hl : out.getLast? ≠ some ' ' ∧ out ≠ []
    case pos =>
      refine ⟨out ++ [' '], ?_, h.snoc (.inl rfl) (fun he => absurd he hl.2) fun he => absurd he hl.1, ?_⟩
      · simp [hc, hl.1, hl.2]
      · simp [hl.2]
    case neg =>
      refine ⟨out, ?_, h, by simp [hc]⟩
      by_cases he : out = []
      · simp [hc, he]
      · have hb : out.getLast? = some ' ' := by
          by_contra hb
          exact hl ⟨hb, he⟩
        simp [hc, hb]

theorem spaced_foldl (h : Spaced out) : ∃ out',
    l.foldl normalizeTitle.step (out, out.getLast? = some ' ') = (out', decide (out'.getLast? = some ' ')) ∧
    Spaced out' ∧ (out' = [] ↔ out = [] ∧ ¬l.any (·.isAlphanum)) := by
  induction l generalizing out
  case nil => exact ⟨out, rfl, h, by simp⟩
  case cons c l hi =>
    obtain ⟨mid, hm, hs, he⟩ := @spaced_step c out h
    obtain ⟨out', ho, hs', he'⟩ := hi hs
    refine ⟨out', by rw [List.foldl_cons, hm, ho], hs', ?_⟩
    rw [he', he, List.any_cons, Bool.or_eq_true, not_or, and_assoc]

-- The text of a normal form is not changed.
theorem foldl_spaced (h : Spaced (out ++ l)) :
    l.foldl normalizeTitle.step (out, out.getLast? = some ' ') =
      (out ++ l, decide ((out ++ l).getLast? = some ' ')) := by
  induction l generalizing out
  case nil => simp
  case cons c l hi =>
    have hs : normalizeTitle.step (out, out.getLast? = some ' ') c =
        (out ++ [c], decide ((out ++ [c]).getLast? = some ' ')) := by
      have hc := h.chars c (by simp)
      unfold normalizeTitle.step
      obtain hc | hc := hc
      case inl =>
        subst hc
        have hn : out ≠ [] := by
          rintro rfl
          exact h.head rfl
        have hl : out.getLast? ≠ some ' ' := by
          intro hl
          exact (List.isChain_append.mp h.single).2.2 ' ' hl ' ' rfl ⟨rfl, rfl⟩
        have ha : ¬(' '.isAlphanum) := by decide
        simp [ha, hl, hn]
      case inr =>
        have hw := Bool.and_eq_true_iff.mp hc
        have hb := isWordChar_ne_blank hc
        have hl : c.toLower = c := by simpa using hw.2
        simp [hw.1, hl, hb]
    rw [List.foldl_cons, hs, hi (by simpa using h)]
    simp

theorem getLast?_spaced (h : Spaced l) (hl : l.getLast? ≠ some ' ') (hn : l ≠ []) :
    isWordChar (l.getLast hn) := by
  have hb : l.getLast hn ≠ ' ' := fun he => hl (by rw [List.getLast?_eq_some_getLast hn, he])
  exact (h.chars _ (List.getLast_mem hn)).resolve_left hb

theorem trimChars_spaced (h : Spaced l) (hl : l.getLast? ≠ some ' ') (hb : out = l ∨ out = l ++ [' '])
    (ho : Spaced out) : Text.trimChars out = l := by
  have hd : out.dropWhile Text.isWhitespace = out := by
    rw [List.dropWhile_eq_self_iff]
    intro hp hw
    have hc : isWordChar out[0] := by
      refine (ho.chars _ (List.getElem_mem hp)).resolve_left fun he => ho.head ?_
      rw [List.head?_eq_getElem?, List.getElem?_eq_getElem hp, he]
    exact not_isWhitespace_of_isAlphanum (isAlphanum_of_isWordChar hc) hw
  have hr : l.rdropWhile Text.isWhitespace = l := by
    rw [List.rdropWhile_eq_self_iff]
    exact fun hn => not_isWhitespace_of_isAlphanum (isAlphanum_of_isWordChar (getLast?_spaced h hl hn))
  rw [Text.trimChars, hd]
  obtain hb | hb := hb
  case inl => rw [hb, hr]
  case inr => rw [hb, List.rdropWhile_concat_pos _ _ _ (by decide), hr]

-- A normal form is spaced, does not end with a blank and is empty only if the title has no ASCII letter or
-- digit.
theorem normalizeTitle_spaced (t : String) : ∃ l, normalizeTitle t = .ofList l ∧ Spaced l ∧
    l.getLast? ≠ some ' ' ∧ (l = [] ↔ ¬t.toList.any (·.isAlphanum)) := by
  obtain ⟨out, ho, hs, he⟩ := @spaced_foldl t.toList [] .nil
  have hn : normalizeTitle t = .ofList (Text.trimChars out) := by
    have hf : t.toList.foldl normalizeTitle.step ([], false) = (out, decide (out.getLast? = some ' ')) := ho
    rw [normalizeTitle, hf, Text.trim, String.toList_ofList]
  have he : out = [] ↔ ¬t.toList.any (·.isAlphanum) := by simpa using he
  by_cases hl : out.getLast? = some ' '
  case neg => exact ⟨out, by rw [hn, trimChars_spaced hs hl (.inl rfl) hs], hs, hl, he⟩
  case pos =>
    obtain ⟨l, hb⟩ := List.getLast?_eq_some_iff.mp hl
    have hsl : Spaced l := (hb ▸ hs).of_append
    have hll : l.getLast? ≠ some ' ' := by
      intro hll
      have hc := (List.isChain_append.mp (hb ▸ hs).single).2.2
      exact hc ' ' hll ' ' rfl ⟨rfl, rfl⟩
    have hne : l ≠ [] := by
      intro hle
      subst hle
      exact hs.head (by rw [hb]; rfl)
    refine ⟨l, by rw [hn, trimChars_spaced hsl hll (.inr hb) hs], hsl, hll, ?_⟩
    rw [← he]
    exact iff_of_false hne (by rw [hb]; simp)

theorem normalizeTitle_eq_self (h : Spaced l) (hl : l.getLast? ≠ some ' ') :
    normalizeTitle (.ofList l) = .ofList l := by
  have hf := @foldl_spaced l [] h
  rw [List.nil_append] at hf
  have hf : l.foldl normalizeTitle.step ([], false) = (l, decide (l.getLast? = some ' ')) := hf
  rw [normalizeTitle, String.toList_ofList, hf, Text.trim, String.toList_ofList, trimChars_spaced h hl (.inl rfl) h]

theorem normalizeTitle_normalizeTitle : normalizeTitle (normalizeTitle t) = normalizeTitle t := by
  obtain ⟨l, hn, hs, hl, _⟩ := normalizeTitle_spaced t
  rw [hn, normalizeTitle_eq_self hs hl]

theorem normalizeTitle_eq_empty : normalizeTitle t = "" ↔ ¬t.toList.any (·.isAlphanum) := by
  obtain ⟨l, hn, _, _, he⟩ := normalizeTitle_spaced t
  rw [hn, ← he, ← String.toList_inj, String.toList_ofList, String.toList_empty]

end Normalize

section Detection

theorem jaccard_comm {a b : List String} (ha : a.Nodup) (hb : b.Nodup) : jaccard a b = jaccard b a := by
  unfold jaccard
  rw [Lists.length_inter_comm ha hb, Lists.length_union_comm ha hb]
  simp only [or_comm]

theorem nodup_titleTokens : (titleTokens t).Nodup :=
  List.nodup_dedup _

theorem titleTokens_eq_nil (h : normalizeTitle t = "") : titleTokens t = [] := by
  rw [titleTokens, h]
  decide

-- What makes a title cover another one.
def Resembles (t u : String) : Prop :=
  normalizeTitle u = normalizeTitle t ∨ (isBacklogMeta t ∧ isBacklogMeta u) ∨
    duplicateJaccardThreshold (jaccard (titleTokens t) (titleTokens u))

theorem Resembles.symm (h : Resembles t u) : Resembles u t := by
  obtain h | h | h := h
  · exact .inl h.symm
  · exact .inr (.inl h.symm)
  · exact .inr (.inr (jaccard_comm nodup_titleTokens nodup_titleTokens ▸ h))

theorem duplicatesExisting_iff :
    duplicatesExisting t titles ↔ normalizeTitle t = "" ∨ ∃ e ∈ titles, Resembles t e := by
  simp [duplicatesExisting, Resembles]

-- A title without a normal form resembles no other one that has one.
theorem not_resembles_of_empty (ht : normalizeTitle t = "") (hu : normalizeTitle u ≠ "") : ¬Resembles u t := by
  have hm : ¬isBacklogMeta t := by
    rw [isBacklogMeta, ht]
    decide
  rintro (h | h | h)
  · exact hu (h.symm.trans ht)
  · exact hm h.2
  · rw [titleTokens_eq_nil ht, jaccard, if_pos (.inr rfl)] at h
    exact absurd h (by decide)

end Detection

-- What the detection of duplicates promises of a title, of another title and of a board.
structure Sane (t u : String) (titles : List String) : Prop where
  alone      : ¬duplicatesExisting t []
  itself     : duplicatesExisting t [t]
  symmetric  : duplicatesExisting t [u] = duplicatesExisting u [t]
  single     : duplicatesExisting t titles ↔ ∃ e ∈ titles, duplicatesExisting t [e]
  idempotent : normalizeTitle (normalizeTitle t) = normalizeTitle t

-- The detection is sane on the titles that have a letter or a digit of ASCII, and on no others.
theorem sane_iff : Sane t u titles ↔ t.toList.any (·.isAlphanum) ∧ u.toList.any (·.isAlphanum) := by
  have ht : t.toList.any (·.isAlphanum) ↔ normalizeTitle t ≠ "" := by simp [normalizeTitle_eq_empty]
  have hu : u.toList.any (·.isAlphanum) ↔ normalizeTitle u ≠ "" := by simp [normalizeTitle_eq_empty]
  rw [ht, hu]
  constructor
  case mp =>
    intro h
    have hn : normalizeTitle t ≠ "" := fun he => h.alone (duplicatesExisting_iff.mpr (.inl he))
    refine ⟨hn, fun he => ?_⟩
    have hd : duplicatesExisting t [u] := by
      rw [h.symmetric, duplicatesExisting_iff]
      exact .inl he
    obtain hd | ⟨e, hm, hr⟩ := duplicatesExisting_iff.mp hd
    · exact hn hd
    · exact not_resembles_of_empty he hn (List.mem_singleton.mp hm ▸ hr)
  case mpr =>
    intro ⟨hn, hm⟩
    have hs {v : String} (hv : normalizeTitle v ≠ "") {l : List String} :
        duplicatesExisting v l ↔ ∃ e ∈ l, Resembles v e := by
      rw [duplicatesExisting_iff, or_iff_right hv]
    constructor
    case alone      => simp [hs hn]
    case itself     => exact (hs hn).mpr ⟨t, List.mem_singleton_self t, .inl rfl⟩
    case symmetric  =>
      rw [Bool.eq_iff_iff, hs hn, hs hm]
      simp only [List.mem_singleton, exists_eq_left]
      exact ⟨Resembles.symm, Resembles.symm⟩
    case single     =>
      rw [hs hn]
      simp only [hs hn, List.mem_singleton, exists_eq_left]
    case idempotent => exact normalizeTitle_normalizeTitle

-- Unicode, as far as the title of the example goes.
def kanji : Text.Unicode where
  toLowercase      := id
  isAlphanumeric c := c.isAlphanum || "日本語".toList.contains c

-- A title in another script is a duplicate of nothing at all.
theorem not_sane_kanji : "日本語".toList.any kanji.isAlphanumeric ∧ duplicatesExisting "日本語" [] ∧
    ¬Sane "日本語" "日本語" [] := by
  have hd : duplicatesExisting "日本語" [] := by decide
  exact ⟨by decide, hd, fun h => h.alone hd⟩
