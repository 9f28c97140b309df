import CoxAgent.Lib.Text

-- Texts that are printed line by line, and what is found in them.
namespace Text

variable {s : String} {p l m : List Char} {c : Char} {ls : List (List Char)}

theorem startsWith_iff {pre : String} : startsWith s pre ↔ pre.toList <+: s.toList := by
  rw [startsWith, List.isPrefixOf_iff_prefix]

def unlines (ls : List (List Char)) : String :=
  .ofList (ls.flatMap (· ++ ['\n']))

theorem splitOn_flatMap (h : ∀ l ∈ ls, '\n' ∉ l) :
    (ls.flatMap (· ++ ['\n'])).splitOn '\n' = ls ++ [[]] := by
  induction ls
  case nil => rfl
  case cons l ls hi =>
    rw [List.forall_mem_cons] at h
    rw [List.flatMap_cons, List.append_assoc, List.singleton_append, List.splitOn_append_cons_self,
      hi h.2, List.splitOn_eq_singleton h.1]
    rfl

-- Printed lines are read again, without a carriage return at the end.
theorem lines_unlines (h : ∀ l ∈ ls, '\n' ∉ l) :
    lines (unlines ls) = ls.map fun l => .ofList (stripCr l) := by
  simp only [lines, unlines, String.toList_ofList, splitOn_flatMap h]
  simp

section Strip

variable (hr : '\r' ∉ p)
include hr

theorem infix_stripCr : p <:+: stripCr l ↔ p <:+: l := by
  unfold stripCr
  split
  case isFalse => rfl
  case isTrue hl =>
    have he := List.dropLast_append_getLast? _ hl
    constructor
    case mp  => exact fun h => h.trans (List.dropLast_prefix l).isInfix
    case mpr =>
      intro h
      rw [← he, List.infix_concat_iff] at h
      cases h
      case inr h => exact h
      case inl h =>
        by_cases hp : p = []
        case pos => exact hp ▸ List.nil_infix
        case neg =>
          have hm : p.getLast hp = '\r' := by simpa using h.getLast hp
          exact absurd (hm ▸ List.getLast_mem hp) hr

theorem prefix_stripCr : p <+: stripCr l ↔ p <+: l := by
  unfold stripCr
  split
  case isFalse => rfl
  case isTrue hl =>
    have he := List.dropLast_append_getLast? _ hl
    constructor
    case mp  => exact fun h => h.trans (List.dropLast_prefix l)
    case mpr =>
      intro h
      rw [← he, List.prefix_concat_iff] at h
      cases h
      case inr h => exact h
      case inl h => exact absurd (by simp [h]) hr

end Strip

theorem startsWith_stripCr {pre : String} (hp : '\r' ∉ pre.toList) :
    startsWith (.ofList (stripCr l)) pre ↔ pre.toList <+: l := by
  rw [startsWith_iff, String.toList_ofList, prefix_stripCr hp]

theorem stripPrefix_stripCr_eq_none {pre : String} (hp : '\r' ∉ pre.toList) (h : ¬pre.toList <+: l) :
    stripPrefix (.ofList (stripCr l)) pre = none := by
  rw [stripPrefix, if_neg fun hs => h ((startsWith_stripCr hp).mp hs)]

theorem stripCr_eq (h : '\r' ∉ l) : stripCr l = l :=
  if_neg fun hl => h (List.mem_of_getLast? hl)

theorem stripCr_cons (h : c ≠ '\r') : stripCr (c :: l) = c :: stripCr l := by
  cases l
  case nil       => simp [stripCr, h]
  case cons b l =>
    unfold stripCr
    rw [List.getLast?_cons_cons]
    split <;> simp

theorem stripCr_append (hl : '\r' ∉ l) : stripCr (l ++ m) = l ++ stripCr m := by
  induction l
  case nil         => rfl
  case cons c l hi =>
    rw [List.mem_cons, not_or] at hl
    rw [List.cons_append, stripCr_cons (Ne.symm hl.left), hi hl.right, List.cons_append]

theorem trimChars_concat (h : isWhitespace c) : trimChars (l ++ [c]) = trimChars l := by
  unfold trimChars
  rw [List.dropWhile_append]
  split
  case isTrue he  =>
    rw [List.isEmpty_iff.mp he, List.dropWhile_cons_of_pos h]
    rfl
  case isFalse => rw [List.rdropWhile_concat_pos _ _ _ h]

-- A carriage return at the end is white space.
theorem trim_stripCr : trim (.ofList (stripCr l)) = trim (.ofList l) := by
  unfold stripCr
  split
  case isFalse => rfl
  case isTrue hl =>
    have he := List.dropLast_append_getLast? _ hl
    rw [trim, trim, String.toList_ofList, String.toList_ofList, ← trimChars_concat (c := '\r') (by decide), he]

section Parts

variable {q : List Char}

theorem mem_of_prefix_cons (hp : p ≠ []) (h : p <+: c :: l) : c ∈ p := by
  have ⟨_, ht⟩ := (List.prefix_cons_iff.mp h).resolve_left hp
  simp [ht.1]

-- What lacks a character is in one of the parts that the character separates.
theorem infix_append_cons (hc : c ∉ p) (hp : p ≠ []) : p <:+: l ++ c :: m ↔ p <:+: l ∨ p <:+: m := by
  have hn {q} (hq : q ≠ []) (hs : q ⊆ p) : ¬q <+: c :: m :=
    fun h => hc (hs (mem_of_prefix_cons hq h))
  rw [List.infix_append_iff_ne_nil, List.infix_cons_iff]
  constructor
  case mp =>
    intro h
    obtain h | h | ⟨q₁, q₂, _, hq, he, _, h⟩ := h
    · exact .inl h
    · exact .inr (h.resolve_left (hn hp (List.Subset.refl p)))
    · exact absurd h (hn hq (he ▸ List.subset_append_right q₁ q₂))
  case mpr => exact fun h => h.imp_right fun h => .inl (.inr h)

end Parts

-- The last word of a text, if nothing but the word follows white space.
theorem getLast?_words (hw : ∀ c ∈ m, !isWhitespace c) (hm : m ≠ []) :
    (words (.ofList (l ++ ' ' :: m))).getLast? = some (.ofList m) := by
  have hs : m.splitOnP isWhitespace = [m] :=
    List.splitOnP_eq_singleton fun c hc => by simpa using hw c hc
  rw [words, String.toList_ofList, List.splitOnP_append_cons l m (by decide), hs, List.filter_append]
  simp [hm]

end Text

-- Texts whose lines may end with a carriage return.
namespace Text

variable {l m body : List Char} {c : Char}

-- The text with line feeds alone at the ends of its lines.
def unix : List Char → List Char
  | []      => []
  | c :: cs => if c = '\r' ∧ cs.head? = some '\n' then unix cs else c :: unix cs

theorem unix_cons (h : c ≠ '\r' ∨ l.head? ≠ some '\n') : unix (c :: l) = c :: unix l := by
  rw [unix, if_neg]
  rintro ⟨hc, hl⟩
  exact h.elim (· hc) (· hl)

theorem unix_append (h : l.getLast? ≠ some '\r' ∨ m.head? ≠ some '\n') : unix (l ++ m) = unix l ++ unix m := by
  induction l
  case nil => rfl
  case cons c l hi =>
    cases l
    case nil =>
      rw [List.singleton_append, unix_cons (h.imp_left (by simpa using ·)), unix_cons (.inr (by simp))]
      rfl
    case cons b l =>
      have hi := hi (h.imp_left (by simpa using ·))
      have hh : (b :: l ++ m).head? = (b :: l).head? := rfl
      rw [List.cons_append, unix, unix, hi, hh]
      split <;> rfl

theorem unix_append_feed (h : '\n' ∉ l) : unix (l ++ '\n' :: m) = stripCr l ++ '\n' :: unix m := by
  induction l
  case nil => simp [unix, stripCr]
  case cons c l hi =>
    have hl := List.not_mem_of_not_mem_cons h
    have hc : c ≠ '\n' := fun hc => h (hc ▸ List.mem_cons_self)
    rw [List.cons_append, unix, hi hl]
    cases l
    case nil =>
      by_cases hr : c = '\r'
      case pos => simp [hr, stripCr]
      case neg => simp [hr, stripCr]
    case cons b l =>
      have hb : b ≠ '\n' := fun hb => hl (hb ▸ List.mem_cons_self)
      rw [if_neg (by simp [hb])]
      unfold stripCr
      rw [List.getLast?_cons_cons]
      split <;> simp

theorem unix_subset (l : List Char) : unix l ⊆ l := by
  induction l
  case nil => exact List.Subset.refl _
  case cons c l hi =>
    rw [unix]
    split
    case isTrue  => exact List.subset_cons_of_subset c hi
    case isFalse => exact List.cons_subset_cons c hi

theorem unix_cons_ne_nil : unix (c :: l) ≠ [] := by
  induction l generalizing c
  case nil => simp [unix]
  case cons b l hi =>
    rw [unix]
    split
    case isTrue  => exact hi
    case isFalse => simp

theorem getLast?_unix (l : List Char) : (unix l).getLast? = l.getLast? := by
  induction l
  case nil => rfl
  case cons c l hi =>
    cases l
    case nil => simp [unix]
    case cons b l =>
      rw [unix, List.getLast?_cons_cons]
      split
      case isTrue  => exact hi
      case isFalse => rw [List.getLast?_cons_of_ne_nil unix_cons_ne_nil, hi]

theorem head?_unix (h : l.head? = some c) (hc : c ≠ '\r') : (unix l).head? = some c := by
  obtain ⟨l, rfl⟩ := List.head?_eq_some_iff.mp h
  rw [unix_cons (.inl hc), List.head?_cons]

-- The lines of a text, put together again.
theorem unix_lines (l : List Char) :
    ['\n'].intercalate ((l.splitOn '\n').map stripCr) ++ ['\n'] = unix (l ++ ['\n']) := by
  by_cases h : '\n' ∈ l
  case neg =>
    rw [List.splitOn_eq_singleton h, unix_append_feed h]
    simp [unix]
  case pos =>
    obtain ⟨line, rest, he, hn⟩ := List.eq_append_cons_of_mem h
    have hi := unix_lines rest
    have hr : (rest.splitOn '\n').map stripCr ≠ [] := by simp [List.splitOn_ne_nil]
    rw [he, List.append_assoc, List.cons_append, unix_append_feed hn, ← hi, List.splitOn_append_cons_self,
      List.splitOn_eq_singleton hn, List.singleton_append, List.map_cons, List.intercalate_cons_of_ne_nil hr]
    simp
termination_by l.length
decreasing_by simp [he]; omega

theorem lines_cons (h : '\n' ∉ l) :
    lines (.ofList (l ++ '\n' :: m)) = .ofList (stripCr l) :: lines (.ofList m) := by
  have hn : m.splitOn '\n' ≠ [] := List.splitOn_ne_nil _ _
  simp only [lines, String.toList_ofList]
  rw [List.splitOn_append_cons_self, List.splitOn_eq_singleton h, List.singleton_append,
    List.dropLast_cons_of_ne_nil hn, List.getLastD_cons, List.map_cons, List.cons_append, List.map_cons,
    List.getLastD_eq_getLast?, List.getLastD_eq_getLast?, List.getLast?_eq_getLast_of_ne_nil hn]
  rfl

-- What comes after the last line feed is one line.
theorem lines_append_last (h : '\n' ∉ l.dropLast) (hl : l ≠ []) :
    ∃ z, lines (.ofList (body ++ '\n' :: l)) = ((body.splitOn '\n').map stripCr).map .ofList ++ [z] := by
  obtain ⟨l, c, rfl⟩ := l.eq_nil_or_concat.resolve_left hl
  rw [List.concat_eq_append, List.dropLast_concat] at h
  simp only [lines, String.toList_ofList, List.splitOn_append_cons_self]
  by_cases hc : c = '\n'
  case pos =>
    have hs : (l ++ ['\n']).splitOn '\n' = [l, []] := by
      rw [List.splitOn_append_cons_self, List.splitOn_eq_singleton h]
      rfl
    refine ⟨.ofList (stripCr l), ?_⟩
    rw [List.concat_eq_append, hc, hs, List.dropLast_append_of_ne_nil (by simp)]
    simp
  case neg =>
    have hs : (l ++ [c]).splitOn '\n' = [l ++ [c]] :=
      List.splitOn_eq_singleton (by simp [h, Ne.symm hc])
    refine ⟨.ofList (l ++ [c]), ?_⟩
    rw [List.concat_eq_append, hs, List.dropLast_concat]
    simp

end Text
