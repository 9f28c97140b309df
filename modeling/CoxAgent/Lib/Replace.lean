import CoxAgent.Lib.Lines
import CoxAgent.Lib.Scan

-- The first occurrence of a piece of text is replaced, and both ends of a text are stripped.
namespace Text

-- The first occurrence of the pattern is replaced.
def replaceChars (pat new : List Char) : List Char → List Char
  | []     => if pat = [] then new else []
  | c :: l =>
    if pat.isPrefixOf (c :: l) then new ++ (c :: l).drop pat.length
    else c :: replaceChars pat new l

def replaceFirst (s pat new : String) : String :=
  .ofList (replaceChars pat.toList new.toList s.toList)

-- Both ends without the characters of a kind.
def strip (p : Char → Bool) (l : List Char) : List Char :=
  l.dropWhile p |>.rdropWhile p

def trimQuotes (s : String) : String :=
  .ofList (strip (· = '"') s.toList)

def trimStart (s : String) : String :=
  .ofList (s.toList.dropWhile isWhitespace)

section Replace

variable {pat new l m : List Char} {ls : List (List Char)} {c : Char}

section Part

variable (hc : c ∉ pat)
include hc

variable (hp : pat ≠ [])
include hp

end Part

end Replace

-- Two lists whose first parts lack the separator split at the same place.
theorem sep_append_inj {α : Type} {sep : α} {l l' m m' : List α} (hl : sep ∉ l) (hl' : sep ∉ l')
    (h : l ++ sep :: m = l' ++ sep :: m') : l = l' ∧ m = m' := by
  cases List.append_eq_append_iff.mp h
  case inl h =>
    obtain ⟨k, hk, hm⟩ := h
    cases k <;> simp_all
  case inr h =>
    obtain ⟨k, hk, hm⟩ := h
    cases k <;> simp_all

section Trim

variable {p : Char → Bool} {u x w l : List Char}

theorem dropWhile_append_of_head (hx : x ≠ []) (hh : ¬p (x.head hx)) :
    (u ++ x).dropWhile p = u.dropWhile p ++ x := by
  induction u
  case nil         => cases x <;> simp_all
  case cons c u hi =>
    by_cases hc : p c
    case pos => simp [hc, hi]
    case neg => simp [hc]

theorem rdropWhile_append_of_getLast (hx : x ≠ []) (hl : ¬p (x.getLast hx)) :
    (x ++ w).rdropWhile p = x ++ w.rdropWhile p := by
  rw [List.rdropWhile, List.reverse_append, dropWhile_append_of_head (List.reverse_ne_nil_iff.mpr hx) (by simpa using hl),
    List.reverse_append, List.reverse_reverse, List.rdropWhile]

theorem strip_append (hx : x ≠ []) (hh : ¬p (x.head hx)) (hl : ¬p (x.getLast hx)) :
    strip p (u ++ x ++ w) = u.dropWhile p ++ x ++ w.rdropWhile p := by
  have hd : (u ++ (x ++ w)).dropWhile p = u.dropWhile p ++ (x ++ w) :=
    dropWhile_append_of_head (by simp [hx]) (by rwa [List.head_append_of_ne_nil hx])
  rw [strip, List.append_assoc, hd, ← List.append_assoc]
  exact rdropWhile_append_of_getLast (by simp [hx]) (by rwa [List.getLast_append_of_ne_nil _ hx])

theorem trimChars_append (hw : ∀ c ∈ w, isWhitespace c) : trimChars (l ++ w) = trimChars l := by
  induction w using List.reverseRecOn
  case nil              => rw [List.append_nil]
  case append_singleton w c hi =>
    rw [← List.append_assoc, trimChars_concat (hw c (by simp)), hi fun d hd => hw d (by simp [hd])]

theorem stripPrefix_eq_some {s pre rest : String} :
    stripPrefix s pre = some rest ↔ s.toList = pre.toList ++ rest.toList := by
  constructor
  case mp =>
    intro h
    unfold stripPrefix at h
    split at h
    case isTrue hs =>
      have ⟨t, ht⟩ := startsWith_iff.mp hs
      rw [← Option.some.inj h, String.toList_ofList, ← ht, ← String.length_toList, List.drop_left]
    case isFalse => contradiction
  case mpr =>
    intro h
    have hs : startsWith s pre := startsWith_iff.mpr ⟨_, h.symm⟩
    rw [stripPrefix, if_pos hs, h, ← String.length_toList, List.drop_left, String.ofList_toList]

theorem stripPrefix_stripCr_append {pre : String} (hp : '\r' ∉ pre.toList) :
    stripPrefix (.ofList (stripCr (pre.toList ++ l))) pre = some (.ofList (stripCr l)) := by
  rw [stripPrefix_eq_some, String.toList_ofList, String.toList_ofList, stripCr_append hp]

end Trim

end Text
