import CoxAgent.Release.Manifest

-- Each reader finds the pairs of neighbouring fields that have its shape.

open Scan

section Ascii

variable {c : Char}

theorem isUpper_iff : c.isUpper ↔ 65 ≤ c.toNat ∧ c.toNat ≤ 90 :=
  decide_eq_true_iff

theorem isLower_iff : c.isLower ↔ 97 ≤ c.toNat ∧ c.toNat ≤ 122 := by
  have hl : c.isLower = (decide (97 ≤ c.toNat) && decide (c.toNat ≤ 122)) := rfl
  simp [hl]

theorem isDigit_iff : c.isDigit ↔ 48 ≤ c.toNat ∧ c.toNat ≤ 57 := by
  have hd : c.isDigit = (decide (48 ≤ c.toNat) && decide (c.toNat ≤ 57)) := rfl
  simp [hd]

theorem isAlpha_iff : c.isAlpha ↔ c.isUpper ∨ c.isLower :=
  Bool.or_eq_true_iff

theorem isAlpha_of_isDigit (h : c.isDigit) : c.isAlpha = false := by
  rw [Bool.eq_false_iff, ne_eq, isAlpha_iff, isUpper_iff, isLower_iff]
  rw [isDigit_iff] at h
  omega

end Ascii

section Prefix

variable {a l m w : List Char}

theorem drop_of_append (h : a ++ m = l) : l.drop a.length = m := by
  rw [← h, List.drop_left]

theorem prefixAt_dash (hw : ∀ c ∈ w, c.isAlpha) : prefixAt (w ++ '-' :: m) = some (w, m) := by
  have hl : (w ++ '-' :: m).takeWhile (·.isAlpha) = w := by
    rw [List.takeWhile_append_of_pos hw]
    simp
  simp [prefixAt, hl]

theorem prefixAt_nil (hw : ∀ c ∈ w, c.isAlpha) : prefixAt w = none := by
  have hl : w.takeWhile (·.isAlpha) = w := List.takeWhile_eq_self_iff.mpr hw
  simp [prefixAt, hl]

theorem prefixAt_other {c : Char} (hw : ∀ c ∈ w, c.isAlpha) (hc : c.isAlpha = false) (hd : c ≠ '-') :
    prefixAt (w ++ c :: m) = none := by
  have hl : (w ++ c :: m).takeWhile (·.isAlpha) = w := by
    rw [List.takeWhile_append_of_pos hw]
    simp [hc]
  simp [prefixAt, hl, hd]

-- The letters of a field, and the rest of it.
theorem letters_cases (a : List Char) :
    (∀ c ∈ a, c.isAlpha) ∨ ∃ w c m, a = w ++ c :: m ∧ (∀ c ∈ w, c.isAlpha) ∧ c.isAlpha = false := by
  induction a
  case nil => exact .inl (by simp)
  case cons c a hi =>
    cases hc : c.isAlpha
    case false => exact .inr ⟨[], c, a, rfl, by simp, hc⟩
    case true =>
      rcases hi with hi | ⟨w, d, m, rfl, hw, hd⟩
      case inl => exact .inl (List.forall_mem_cons.mpr ⟨hc, hi⟩)
      case inr => exact .inr ⟨c :: w, d, m, rfl, List.forall_mem_cons.mpr ⟨hc, hw⟩, hd⟩

theorem ne_dash_of_field {c : Char} (ha : Field fieldChars a) (hc : c ∈ a) : c ≠ '-' := by
  rintro rfl
  exact absurd (ha _ hc) (by decide)

theorem prefixAt_pair (ha : Field fieldChars a) :
    prefixAt (a ++ '-' :: m) = if a.all (·.isAlpha) then some (a, m) else none := by
  rcases letters_cases a with h | ⟨w, c, k, rfl, hw, hc⟩
  case inl => rw [prefixAt_dash h, if_pos (List.all_eq_true.mpr h)]
  case inr =>
    have hd : c ≠ '-' := ne_dash_of_field ha (by simp)
    rw [List.append_assoc, List.cons_append, prefixAt_other hw hc hd, if_neg (by simp [hc])]

theorem prefixAt_alone (ha : Field fieldChars a) (hl : Ends fieldChars l) (hd : '-' ∉ l.head?) :
    prefixAt (a ++ l) = none := by
  rcases letters_cases a with h | ⟨w, c, k, rfl, hw, hc⟩
  case inl =>
    cases l
    case nil => simpa using prefixAt_nil h
    case cons c l =>
      have hc : c.isAlphanum = false := hl c rfl
      rw [Char.isAlphanum, Bool.or_eq_false_iff] at hc
      exact prefixAt_other h hc.left fun h => hd (by simp [h])
  case inr =>
    rw [List.append_assoc, List.cons_append]
    exact prefixAt_other hw hc (ne_dash_of_field ha (by simp))

theorem prefixAt_outside {c : Char} {letters tail : List Char} (hc : c.isAlphanum = false)
    (hp : prefixAt (c :: l) = some (letters, tail)) : letters = [] := by
  by_cases hd : c = '-'
  case pos =>
    have hs : prefixAt ([] ++ '-' :: l) = some ([], l) := prefixAt_dash (by simp)
    rw [hd] at hp
    cases hs.symm.trans hp
    rfl
  case neg =>
    rw [Char.isAlphanum, Bool.or_eq_false_iff] at hc
    have hn : prefixAt ([] ++ c :: l) = none := prefixAt_other (by simp) hc.left hd
    cases hn.symm.trans hp

-- A run within fields ends where the field does.
theorem takeWhile_ends {p : Char → Bool} (hp : ∀ c, p c → c.isAlphanum) (hl : Ends fieldChars l) :
    (a ++ l).takeWhile p = a.takeWhile p := by
  induction a
  case nil =>
    cases l
    case nil      => rfl
    case cons c l =>
      have hc : c.isAlphanum = false := hl c rfl
      have hpc : ¬p c := fun h => by simp [hp c h] at hc
      simp [hpc]
  case cons c a hi => simp only [List.cons_append, List.takeWhile_cons, hi]

theorem takeWhile_field (ha : Field fieldChars a) (hl : Ends fieldChars l) :
    (a ++ l).takeWhile (·.isAlphanum) = a := by
  rw [takeWhile_ends (fun _ => id) hl]
  exact List.takeWhile_eq_self_iff.mpr ha

theorem Scan.Ends.take {n : Nat} (hl : Ends fieldChars l) : Ends fieldChars (l.take n) := by
  intro c hc
  cases n
  case zero   => simp at hc
  case succ n =>
    cases l
    case nil      => simp at hc
    case cons d l => exact hl c (by simpa using hc)

end Prefix

namespace ReleaseCandidates

-- Two or more letters, and a field with a digit or of two or more capitals.
def isRef (a b : List Char) : Bool :=
  a.length ≥ 2 && a.all (·.isAlpha) && idLike b

theorem idLike_nil : idLike [] = false :=
  rfl

theorem reads : Reads fieldChars refAt isRef true where
  left _  := rfl
  right a := by simp [isRef, idLike_nil]
  outside c l hc := by
    rw [refAt]
    split
    case h_1 => rfl
    case h_2 letters tail hp => simp [prefixAt_outside hc hp]
  alone a l hne ha hl hd := by
    rw [refAt, prefixAt_alone ha hl hd]
    exact ⟨rfl, List.length_pos_of_ne_nil hne⟩
  pair a b l hne ha hb hl := by
    have hlen : 0 < a.length := List.length_pos_of_ne_nil hne
    have hsuffix : b ≠ [] ∧ idLike b ↔ idLike b :=
      and_iff_right_of_imp fun h hb => by simp [hb, idLike_nil] at h
    simp only [refAt, prefixAt_pair ha, fieldChars]
    cases hall : a.all (·.isAlpha)
    case false => simp [isRef, hall, hlen]
    case true =>
      have hm : isRef a b ↔ a.length ≥ 2 ∧ idLike b := by simp [isRef, hall]
      simp only [if_true, takeWhile_field hb hl, hsuffix, ← hm]
      cases isRef a b <;> simp [hlen]

-- The refs of a subject are the pairs of fields that are refs.
theorem extractTicketRefs_eq {subject : String} :
    extractTicketRefs subject = ticketRefs (marksIn fieldChars isRef true subject.toList) := by
  rw [extractTicketRefs, reads.scan_eq]

end ReleaseCandidates

namespace ReleaseAssembly

-- Up to three letters and then one or more digits.
def isCode (b : List Char) : Bool :=
  let (letters, digits) := codeAt b
  digits ≠ [] && letters ++ digits = b

def isRef (a b : List Char) : Bool :=
  a ≠ [] && a.all (·.isAlpha) && isCode b

theorem isCode_nil : isCode [] = false :=
  rfl

variable {a b l : List Char}

theorem codeAt_append (hl : Ends fieldChars l) : codeAt (b ++ l) = codeAt b := by
  have hletters : ((b ++ l).take 3).takeWhile (·.isAlpha) = (b.take 3).takeWhile (·.isAlpha) := by
    rw [List.take_append, takeWhile_ends (fun c hc => by simp [Char.isAlphanum, hc]) hl.take]
  have hlen : ((b.take 3).takeWhile (·.isAlpha)).length ≤ b.length :=
    ((List.takeWhile_prefix _).trans (List.take_prefix 3 b)).length_le
  rw [codeAt, codeAt, hletters, List.drop_append_of_le_length hlen,
    takeWhile_ends (fun c hc => by simp [Char.isAlphanum, hc]) hl]

theorem codeAt_prefix : (codeAt b).1 ++ (codeAt b).2 <+: b := by
  have hletters : (codeAt b).1 <+: b := (List.takeWhile_prefix _).trans (List.take_prefix 3 b)
  obtain ⟨r, hr⟩ := hletters
  have hdrop : b.drop (codeAt b).1.length = r := drop_of_append hr
  have hdigits : (codeAt b).2 <+: r := by
    rw [← hdrop]
    exact List.takeWhile_prefix _
  conv_rhs => rw [← hr]
  exact (List.prefix_append_right_inj _).mpr hdigits

-- The code is the whole field exactly if no letter or digit is behind it.
theorem delimited_iff (hb : Field fieldChars b) (hl : Ends fieldChars l) :
    ((b ++ l).drop ((codeAt b).1.length + (codeAt b).2.length)).head?.all (!·.isAlphanum) ↔
      (codeAt b).1 ++ (codeAt b).2 = b := by
  obtain ⟨r, hr⟩ := codeAt_prefix (b := b)
  have hdrop : (b ++ l).drop ((codeAt b).1.length + (codeAt b).2.length) = r ++ l := by
    rw [← List.length_append]
    exact drop_of_append (by rw [← List.append_assoc, hr])
  rw [hdrop]
  cases r
  case nil =>
    rw [List.append_nil] at hr
    have hhead : l.head?.all (!·.isAlphanum) := by
      cases l
      case nil      => rfl
      case cons c l =>
        have hc : c.isAlphanum = false := hl c rfl
        simp [hc]
    simp [hhead, hr]
  case cons c r =>
    have hc : c.isAlphanum := hb c (by rw [← hr]; simp)
    have hne : (codeAt b).1 ++ (codeAt b).2 ≠ b := fun h => by
      rw [h] at hr
      simpa using congrArg List.length hr
    simp [hc, hne]

theorem refAt_skip (hne : a ≠ []) (hl : Ends fieldChars l) : (refAt (a ++ l)).2 < a.length := by
  have hletters : (a ++ l).takeWhile (·.isAlpha) = a.takeWhile (·.isAlpha) :=
    takeWhile_ends (fun c hc => by simp [Char.isAlphanum, hc]) hl
  have hlen : 0 < a.length := List.length_pos_of_ne_nil hne
  have hle : (a.takeWhile (·.isAlpha)).length ≤ a.length := (List.takeWhile_prefix _).length_le
  rw [refAt, hletters]
  omega

theorem reads : Reads fieldChars refAt isRef false where
  left _  := rfl
  right a := by simp [isRef, isCode_nil]
  outside c l hc := by
    have hletters : (c :: l).takeWhile (·.isAlpha) = [] := by
      have hc : c.isAlphanum = false := hc
      rw [Char.isAlphanum, Bool.or_eq_false_iff] at hc
      simp [hc.left]
    rw [refAt, hletters, refIn]
    cases hp : prefixAt (c :: l)
    case none   => rfl
    case some v => simp [prefixAt_outside hc hp]
  alone a l hne ha hl hd := by
    refine ⟨?_, refAt_skip hne hl⟩
    rw [refAt, refIn, prefixAt_alone ha hl hd]
    rfl
  pair a b l hne ha hb hl := by
    refine ⟨?_, by simpa using refAt_skip hne (by simp [Ends, fieldChars])⟩
    simp only [refAt, refIn, fieldChars, prefixAt_pair ha]
    cases hall : a.all (·.isAlpha)
    case false => simp [isRef, hall]
    case true =>
      have hm : isRef a b ↔ a ≠ [] ∧ (codeAt b).2 ≠ [] ∧ (codeAt b).1 ++ (codeAt b).2 = b := by
        simp [isRef, isCode, hall]
      simp only [if_true, Option.bind_eq_bind, Option.bind_some, codeAt_append hl, delimited_iff hb hl, ← hm]
      cases h : isRef a b
      case false => simp
      case true  => simp [(hm.mp h).right.right]

theorem extractTicketRefs_eq {subject : String} :
    extractTicketRefs subject = ticketRefs (marksIn fieldChars isRef false subject.toList) := by
  rw [extractTicketRefs, reads.scan_eq]

end ReleaseAssembly
