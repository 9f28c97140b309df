import Mathlib.Data.List.Basic

-- Scanners for marks in a text. A mark is two fields with a dash between them, a field a run of letters
-- and digits, and a word what dashes join.
namespace Scan

structure Alphabet (α : Type) where
  isField : α → Bool
  dash    : α
  noField : isField dash = false

variable {α : Type}

-- A scanner goes over a text from left to right. It looks only at the first character of a field, which
-- gives it what it finds there and how many more characters to pass over.
def scan {β : Type} (A : Alphabet α) (look : List α → Option β × Nat) : Nat → Bool → List α → List β
  | _, _, []          => []
  | n + 1, _, a :: l  => scan A look n (!A.isField a) l
  | 0, false, a :: l  => scan A look 0 (!A.isField a) l
  | 0, true, a :: l   =>
    (look (a :: l)).1.toList ++ scan A look (look (a :: l)).2 (!A.isField a) l

-- The marks of neighbouring fields. A greedy reader does not start a mark in the last field of another.
def marks (A : Alphabet α) (isMark : List α → List α → Bool) (greedy : Bool) :
    List (List α) → List (List α)
  | a :: b :: l =>
    if isMark a b then
      (a ++ A.dash :: b) :: if greedy then marks A isMark greedy l else marks A isMark greedy (b :: l)
    else
      marks A isMark greedy (b :: l)
  | _           => []

def Field (A : Alphabet α) (a : List α) : Prop :=
  ∀ c ∈ a, A.isField c

-- No field goes on in the text.
def Ends (A : Alphabet α) (l : List α) : Prop :=
  ∀ c ∈ l.head?, A.isField c = false

-- Neither a field nor a word goes on in the text.
def Apart (A : Alphabet α) (l : List α) : Prop :=
  ∀ c ∈ l.head?, A.isField c = false ∧ c ≠ A.dash

-- What a look has to do so that the scanner reads the marks: at a field without a neighbour it finds
-- nothing, and at two neighbours the mark that they may be. It passes over the mark if it is greedy, and
-- over no more than the field it is at if not.
structure Reads (A : Alphabet α) (look : List α → Option (List α) × Nat)
    (isMark : List α → List α → Bool) (greedy : Bool) : Prop where
  left    : ∀ b, isMark [] b = false
  right   : ∀ a, isMark a [] = false
  outside : ∀ c l, A.isField c = false → look (c :: l) = (none, 0)
  alone   : ∀ a l, a ≠ [] → Field A a → Ends A l → A.dash ∉ l.head? →
    (look (a ++ l)).1 = none ∧ (look (a ++ l)).2 < a.length
  pair    : ∀ a b l, a ≠ [] → Field A a → Field A b → Ends A l →
    let seen := look (a ++ A.dash :: (b ++ l))
    (seen.1 = if isMark a b then some (a ++ A.dash :: b) else none) ∧
    if isMark a b ∧ greedy then seen.2 = a.length + b.length else seen.2 < a.length

section Scan

variable {A : Alphabet α} {look : List α → Option (List α) × Nat} {isMark : List α → List α → Bool}
  {greedy : Bool} {a b l : List α}

theorem scan_field {n : Nat} (ha : Field A a) :
    scan A look n false (a ++ l) = scan A look (n - a.length) false l := by
  induction a generalizing n
  case nil => simp
  case cons c a hi =>
    obtain ⟨hc, ha⟩ := List.forall_mem_cons.mp ha
    cases n
    case zero   => simpa [scan, hc] using hi (n := 0) ha
    case succ n => simpa [scan, hc] using hi (n := n) ha

theorem scan_outside {c : α} {start : Bool} (hr : Reads A look isMark greedy) (hc : A.isField c = false) :
    scan A look 0 start (c :: l) = scan A look 0 true l := by
  cases start <;> simp [scan, hc, hr.outside c l hc]

theorem scan_ends (hr : Reads A look isMark greedy) (hl : Ends A l) :
    scan A look 0 false l = scan A look 0 true l := by
  cases l
  case nil      => rfl
  case cons c l =>
    have hc : A.isField c = false := hl c rfl
    rw [scan_outside hr hc, scan_outside hr hc]

theorem scan_look (ha : Field A a) (hne : a ≠ []) :
    scan A look 0 true (a ++ l) =
      (look (a ++ l)).1.toList ++ scan A look ((look (a ++ l)).2 - (a.length - 1)) false l := by
  obtain ⟨c, a, rfl⟩ := List.exists_cons_of_ne_nil hne
  obtain ⟨hc, ha⟩ := List.forall_mem_cons.mp ha
  rw [List.cons_append, scan, hc, Bool.not_true, scan_field ha]
  simp

theorem scan_alone (hr : Reads A look isMark greedy) (ha : Field A a) (hl : Ends A l)
    (hd : A.dash ∉ l.head?) : scan A look 0 true (a ++ l) = scan A look 0 true l := by
  by_cases hne : a = []
  case pos => rw [hne, List.nil_append]
  case neg =>
    obtain ⟨hnone, hlt⟩ := hr.alone a l hne ha hl hd
    rw [scan_look ha hne, hnone, Nat.sub_eq_zero_of_le (by omega), scan_ends hr hl]
    rfl

-- Two neighbours, and where the scanner goes on after them.
theorem scan_pair (hr : Reads A look isMark greedy) (ha : Field A a) (hb : Field A b) (hl : Ends A l) :
    scan A look 0 true (a ++ A.dash :: (b ++ l)) =
      if isMark a b then
        (a ++ A.dash :: b) :: if greedy then scan A look 0 true l else scan A look 0 true (b ++ l)
      else
        scan A look 0 true (b ++ l) := by
  by_cases hne : a = []
  case pos =>
    subst hne
    simp [hr.left, scan_outside hr A.noField]
  case neg =>
    obtain ⟨hseen, hskip⟩ := hr.pair a b l hne ha hb hl
    rw [scan_look ha hne, hseen]
    by_cases hm : isMark a b
    case neg =>
      simp only [hm, Bool.false_eq_true, false_and, if_false] at hskip ⊢
      rw [Nat.sub_eq_zero_of_le (by omega), scan_outside hr A.noField]
      rfl
    case pos =>
      simp only [hm, if_true, true_and, Option.toList_some, List.singleton_append] at hskip ⊢
      congr 1
      cases greedy
      case false =>
        simp only [Bool.false_eq_true, if_false] at hskip ⊢
        rw [Nat.sub_eq_zero_of_le (by omega), scan_outside hr A.noField]
      case true =>
        -- The rest of the mark is passed over: the dash, and then its last field.
        simp only [if_true] at hskip ⊢
        have hb' : b ≠ [] := by
          rintro rfl
          simp [hr.right] at hm
        have ha' : 0 < a.length := List.length_pos_of_ne_nil hne
        have hn : (look (a ++ A.dash :: (b ++ l))).2 - (a.length - 1) = b.length + 1 := by omega
        obtain ⟨c, b, rfl⟩ := List.exists_cons_of_ne_nil hb'
        obtain ⟨hc, hb⟩ := List.forall_mem_cons.mp hb
        rw [hn, scan, List.cons_append, List.length_cons, scan, hc, Bool.not_true, scan_field hb,
          Nat.sub_self, scan_ends hr hl]

theorem Apart.ends (h : Apart A l) : Ends A l :=
  fun c hc => (h c hc).left

-- The fields of a word after the first, as the text behind it.
theorem exists_tail (b : List α) (fs : List (List α)) (hr : Reads A look isMark greedy) (hl : Apart A l) :
    ∃ m, [A.dash].intercalate (b :: fs) ++ l = b ++ m ∧ Ends A m ∧
      scan A look 0 true m = scan A look 0 true ([A.dash].intercalate fs ++ l) := by
  cases fs
  case nil => exact ⟨l, by simp, hl.ends, by simp⟩
  case cons f fs =>
    refine ⟨A.dash :: ([A.dash].intercalate (f :: fs) ++ l), ?_, ?_, scan_outside hr A.noField⟩
    case refine_1 => simp [List.intercalate_cons_cons]
    case refine_2 => simpa [Ends] using A.noField

theorem scan_cons_cons {fs : List (List α)} (hr : Reads A look isMark greedy) (ha : Field A a)
    (hb : Field A b) (hl : Apart A l) :
    scan A look 0 true ([A.dash].intercalate (a :: b :: fs) ++ l) =
      if isMark a b then
        (a ++ A.dash :: b) ::
          if greedy then
            scan A look 0 true ([A.dash].intercalate fs ++ l)
          else
            scan A look 0 true ([A.dash].intercalate (b :: fs) ++ l)
      else
        scan A look 0 true ([A.dash].intercalate (b :: fs) ++ l) := by
  obtain ⟨m, hm, hends, hscan⟩ := exists_tail b fs hr hl
  have hab : [A.dash].intercalate (a :: b :: fs) ++ l = a ++ A.dash :: (b ++ m) := by
    rw [← hm]
    simp [List.intercalate_cons_cons]
  rw [hab, scan_pair hr ha hb hends, hscan, hm]

-- The fields of a word, and then what follows the word.
theorem scan_fields {fs : List (List α)} (hr : Reads A look isMark greedy) (hf : ∀ f ∈ fs, Field A f)
    (hl : Apart A l) :
    scan A look 0 true ([A.dash].intercalate fs ++ l) = marks A isMark greedy fs ++ scan A look 0 true l := by
  fun_induction marks A isMark greedy fs
  case case1 a b fs hm hi hi' =>
    obtain ⟨ha, hf⟩ := List.forall_mem_cons.mp hf
    obtain ⟨hb, hfs⟩ := List.forall_mem_cons.mp hf
    rw [scan_cons_cons hr ha hb hl, if_pos hm, hi' hf, hi hfs]
    split <;> rfl
  case case2 a b fs hm hi =>
    obtain ⟨ha, hf⟩ := List.forall_mem_cons.mp hf
    rw [scan_cons_cons hr ha (hf b (by simp)) hl, if_neg hm, hi hf]
  case case3 fs hfs =>
    cases fs
    case nil => rfl
    case cons a fs =>
      cases fs
      case nil => simpa using scan_alone hr (hf a (by simp)) hl.ends fun h => (hl _ h).right rfl
      case cons b fs => exact (hfs a b fs rfl).elim

end Scan

variable [DecidableEq α]

def words (A : Alphabet α) (l : List α) : List (List α) :=
  l.splitOnP fun a => !A.isField a && a ≠ A.dash

def fields (A : Alphabet α) (w : List α) : List (List α) :=
  w.splitOn A.dash

-- The marks of a text, word by word.
def marksIn (A : Alphabet α) (isMark : List α → List α → Bool) (greedy : Bool) (l : List α) :
    List (List α) :=
  (words A l).flatMap fun w => marks A isMark greedy (fields A w)

section MarksIn

variable {A : Alphabet α} {look : List α → Option (List α) × Nat} {isMark : List α → List α → Bool}
  {greedy : Bool} {l w : List α}

theorem of_mem_splitOn {d c : α} {f : List α} (hf : f ∈ w.splitOn d) (hc : c ∈ f) : c ∈ w ∧ c ≠ d := by
  induction w generalizing f
  case nil => simp_all
  case cons x w hi =>
    rw [List.splitOn_cons_eq_if_modifyHead] at hf
    split at hf
    case isTrue =>
      cases List.mem_cons.mp hf
      case inl h => simp [h] at hc
      case inr h => exact (hi h hc).imp_left (List.mem_cons_of_mem _)
    case isFalse hx =>
      obtain ⟨g, gs, hg⟩ := List.exists_cons_of_ne_nil (List.splitOn_ne_nil d w)
      rw [hg, List.modifyHead_cons] at hf
      rw [hg] at hi
      cases List.mem_cons.mp hf
      case inr h => exact (hi (List.mem_cons_of_mem _ h) hc).imp_left (List.mem_cons_of_mem _)
      case inl h =>
        rw [h] at hc
        cases List.mem_cons.mp hc
        case inl h => simpa [h] using hx
        case inr h => exact (hi List.mem_cons_self h).imp_left (List.mem_cons_of_mem _)

theorem field_of_mem_fields {f : List α} (hw : ∀ c ∈ w, A.isField c ∨ c = A.dash) (hf : f ∈ fields A w) :
    Field A f := by
  intro c hc
  obtain ⟨hcw, hd⟩ := of_mem_splitOn hf hc
  exact (hw c hcw).resolve_right hd

theorem scan_word (hr : Reads A look isMark greedy) (hw : ∀ c ∈ w, A.isField c ∨ c = A.dash)
    (hl : Apart A l) :
    scan A look 0 true (w ++ l) = marks A isMark greedy (fields A w) ++ scan A look 0 true l := by
  rw [← scan_fields hr (fun _ => field_of_mem_fields hw) hl, fields, List.intercalate_splitOn]

theorem words_of_forall (hw : ∀ c ∈ w, A.isField c ∨ c = A.dash) : words A w = [w] :=
  List.splitOnP_eq_singleton fun c hc => by
    cases hw c hc <;> simp_all

theorem words_append_cons {c : α} (hc : A.isField c = false) (hd : c ≠ A.dash) :
    words A (w ++ c :: l) = words A w ++ words A l :=
  List.splitOnP_append_cons _ _ (by simp [hc, hd])

-- A word between two characters that belong to none.
theorem mem_words {c d : α} {m : List α} (hw : ∀ c ∈ w, A.isField c ∨ c = A.dash)
    (hc : A.isField c = false) (hc' : c ≠ A.dash) (hd : A.isField d = false) (hd' : d ≠ A.dash) :
    w ∈ words A (l ++ c :: (w ++ d :: m)) := by
  rw [words_append_cons hc hc', words_append_cons hd hd', words_of_forall hw]
  simp

theorem marks_pair {a b : List α} (ha : A.dash ∉ a) (hb : A.dash ∉ b) (hm : isMark a b) :
    marks A isMark greedy (fields A (a ++ A.dash :: b)) = [a ++ A.dash :: b] := by
  rw [fields, List.splitOn_append_cons_self_of_not_mem ha, List.splitOn_eq_singleton hb]
  cases greedy <;> simp [marks, hm]

-- A text is a word, or a word with something apart behind it.
theorem word_cases (l : List α) :
    ∃ w, (∀ c ∈ w, A.isField c ∨ c = A.dash) ∧
      (l = w ∨ ∃ c m, l = w ++ c :: m ∧ A.isField c = false ∧ c ≠ A.dash) := by
  induction l
  case nil => exact ⟨[], by simp, .inl rfl⟩
  case cons x l hi =>
    obtain ⟨w, hw, hl⟩ := hi
    by_cases hx : A.isField x ∨ x = A.dash
    case neg =>
      rw [not_or, Bool.not_eq_true] at hx
      exact ⟨[], by simp, .inr ⟨x, l, rfl, hx.left, hx.right⟩⟩
    case pos =>
      refine ⟨x :: w, List.forall_mem_cons.mpr ⟨hx, hw⟩, ?_⟩
      rcases hl with rfl | ⟨c, m, rfl, hc⟩
      case inl => exact .inl rfl
      case inr => exact .inr ⟨c, m, rfl, hc⟩

-- A scanner that reads the marks finds exactly them, in their order.
theorem Reads.scan_eq (hr : Reads A look isMark greedy) :
    scan A look 0 true l = marksIn A isMark greedy l := by
  induction hn : l.length using Nat.strongRecOn generalizing l
  case ind n hi =>
    obtain ⟨w, hw, rfl | ⟨c, m, rfl, hc, hd⟩⟩ := word_cases (A := A) l
    case inl =>
      have hs := scan_word (l := []) hr hw (by simp [Apart])
      simpa [marksIn, words_of_forall hw, scan] using hs
    case inr =>
      have hm : scan A look 0 true m = marksIn A isMark greedy m :=
        hi m.length (by simp [← hn]; omega) rfl
      rw [scan_word hr hw (by simp [Apart, hc, hd]), scan_outside hr hc, hm, marksIn, marksIn,
        words_append_cons hc hd, words_of_forall hw]
      rfl

end MarksIn

end Scan
