import CoxAgent.Lib.Json
import CoxAgent.Lib.Lines

-- What can be told from the text of a JSON value.
namespace Json

variable {lim : Limits} {r r' r₁ r₂ : Reader} {stack : List Frame} {c : Char} {cs ds : List Char} {v w : Json}
variable {items : List Json} {fields : List (List Char × Json)}

-- Whether an object is open, and not an array.
def Frame.isObject : Frame → Bool
  | .arr _   => false
  | .obj _ _ => true

namespace Reader

-- Where in a string the reader is, if it is in one.
def inText (r : Reader) : Option StrMode :=
  match r.mode with
  | .str _ m _ => some m
  | _          => none

-- What is open, the innermost first.
def nesting (r : Reader) : List Bool :=
  r.stack.map Frame.isObject

-- A value has been read, and nothing is open.
def Closed (r : Reader) : Prop :=
  ∃ v, r = ⟨.after v, []⟩

-- The rest of a literal is made of letters.
def Lettered (r : Reader) : Prop :=
  match r.mode with
  | .lit rest _ => ∀ c ∈ rest, c.isAlpha
  | _           => True

-- All that a character does to the strings, the objects and the arrays that are open.
inductive Move (r : Reader) (c : Char) (r' : Reader) : Prop
  | quote (h : r.inText = none) (hc : c = '\x22') (ht : r'.inText = some .plain) (hn : r'.nesting = r.nesting)
  | unquote (h : r.inText = some .plain) (hc : c = '\x22') (ht : r'.inText = none) (hn : r'.nesting = r.nesting)
  | text {m m' : StrMode} (h : r.inText = some m) (hc : ¬(m = .plain ∧ c = '\x22')) (hm : m.next c = some m')
      (ht : r'.inText = some m') (hn : r'.nesting = r.nesting)
  | openObj (h : r.inText = none) (hc : c = '{') (ht : r'.inText = none) (hn : r'.nesting = true :: r.nesting)
  | closeObj (h : r.inText = none) (hc : c = '}') (ht : r'.inText = none) (hn : true :: r'.nesting = r.nesting)
      (ha : r'.stack = [] → r'.Closed)
  | openArr (h : r.inText = none) (hc : c = '[') (ht : r'.inText = none) (hn : r'.nesting = false :: r.nesting)
  | closeArr (h : r.inText = none) (hc : c = ']') (ht : r'.inText = none) (hn : false :: r'.nesting = r.nesting)
  | other (h : r.inText = none) (hc : c ∉ ['\x22', '{', '}', '[', ']']) (ht : r'.inText = none)
      (hn : r'.nesting = r.nesting)

section Step

theorem run_append : r.run lim (cs ++ ds) = (r.run lim cs).bind (·.run lim ds) :=
  List.foldlM_append ..

theorem run_cons : r.run lim (c :: cs) = (r.step lim c).bind (·.run lim cs) :=
  List.foldlM_cons ..

theorem closed_of_stack (v : Json) (h : (⟨.after v, stack⟩ : Reader).stack = []) :
    (⟨.after v, stack⟩ : Reader).Closed :=
  ⟨v, congrArg (Reader.mk _) h⟩

theorem other_of_isBlank (h : isBlank c) : c ∉ ['\x22', '{', '}', '[', ']'] := by
  simp only [isBlank, Bool.or_eq_true, decide_eq_true_eq, or_assoc] at h
  obtain h | h | h | h := h <;> subst h <;> decide

theorem next_ne {m m' : NumMode} (h : m.next c = some m') : c ∉ ['\x22', '{', '}', '[', ']'] ∧ ¬isBlank c := by
  have hd : c.isDigit → c ∉ ['\x22', '{', '}', '[', ']'] ∧ ¬isBlank c := by
    intro hd
    simp only [List.mem_cons, List.not_mem_nil, or_false, isBlank, Bool.or_eq_true, decide_eq_true_eq, not_or]
    refine ⟨⟨?_, ?_, ?_, ?_, ?_⟩, ⟨⟨?_, ?_⟩, ?_⟩, ?_⟩ <;> (rintro rfl; exact absurd hd (by decide))
  have hc : c ∈ ['0', '.', 'e', 'E', '+', '-'] → c ∉ ['\x22', '{', '}', '[', ']'] ∧ ¬isBlank c := by
    intro hm
    simp only [List.mem_cons, List.not_mem_nil, or_false] at hm
    obtain h | h | h | h | h | h := hm <;> subst h <;> decide
  have hs : c.isDigit ∨ c ∈ ['0', '.', 'e', 'E', '+', '-'] := by
    by_contra hn
    rw [not_or] at hn
    simp only [List.mem_cons, List.not_mem_nil, or_false, not_or] at hn
    cases m <;> simp [NumMode.next, hn] at h
  exact hs.elim hd hc

theorem move_openValue (hr : r.inText = none) (h : openValue lim c r.stack = some r') :
    Move r c r' ∧ r'.Lettered := by
  unfold openValue at h
  split at h
  case isTrue hc =>
    cases h
    exact ⟨.quote hr hc rfl rfl, trivial⟩
  split at h
  case isTrue hc =>
    split at h
    case isFalse => contradiction
    case isTrue  =>
      cases h
      exact ⟨.openArr hr hc rfl rfl, trivial⟩
  split at h
  case isTrue hc =>
    split at h
    case isFalse => contradiction
    case isTrue  =>
      cases h
      exact ⟨.openObj hr hc rfl rfl, trivial⟩
  split at h
  case isTrue hc =>
    cases h
    exact ⟨.other hr (hc ▸ by decide) rfl rfl, List.all_eq_true.mp (by decide)⟩
  split at h
  case isTrue hc =>
    cases h
    exact ⟨.other hr (hc ▸ by decide) rfl rfl, List.all_eq_true.mp (by decide)⟩
  split at h
  case isTrue hc =>
    cases h
    exact ⟨.other hr (hc ▸ by decide) rfl rfl, List.all_eq_true.mp (by decide)⟩
  split at h
  case isTrue hc =>
    cases h
    exact ⟨.other hr (hc ▸ by decide) rfl rfl, trivial⟩
  obtain ⟨m, hm, he⟩ := Option.map_eq_some_iff.mp h
  cases he
  exact ⟨.other hr (next_ne hm).1 rfl rfl, trivial⟩

theorem move_closeValue (hr : r.inText = none) (h : closeValue v c r.stack = some r') :
    Move r c r' ∧ r'.Lettered := by
  unfold closeValue at h
  split at h
  case h_1 => contradiction
  case h_2 items stack hs =>
    split at h
    case isTrue hc =>
      cases h
      exact ⟨.other hr (hc ▸ by decide) rfl (by simp [nesting, hs, Frame.isObject]), trivial⟩
    split at h
    case isFalse => contradiction
    case isTrue hc =>
      cases h
      exact ⟨.closeArr hr hc rfl (by simp [nesting, hs, Frame.isObject]), trivial⟩
  case h_3 fields name stack hs =>
    split at h
    case isTrue hc =>
      cases h
      exact ⟨.other hr (hc ▸ by decide) rfl (by simp [nesting, hs, Frame.isObject]), trivial⟩
    split at h
    case isFalse => contradiction
    case isTrue hc =>
      cases h
      exact ⟨.closeObj hr hc rfl (by simp [nesting, hs, Frame.isObject]) (closed_of_stack _), trivial⟩

theorem move_endObject (hr : r.inText = none) (hc : c = '}') (h : endObject r.stack = some r') :
    Move r c r' ∧ r'.Lettered := by
  unfold endObject at h
  split at h
  case h_2 => contradiction
  case h_1 fields name stack hs =>
    cases h
    exact ⟨.closeObj hr hc rfl (by simp [nesting, hs, Frame.isObject]) (closed_of_stack _), trivial⟩

theorem move_endArray (hr : r.inText = none) (hc : c = ']') (h : endArray r.stack = some r') :
    Move r c r' ∧ r'.Lettered := by
  unfold endArray at h
  split at h
  case h_2 => contradiction
  case h_1 items stack hs =>
    cases h
    exact ⟨.closeArr hr hc rfl (by simp [nesting, hs, Frame.isObject]), trivial⟩

theorem move_endString {isKey : Bool} {raw : List Char} (hr : r.inText = some .plain) (hc : c = '\x22')
    (h : endString lim isKey raw r.stack = some r') : Move r c r' ∧ r'.Lettered := by
  unfold endString at h
  split at h
  case isTrue  => contradiction
  case isFalse =>
    split at h
    case isFalse =>
      cases h
      exact ⟨.unquote hr hc rfl rfl, trivial⟩
    case isTrue =>
      split at h
      case h_2 => contradiction
      case h_1 fields name stack hs =>
        cases h
        exact ⟨.unquote hr hc rfl (by simp [nesting, hs, Frame.isObject]), trivial⟩

theorem step_move (hl : r.Lettered) (h : r.step lim c = some r') : Move r c r' ∧ r'.Lettered := by
  obtain ⟨mode, stack⟩ := r
  have blank {m : Mode} (ht : inText ⟨m, stack⟩ = none) (hl : Lettered ⟨m, stack⟩) (hb : isBlank c) :
      Move ⟨m, stack⟩ c ⟨m, stack⟩ ∧ Lettered ⟨m, stack⟩ :=
    ⟨.other ht (other_of_isBlank hb) ht rfl, hl⟩
  cases mode
  case value =>
    simp only [step] at h
    split at h
    case isTrue hb => cases h; exact blank rfl trivial hb
    case isFalse   => exact move_openValue rfl h
  case valueOrEnd =>
    simp only [step] at h
    split at h
    case isTrue hb => cases h; exact blank rfl trivial hb
    split at h
    case isTrue hc => exact move_endArray rfl hc h
    case isFalse   => exact move_openValue rfl h
  case key =>
    simp only [step] at h
    split at h
    case isTrue hb => cases h; exact blank rfl trivial hb
    split at h
    case isTrue hc => cases h; exact ⟨.quote rfl hc rfl rfl, trivial⟩
    case isFalse   => contradiction
  case keyOrEnd =>
    simp only [step] at h
    split at h
    case isTrue hb => cases h; exact blank rfl trivial hb
    split at h
    case isTrue hc => exact move_endObject rfl hc h
    split at h
    case isTrue hc => cases h; exact ⟨.quote rfl hc rfl rfl, trivial⟩
    case isFalse   => contradiction
  case colon =>
    simp only [step] at h
    split at h
    case isTrue hb => cases h; exact blank rfl trivial hb
    split at h
    case isTrue hc => cases h; exact ⟨.other rfl (hc ▸ by decide) rfl rfl, trivial⟩
    case isFalse   => contradiction
  case str isKey m raw =>
    simp only [step] at h
    split at h
    case isTrue hc => exact move_endString (hc.1 ▸ rfl) hc.2 h
    case isFalse hc =>
      obtain ⟨m', hm, he⟩ := Option.map_eq_some_iff.mp h
      cases he
      exact ⟨.text rfl hc hm rfl rfl, trivial⟩
  case lit rest v =>
    have other (x : Char) (hx : x.isAlpha) (he : c = x) : c ∉ ['\x22', '{', '}', '[', ']'] := by
      subst he
      simp only [List.mem_cons, List.not_mem_nil, or_false, not_or]
      refine ⟨?_, ?_, ?_, ?_, ?_⟩ <;> (rintro rfl; exact absurd hx (by decide))
    have hl : ∀ c ∈ rest, c.isAlpha := hl
    match rest with
    | []           => contradiction
    | [x]          =>
      simp only [step, Option.ite_none_right_eq_some, Option.some.injEq] at h
      obtain ⟨he, rfl⟩ := h
      exact ⟨.other rfl (other x (hl x (by simp)) he) rfl rfl, trivial⟩
    | x :: y :: zs =>
      simp only [step, Option.ite_none_right_eq_some, Option.some.injEq] at h
      obtain ⟨he, rfl⟩ := h
      exact ⟨.other rfl (other x (hl x (by simp)) he) rfl rfl, fun a ha => hl a (List.mem_cons_of_mem x ha)⟩
  case num m text =>
    simp only [step] at h
    split at h
    case h_1 m' hm => cases h; exact ⟨.other rfl (next_ne hm).1 rfl rfl, trivial⟩
    case h_2 =>
      split at h
      case isTrue => contradiction
      split at h
      case isTrue hb => cases h; exact ⟨.other rfl (other_of_isBlank hb) rfl rfl, trivial⟩
      case isFalse   => exact move_closeValue rfl h
  case after v =>
    simp only [step] at h
    split at h
    case isTrue hb => cases h; exact blank rfl trivial hb
    case isFalse   => exact move_closeValue rfl h

end Step

section Run

theorem step_closed (hr : r.Closed) (h : r.step lim c = some r') : isBlank c ∧ r' = r := by
  obtain ⟨v, rfl⟩ := hr
  simp only [step] at h
  split at h
  case isTrue hb => exact ⟨hb, (Option.some.inj h).symm⟩
  case isFalse   => contradiction

-- Nothing but blanks comes after a value.
theorem run_closed (hr : r.Closed) (h : r.run lim cs = some r') : ∀ c ∈ cs, isBlank c := by
  induction cs
  case nil => simp
  case cons c cs hi =>
    rw [run_cons, Option.bind_eq_some_iff] at h
    obtain ⟨r₁, h₁, h⟩ := h
    obtain ⟨hb, rfl⟩ := step_closed hr h₁
    exact List.forall_mem_cons.mpr ⟨hb, hi h⟩

-- A carriage return before a line feed is a blank, if it is read at all.
theorem step_cr (hl : r.Lettered) (h : r.step lim '\r' = some r') :
    r.step lim '\n' = some r' ∧ r'.step lim '\n' = some r' := by
  obtain ⟨mode, stack⟩ := r
  cases mode
  case str isKey m raw =>
    have hm : m.next '\r' = none := by
      cases m
      case hex left => cases left <;> rfl
      all_goals rfl
    simp [step, hm] at h
  case lit rest v =>
    have hr : '\r' ∉ rest := fun hm => absurd (hl '\r' hm) (by decide)
    match rest with
    | []           => contradiction
    | [x]          =>
      simp only [step, Option.ite_none_right_eq_some] at h
      exact absurd (h.1 ▸ List.mem_cons_self) hr
    | x :: y :: zs =>
      simp only [step, Option.ite_none_right_eq_some] at h
      exact absurd (h.1 ▸ List.mem_cons_self) hr
  case num m text =>
    have hr : m.next '\r' = none := by cases m <;> decide
    have hn : m.next '\n' = none := by cases m <;> decide
    have hb : isBlank '\r' := by decide
    have hc : isBlank '\n' := by decide
    simp only [step, hr, hn, hb, hc, if_true] at h ⊢
    split at h
    case isTrue   => contradiction
    case isFalse hf =>
      rw [if_neg hf]
      cases h
      exact ⟨rfl, rfl⟩
  all_goals
    cases h
    exact ⟨rfl, rfl⟩

theorem run_unix (hl : r.Lettered) (h : r.run lim cs = some r') : r.run lim (Text.unix cs) = some r' := by
  induction cs generalizing r
  case nil => exact h
  case cons c cs hi =>
    rw [run_cons, Option.bind_eq_some_iff] at h
    obtain ⟨r₁, h₁, h⟩ := h
    have hi := hi (step_move hl h₁).2 h
    by_cases hc : c = '\r' ∧ cs.head? = some '\n'
    case neg =>
      rw [Text.unix, if_neg hc, run_cons, h₁]
      exact hi
    case pos =>
      obtain ⟨rfl, hn⟩ := hc
      obtain ⟨cs, rfl⟩ := List.head?_eq_some_iff.mp hn
      obtain ⟨hs, hs₁⟩ := step_cr hl h₁
      have hu : Text.unix ('\n' :: cs) = '\n' :: Text.unix cs := Text.unix_cons (.inl (by decide))
      rw [hu, run_cons, hs₁] at hi
      rw [Text.unix, if_pos ⟨rfl, hn⟩, hu, run_cons, hs]
      exact hi

end Run

theorem closed_of_result (h : r.result lim = some v) (hv : ∀ text, v ≠ .num text) : r = ⟨.after v, []⟩ := by
  obtain ⟨mode, stack⟩ := r
  cases stack
  case cons => simp [result] at h
  case nil =>
    cases mode
    case after w => rw [Option.some.inj h]
    case num m text =>
      simp only [result, Option.ite_none_right_eq_some, Option.some.injEq] at h
      exact absurd h.2.symm (hv text)
    all_goals contradiction

end Reader

theorem read_unix (h : read lim cs = some v) : read lim (Text.unix cs) = some v := by
  obtain ⟨r, hr, hv⟩ := Option.bind_eq_some_iff.mp h
  have hl : Reader.init.Lettered := trivial
  rw [read, Reader.run_unix hl hr]
  exact hv

-- What is more than a value ends with blanks.
theorem blank_of_read_append (h : read lim cs = some v) (hv : ∀ text, v ≠ .num text)
    (h' : read lim (cs ++ ds) = some w) : ∀ c ∈ ds, isBlank c := by
  obtain ⟨r, hr, hv'⟩ := Option.bind_eq_some_iff.mp h
  obtain ⟨r', hr', -⟩ := Option.bind_eq_some_iff.mp h'
  rw [Reader.run_append, hr] at hr'
  exact Reader.run_closed ⟨v, Reader.closed_of_result hv' hv⟩ hr'

section Quote

-- Characters are written as they are, but for quotes, backslashes, control characters and what else is to be
-- written by its code unit.
def hexDigit (n : Nat) : Char :=
  Char.ofNat (if n < 10 then 0x30 + n else 0x57 + n)

def Escaped (also : Char → Bool) (c : Char) : Prop :=
  c.toNat < 0x80 ∧ (c = '\x22' ∨ c = '\x5c' ∨ c.toNat < 0x20 ∨ also c)

instance (also : Char → Bool) (c : Char) : Decidable (Escaped also c) :=
  inferInstanceAs (Decidable (_ ∧ _))

def quoteChar (also : Char → Bool) (c : Char) : List Char :=
  if Escaped also c then ['\x5c', 'u', '0', '0', hexDigit (c.toNat / 16), hexDigit (c.toNat % 16)] else [c]

def quote (also : Char → Bool) (s : String) : List Char :=
  s.toList.flatMap (quoteChar also)

variable {also : Char → Bool} {s : String} {isKey : Bool} {raw : List Char} {n : Nat}

theorem hexDigit_spec (h : n < 16) :
    isHex (hexDigit n) ∧ hexValue (hexDigit n) = n ∧ hexDigit n ≠ '\x22' ∧ hexDigit n ≠ '\x5c' := by
  have hall : ∀ n : Fin 16, isHex (hexDigit n) ∧ hexValue (hexDigit n) = n ∧ hexDigit n ≠ '\x22' ∧
      hexDigit n ≠ '\x5c' := by
    decide
  exact hall ⟨n, h⟩

theorem step_text {m k : StrMode} (hc : ¬(m = .plain ∧ c = '\x22')) (hm : m.next c = some k) :
    (⟨.str isKey m raw, stack⟩ : Reader).step lim c = some ⟨.str isKey k (raw ++ [c]), stack⟩ := by
  simp only [Reader.step]
  rw [if_neg hc, hm, Option.map_some]

theorem run_quoteChar : (⟨.str isKey .plain raw, stack⟩ : Reader).run lim (quoteChar also c) =
    some ⟨.str isKey .plain (raw ++ quoteChar also c), stack⟩ := by
  unfold quoteChar
  split
  case isTrue h  =>
    obtain ⟨hhigh, -⟩ := hexDigit_spec (n := c.toNat / 16) (by have := h.left; omega)
    obtain ⟨hlow, -⟩ := hexDigit_spec (n := c.toNat % 16) (by omega)
    have hfour : StrMode.next (.hex 1) (hexDigit (c.toNat / 16)) = some (.hex 0) := if_pos hhigh
    have hlast : StrMode.next (.hex 0) (hexDigit (c.toNat % 16)) = some .plain := if_pos hlow
    rw [Reader.run_cons, step_text (by decide) (k := .escaped) rfl, Option.bind_some,
      Reader.run_cons, step_text (by decide) (k := .hex 3) rfl, Option.bind_some,
      Reader.run_cons, step_text (by decide) (k := .hex 2) rfl, Option.bind_some,
      Reader.run_cons, step_text (by decide) (k := .hex 1) rfl, Option.bind_some,
      Reader.run_cons, step_text (by simp) hfour, Option.bind_some,
      Reader.run_cons, step_text (by simp) hlast, Option.bind_some]
    simp [Reader.run]
  case isFalse h =>
    have hc : c ≠ '\x22' ∧ c ≠ '\x5c' ∧ ¬c.toNat < 0x20 := by
      refine ⟨?_, ?_, fun hlt => h ⟨by omega, .inr (.inr (.inl hlt))⟩⟩
      · rintro rfl
        exact h ⟨by decide, .inl rfl⟩
      · rintro rfl
        exact h ⟨by decide, .inr (.inl rfl)⟩
    have hnext : StrMode.next .plain c = some .plain := by
      rw [StrMode.next, if_neg hc.right.left, if_neg hc.right.right]
    rw [Reader.run_cons, step_text (fun hq => hc.left hq.right) hnext]
    rfl

theorem run_quote : (⟨.str isKey .plain raw, stack⟩ : Reader).run lim (quote also s) =
    some ⟨.str isKey .plain (raw ++ quote also s), stack⟩ := by
  unfold quote
  induction s.toList generalizing raw
  case nil            => simp [Reader.run]
  case cons c cs hi   =>
    rw [List.flatMap_cons, Reader.run_append, run_quoteChar, Option.bind_some, hi, List.append_assoc]

theorem unescape_quoteChar {out : List Char} :
    (quoteChar also c).foldlM unescapeStep (out, .char) = some (out ++ [c], .char) := by
  unfold quoteChar
  split
  case isTrue h  =>
    have hlt := h.left
    obtain ⟨-, hhigh, -⟩ := hexDigit_spec (n := c.toNat / 16) (by omega)
    obtain ⟨-, hlow, -⟩ := hexDigit_spec (n := c.toNat % 16) (by omega)
    have hunit : (((0 * 16 + hexValue '0') * 16 + hexValue '0') * 16 + c.toNat / 16) * 16 + c.toNat % 16 = c.toNat := by
      have hzero : hexValue '0' = 0 := rfl
      omega
    have hcode : codeUnit out c.toNat none = some (out ++ [c], .char) := by
      rw [codeUnit, if_neg (by omega), if_neg (by omega), Char.ofNat_toNat]
    simp only [List.foldlM_cons, List.foldlM_nil, unescapeStep, if_true, Option.bind_eq_bind, Option.bind_some, hhigh,
      hlow, hunit, hcode, Option.pure_def]
  case isFalse h =>
    have hc : c ≠ '\x5c' := by
      rintro rfl
      exact h ⟨by decide, .inr (.inl rfl)⟩
    simp [unescapeStep, hc]

theorem unescape_quote : unescape (quote also s) = some s := by
  have hfold (cs out : List Char) :
      (cs.flatMap (quoteChar also)).foldlM unescapeStep (out, .char) = some (out ++ cs, .char) := by
    induction cs generalizing out
    case nil          => simp
    case cons c cs hi =>
      rw [List.flatMap_cons, List.foldlM_append, unescape_quoteChar]
      exact (hi _).trans (by simp)
  rw [unescape, quote, hfold]
  simp

-- What is to be written by its code unit is not in the text.
theorem not_mem_quote (ha : also c) (hc : c.toNat < 0x80) (hn : c ∉ ['\x5c', 'u', '0']) (hx : ¬isHex c) :
    c ∉ quote also s := by
  intro hm
  obtain ⟨c', -, hm⟩ := List.mem_flatMap.mp hm
  unfold quoteChar at hm
  split at hm
  case isTrue h  =>
    obtain ⟨hhigh, -⟩ := hexDigit_spec (n := c'.toNat / 16) (by have := h.left; omega)
    obtain ⟨hlow, -⟩ := hexDigit_spec (n := c'.toNat % 16) (by omega)
    simp only [List.mem_cons, List.not_mem_nil, or_false, not_or] at hm hn
    rcases hm with h | h | h | h | h | h
    · exact hn.left h
    · exact hn.right.left h
    · exact hn.right.right h
    · exact hn.right.right h
    · exact hx (h ▸ hhigh)
    · exact hx (h ▸ hlow)
  case isFalse h =>
    obtain rfl := List.mem_singleton.mp hm
    exact h ⟨hc, .inr (.inr (.inr ha))⟩

-- An object of texts, as it is printed without blanks.
def fieldText (also : Char → Bool) (f : String × String) : List Char :=
  '\x22' :: (quote also f.1 ++ '\x22' :: ':' :: '\x22' :: (quote also f.2 ++ ['\x22']))

def fieldTexts (also : Char → Bool) : List (String × String) → List Char
  | []          => ['}']
  | [f]         => fieldText also f ++ ['}']
  | f :: g :: l => fieldText also f ++ ',' :: fieldTexts also (g :: l)

def objectText (also : Char → Bool) (l : List (String × String)) : List Char :=
  '{' :: fieldTexts also l

def quoted (also : Char → Bool) (f : String × String) : List Char × Json :=
  (quote also f.1, .str (quote also f.2))

variable {key : List Char} {f : String × String} {l : List (String × String)}

theorem run_unquote_key (ht : lim.text raw) :
    (⟨.str true .plain raw, .obj fields key :: stack⟩ : Reader).step lim '\x22' =
      some ⟨.colon, .obj fields raw :: stack⟩ := by
  simp [Reader.step, Reader.endString, ht]

theorem run_unquote_value (ht : lim.text raw) :
    (⟨.str false .plain raw, stack⟩ : Reader).step lim '\x22' = some ⟨.after (.str raw), stack⟩ := by
  simp [Reader.step, Reader.endString, ht]

theorem run_fieldText (ht : ∀ s, lim.text (quote also s)) {m : Mode} (hm : m = .key ∨ m = .keyOrEnd) :
    (⟨m, .obj fields key :: stack⟩ : Reader).run lim (fieldText also f) =
      some ⟨.after (.str (quote also f.2)), .obj fields (quote also f.1) :: stack⟩ := by
  have hopen : (⟨m, .obj fields key :: stack⟩ : Reader).step lim '\x22' =
      some ⟨.str true .plain [], .obj fields key :: stack⟩ := by
    obtain rfl | rfl := hm
    · rfl
    · rfl
  have hcolon {r : List Char} : (⟨.colon, .obj fields r :: stack⟩ : Reader).step lim ':' =
      some ⟨.value, .obj fields r :: stack⟩ := rfl
  have hvalue {r : List Char} : (⟨.value, .obj fields r :: stack⟩ : Reader).step lim '\x22' =
      some ⟨.str false .plain [], .obj fields r :: stack⟩ := rfl
  rw [fieldText, Reader.run_cons, hopen, Option.bind_some, Reader.run_append, run_quote, Option.bind_some,
    List.nil_append, Reader.run_cons, run_unquote_key (ht _), Option.bind_some, Reader.run_cons, hcolon,
    Option.bind_some, Reader.run_cons, hvalue, Option.bind_some, Reader.run_append, run_quote, Option.bind_some,
    List.nil_append, Reader.run_cons, run_unquote_value (ht _), Option.bind_some]
  rfl

theorem run_fieldTexts (ht : ∀ s, lim.text (quote also s)) {m : Mode} (hm : m = .key ∨ m = .keyOrEnd) (hl : l ≠ []) :
    (⟨m, .obj fields key :: stack⟩ : Reader).run lim (fieldTexts also l) =
      some ⟨.after (.obj (fields ++ l.map (quoted also))), stack⟩ := by
  induction l generalizing fields key m
  case nil         => contradiction
  case cons f l hi =>
    cases l
    case nil =>
      rw [fieldTexts, Reader.run_append, run_fieldText ht hm, Option.bind_some]
      rfl
    case cons g l =>
      have hcomma {r : List Char} {v : Json} : (⟨.after v, .obj fields r :: stack⟩ : Reader).step lim ',' =
          some ⟨.key, .obj (fields ++ [(r, v)]) [] :: stack⟩ := rfl
      rw [fieldTexts, Reader.run_append, run_fieldText ht hm, Option.bind_some, Reader.run_cons, hcomma,
        Option.bind_some, hi (.inl rfl) (List.cons_ne_nil g l)]
      simp [quoted]

-- What is printed is read again.
theorem read_objectText (ht : ∀ s, lim.text (quote also s)) (hd : lim.depth 1) (hl : l ≠ []) :
    read lim (objectText also l) = some (.obj (l.map (quoted also))) := by
  have hopen : Reader.init.step lim '{' = some ⟨.keyOrEnd, [.obj [] []]⟩ := by
    simp [Reader.init, Reader.step, Reader.openValue, isBlank, hd]
  rw [read, objectText, Reader.run_cons, hopen, Option.bind_some, run_fieldTexts ht (.inr rfl) hl]
  rfl

theorem objectText_first : (objectText also l).head? = some '{' :=
  rfl

theorem objectText_last : (objectText also l).getLast? = some '}' := by
  have hlast : (fieldTexts also l).getLast? = some '}' := by
    induction l
    case nil         => rfl
    case cons f l hi =>
      cases l
      case nil      => simp [fieldTexts]
      case cons g l => simp [fieldTexts, List.getLast?_append, List.getLast?_cons, hi]
  rw [objectText, List.getLast?_cons, hlast]
  rfl

theorem not_mem_objectText (hc : c ∉ ['\x22', ':', ',', '{', '}']) (h : ∀ s, c ∉ quote also s) :
    c ∉ objectText also l := by
  simp only [List.mem_cons, List.not_mem_nil, or_false, not_or] at hc
  obtain ⟨hquote, hcolon, hcomma, hopen, hclose⟩ := hc
  have hfield (f : String × String) : c ∉ fieldText also f := by
    simp [fieldText, hquote, hcolon, h]
  have hfields : c ∉ fieldTexts also l := by
    induction l
    case nil         => simpa [fieldTexts] using hclose
    case cons f l hi =>
      cases l
      case nil      => simp [fieldTexts, hfield, hclose]
      case cons g l => simp [fieldTexts, hfield, hcomma, hi]
  exact List.not_mem_cons_of_ne_of_not_mem hopen hfields

end Quote

end Json
