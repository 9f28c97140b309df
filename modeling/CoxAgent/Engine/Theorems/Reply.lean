import CoxAgent.Backlog.Theorems.Parsing
import CoxAgent.Engine.Tools

namespace ToolCall

open Json (Reader)

variable {fits : List Char → Bool} {call : ToolCall} {pat pre post o l : List Char} {c : Char}

section Fences

theorem splitAt_eq_none (h : ¬pat <:+: l) : splitAt pat l = none := by
  induction l
  case nil         => exact if_neg fun hn => h (by rw [hn])
  case cons c l hi =>
    rw [List.infix_cons_iff, not_or, ← List.isPrefixOf_iff_prefix] at h
    rw [splitAt, if_neg h.left, hi h.right, Option.map_none]

-- The first occurrence of a pattern that does not begin before.
theorem splitAt_eq_some (post : List Char) (hp : pat ≠ []) (h : ¬pat <:+: pre ++ pat.dropLast) :
    splitAt pat (pre ++ (pat ++ post)) = some (pre, post) := by
  induction pre
  case nil =>
    obtain ⟨c, pat, rfl⟩ := List.exists_cons_of_ne_nil hp
    have hpre : (c :: pat).isPrefixOf (c :: (pat ++ post)) := List.isPrefixOf_iff_prefix.mpr ⟨post, rfl⟩
    rw [List.nil_append, List.cons_append, splitAt, if_pos hpre]
    simp
  case cons c pre hi =>
    rw [List.cons_append, List.infix_cons_iff, not_or] at h
    have hn : ¬pat <+: c :: (pre ++ (pat ++ post)) := by
      intro hpre
      have hfront : pre ++ pat.dropLast <+: pre ++ (pat ++ post) :=
        (List.prefix_append_right_inj pre).mpr ((List.dropLast_prefix pat).trans (List.prefix_append pat post))
      refine h.left (List.prefix_of_prefix_length_le hpre (List.cons_prefix_cons.mpr ⟨rfl, hfront⟩) ?_)
      · rw [List.length_cons, List.length_append, List.length_dropLast]
        omega
    rw [List.cons_append, splitAt, if_neg (by simpa using hn), hi h.right]
    rfl

end Fences

section Braces

theorem objectSlice_cons {depth : Int} {inStr escaped : Bool} {slice : List Char} :
    objectSlice depth inStr escaped slice (c :: l) =
      let s := Parsing.scanStep { depth, inString := inStr, escaped, start := some slice } c
      match s.out with
      | []     => objectSlice s.depth s.inString s.escaped (slice ++ [c]) l
      | o :: _ => some o := by
  rw [objectSlice, Parsing.scanStep]
  split_ifs <;> simp_all

variable {lim : Json.Limits} {p p' : Reader} {text cs : List Char}

theorem objectSlice_object (hl : p.Lettered) (hr : p.nesting.getLast? = some true) (h : p.run lim cs = some p')
    (hp : p'.Closed) (hc : cs.getLast? = some '}') :
    objectSlice (p.nesting.count true) p.inText.isSome (p.inText = some .escaped) text (cs ++ post) =
      some (text ++ cs) := by
  induction cs generalizing p text
  case nil          => contradiction
  case cons c cs hi =>
    rw [Reader.run_cons, Option.bind_eq_some_iff] at h
    obtain ⟨p₁, h₁, h⟩ := h
    have hl₁ := (Reader.step_move hl h₁).2
    rw [List.cons_append, objectSlice_cons]
    have hscan := @Parsing.scanStep_scanOf c lim p p₁ text [] hl hr h₁
    rw [Parsing.scanOf] at hscan
    cases hscan
    case inl hs =>
      cases cs
      case nil =>
        cases h
        obtain ⟨v, rfl⟩ := hp
        exact absurd hs.1 (by simp [Reader.nesting])
      case cons d cs =>
        rw [List.getLast?_cons_cons] at hc
        simp only [hs.2, Parsing.scanOf]
        rw [hi hl₁ hs.1 h hc, List.append_assoc, List.singleton_append]
    case inr hs =>
      cases cs
      case nil          => simp only [hs.2, List.nil_append]
      case cons d cs =>
        -- Nothing but blanks comes after an object, and the brace would come after it.
        rw [List.getLast?_cons_cons] at hc
        exact absurd (Reader.run_closed hs.1 h _ (List.mem_of_getLast? hc)) (by decide)

end Braces

section Calls

-- The text is an object without anything around it that asks for the call.
structure Renders (fits : List Char → Bool) (o : List Char) (call : ToolCall) : Prop where
  first : o.head? = some '{'
  last  : o.getLast? = some '}'
  read  : Json.read (Parsing.valueLimits fits) o >>= ofJson = some call

theorem ofJson_num (text : List Char) : ofJson (.num text) = none :=
  rfl

theorem objectSlice_renders (h : Renders fits o call) :
    objectSlice 0 false false [] (o ++ post) = some o := by
  obtain ⟨cs, rfl⟩ := List.head?_eq_some_iff.mp h.first
  obtain ⟨v, hv, hi⟩ := Option.bind_eq_some_iff.mp h.read
  obtain ⟨p, hp, hr⟩ := Option.bind_eq_some_iff.mp hv
  rw [Reader.run_cons] at hp
  have hl := h.last
  cases cs
  case nil       => contradiction
  case cons c cs =>
    rw [List.getLast?_cons_cons] at hl
    have hn : ∀ text, v ≠ .num text := by
      rintro text rfl
      rw [ofJson_num] at hi
      contradiction
    have hopen : Reader.init.step (Parsing.valueLimits fits) '{' = some ⟨.keyOrEnd, [.obj [] []]⟩ := rfl
    rw [hopen, Option.bind_some] at hp
    exact objectSlice_object (p := ⟨.keyOrEnd, [.obj [] []]⟩) trivial rfl hp ⟨v, Reader.closed_of_result hr hn⟩ hl

-- The call that a bare object asks for.
theorem extract_bare (h : Renders fits o call) (hp : '{' ∉ pre) (hf : ¬openingFence <:+: pre ++ (o ++ post)) :
    extractJsonBlock (pre ++ (o ++ post)) = some o := by
  have hd : (pre ++ (o ++ post)).dropWhile (· ≠ '{') = o ++ post := by
    obtain ⟨l, hl⟩ := List.head?_eq_some_iff.mp h.first
    rw [List.dropWhile_append_of_pos ?_, hl]
    · rfl
    · intro c hc
      simpa using fun he : c = '{' => hp (he ▸ hc)
  rw [extractJsonBlock, splitAt_eq_none hf, hd]
  exact objectSlice_renders h

variable {gap gap' body : List Char}

theorem tick_not_mem (h : ∀ c ∈ gap, Text.isWhitespace c) : '`' ∉ gap :=
  fun hm => absurd (h _ hm) (by decide)

-- What is between the first fence and the next one.
theorem extract_fenced (post : List Char) (hf : ¬openingFence <:+: pre)
    (hb : ¬closingFence <:+: body ++ closingFence.dropLast) :
    extractJsonBlock (pre ++ (openingFence ++ (body ++ (closingFence ++ post)))) = some (Text.trimChars body) := by
  have hopen : ¬openingFence <:+: pre ++ openingFence.dropLast := fun h =>
    hf (Lists.infix_of_concat_infix_append (a := 'n') (p := "```jso".toList) (by decide) h)
  have hsplit := splitAt_eq_some (body ++ (closingFence ++ post)) (by decide) hopen
  have hclose := splitAt_eq_some post (by decide) hb
  rw [extractJsonBlock, hsplit]
  simp only [Option.bind_eq_bind, Option.bind_some, hclose]

-- A fence does not begin in an object and end after it.
theorem closing_of_ends (hl : o.getLast? = some '}') (hg' : ∀ c ∈ gap', Text.isWhitespace c)
    (h : closingFence <:+: o ++ (gap' ++ closingFence.dropLast)) : closingFence <:+: o := by
  obtain ⟨a, rfl⟩ := List.getLast?_eq_some_iff.mp hl
  rw [List.append_assoc, List.singleton_append, Text.infix_append_cons (by decide) (by decide)] at h
  cases h
  case inl h => exact h.trans (List.prefix_append a _).isInfix
  case inr h => exact absurd (Lists.infix_of_cons_infix_append (tick_not_mem hg') h).length_le (by decide)

theorem trimChars_object (h : Renders fits o call) (hg : ∀ c ∈ gap, Text.isWhitespace c)
    (hg' : ∀ c ∈ gap', Text.isWhitespace c) : Text.trimChars (gap ++ (o ++ gap')) = o := by
  have hne : o ≠ [] := by
    rintro rfl
    exact absurd h.first (by simp)
  have hhead : ¬Text.isWhitespace (o.head hne) := by
    rw [Option.some.inj ((List.head?_eq_some_head hne).symm.trans h.first)]
    decide
  have hlast : ¬Text.isWhitespace (o.getLast hne) := by
    rw [Option.some.inj ((List.getLast?_eq_some_getLast hne).symm.trans h.last)]
    decide
  have hs : Text.strip Text.isWhitespace (gap ++ o ++ gap') = gap.dropWhile Text.isWhitespace ++ o ++
      gap'.rdropWhile Text.isWhitespace := Text.strip_append hne hhead hlast
  rw [List.dropWhile_eq_nil_iff.mpr hg, List.rdropWhile_eq_nil_iff.mpr hg', List.nil_append, List.append_nil,
    List.append_assoc] at hs
  exact hs

-- The fence that ends a block in the middle of an object cuts it.
theorem read_cut {a b : List Char} (h : Renders fits (a ++ (closingFence ++ b)) call)
    (hg : ∀ c ∈ gap, Text.isWhitespace c) :
    Json.read (Parsing.valueLimits fits) (Text.trimChars (gap ++ a)) >>= ofJson = none := by
  have hne : a ≠ [] := by
    rintro rfl
    exact absurd (Option.some.inj h.first) (by decide)
  have hhead : ¬Text.isWhitespace (a.head hne) := by
    have hfirst := h.first
    rw [List.head?_append_of_ne_nil a hne] at hfirst
    rw [Option.some.inj ((List.head?_eq_some_head hne).symm.trans hfirst)]
    decide
  obtain ⟨w, hw⟩ : Text.trimChars (gap ++ a) <+: a := by
    rw [Text.trimChars, Text.dropWhile_append_of_head hne hhead, List.dropWhile_eq_nil_iff.mpr hg, List.nil_append]
    exact List.rdropWhile_prefix _ _
  obtain ⟨v, hv, -⟩ := Option.bind_eq_some_iff.mp h.read
  rw [← hw, List.append_assoc] at hv
  cases hread : Json.read (Parsing.valueLimits fits) (Text.trimChars (gap ++ a))
  case none   => rfl
  case some u =>
    by_cases hnum : ∀ text, u ≠ .num text
    case pos =>
      have hblank := Json.blank_of_read_append hread hnum hv '`' (by simp [closingFence])
      exact absurd hblank (by decide)
    case neg =>
      simp only [not_forall, not_not] at hnum
      obtain ⟨text, rfl⟩ := hnum
      exact ofJson_num text

end Calls

section Print

-- A call as it is printed, without the character of the fences.
def fields : ToolCall → List (String × String)
  | readFile path               => [("tool", "read_file"), ("path", path)]
  | writeFile path content      => [("tool", "write_file"), ("path", path), ("content", content)]
  | patchFile path find replace => [("tool", "patch_file"), ("path", path), ("find", find), ("replace", replace)]
  | listDir path                => [("tool", "list_dir"), ("path", path)]
  | run cmd                     => [("tool", "run"), ("cmd", cmd)]
  | done summary                => [("tool", "done"), ("summary", summary)]

def print (call : ToolCall) : List Char :=
  Json.objectText (· = '`') call.fields

theorem textField_quoted {also : Char → Bool} {l : List (String × String)} {name : String} :
    textField (.obj (l.map (Json.quoted also))) name = (l.reverse.find? (·.1 = name)).map Prod.snd := by
  have hunquote (f : String × String) :
      decide (Json.unescape (Json.quoted also f).1 = some name) = decide (f.1 = name) := by
    rw [Json.quoted, Json.unescape_quote]
    simp
  rw [textField, field, ← List.map_reverse, List.find?_map]
  simp only [Function.comp_def, hunquote]
  cases l.reverse.find? (·.1 = name)
  case none   => rfl
  case some f => exact Json.unescape_quote

theorem ofJson_fields {also : Char → Bool} : ofJson (.obj (call.fields.map (Json.quoted also))) = some call := by
  simp only [ofJson, textField_quoted]
  cases call
  all_goals simp [fields]

theorem fields_ne_nil : call.fields ≠ [] := by
  cases call
  all_goals exact List.cons_ne_nil _ _

theorem renders_print : Renders fits call.print call where
  first := Json.objectText_first
  last  := Json.objectText_last
  read  := by
    have htext (s : String) : (Parsing.valueLimits fits).text (Json.quote (· = '`') s) := by
      simp [Parsing.valueLimits, Json.unescape_quote]
    rw [print, Json.read_objectText htext rfl fields_ne_nil]
    exact ofJson_fields

theorem tick_not_mem_print : '`' ∉ call.print := by
  have hquote (s : String) : '`' ∉ Json.quote (· = '`') s :=
    Json.not_mem_quote (by decide) (by decide) (by decide) (by decide)
  exact Json.not_mem_objectText (by decide) hquote

end Print

-- What is understood of a reply. A call can be asked for in any spelling of its object, with prose around it: bare, if
-- no brace and no fence comes before, or in a block. In a block it is not understood exactly if a text in the object
-- has a fence itself. Every call has a spelling without one.
theorem read_reply (fits : List Char → Bool) (call : ToolCall) :
    (∃ o, Renders fits o call ∧ ¬closingFence <:+: o) ∧
    ∀ o, Renders fits o call →
      (∀ pre post, '{' ∉ pre → ¬openingFence <:+: pre ++ (o ++ post) →
        ofContent fits (.ofList (pre ++ (o ++ post))) = some call) ∧
      ∀ pre gap gap' post, ¬openingFence <:+: pre → (∀ c ∈ gap, Text.isWhitespace c) →
        (∀ c ∈ gap', Text.isWhitespace c) →
        ofContent fits (.ofList (pre ++ (openingFence ++ (gap ++ (o ++ (gap' ++ (closingFence ++ post))))))) =
          if closingFence <:+: o then none else some call := by
  refine ⟨⟨call.print, renders_print, fun h => ?_⟩, fun o h => ⟨?bare, ?fenced⟩⟩
  · exact tick_not_mem_print (h.subset (by decide))
  case bare =>
    intro pre post hp hf
    rw [ofContent, String.toList_ofList, extract_bare h hp hf]
    exact h.read
  case fenced =>
    intro pre gap gap' post hf hg hg'
    rw [ofContent, String.toList_ofList]
    split
    case isTrue hcut =>
      obtain ⟨a, b, rfl, hfirst⟩ := Lists.exists_first_infix (by decide) hcut
      have hb : ¬closingFence <:+: (gap ++ a) ++ closingFence.dropLast := fun hin => by
        rw [List.append_assoc] at hin
        exact hfirst (Lists.infix_of_cons_infix_append (tick_not_mem hg) hin)
      have hext := extract_fenced (b ++ (gap' ++ (closingFence ++ post))) hf hb
      simp only [List.append_assoc] at hext ⊢
      rw [hext]
      exact read_cut h hg
    case isFalse hn =>
      have hb : ¬closingFence <:+: (gap ++ (o ++ gap')) ++ closingFence.dropLast := fun hin => by
        rw [List.append_assoc, List.append_assoc] at hin
        exact hn (closing_of_ends h.last hg' (Lists.infix_of_cons_infix_append (tick_not_mem hg) hin))
      have hext := extract_fenced post hf hb
      rw [trimChars_object h hg hg'] at hext
      simp only [List.append_assoc] at hext ⊢
      rw [hext]
      exact h.read

end ToolCall
