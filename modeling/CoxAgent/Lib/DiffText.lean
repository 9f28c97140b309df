import CoxAgent.Lib.Diff

-- What can be told from the text of a diff.
namespace Diff

variable {n : Name} {b : UInt8} {c dir : Char} {p q l m : List Char} {f : File} {g : PlainFile}
variable {d : List File} {es : List Entry}

def File.first (f : File) : List Char :=
  "diff --git ".toList ++ f.names

section Bytes

theorem forall_byte {P : UInt8 → Prop} (h : ∀ i : Fin 256, P (.ofFin i)) (b : UInt8) : P b :=
  h b.toFin

-- What the escapes are made of.
def escapes : List Char :=
  ['\x5c', '\x22', 'a', 'b', 't', 'n', 'v', 'f', 'r', '0', '1', '2', '3', '4', '5', '6', '7']

def isPrinted (c : Char) : Bool :=
  0x20 ≤ c.toNat ∧ c.toNat < 0x7f

theorem all_printByte : ∀ b, (printByte b).all isPrinted :=
  forall_byte (by decide +kernel)

theorem all_escapes : ∀ b, ¬isPlain b → (printByte b).all (· ∈ escapes) :=
  forall_byte (by decide +kernel)

theorem mem_escapes (hb : ¬isPlain b) (hc : c ∈ printByte b) : c ∈ escapes := by
  simpa using List.all_eq_true.mp (all_escapes b hb) c hc

theorem printByte_ne_nil (b : UInt8) : printByte b ≠ [] := by
  unfold printByte
  split <;> simp

end Bytes

section Names

def byte (c : Char) : UInt8 :=
  c.val.toUInt8

-- The characters that a name shows as they are, and that separate nothing.
def isSimple (c : Char) : Bool :=
  0x20 < c.toNat ∧ c.toNat < 0x7f ∧ c ≠ '\x22' ∧ c ≠ '\x5c'

-- The words of a diff that are neither names nor contents.
def fixedWords : List (List Char) :=
  ["diff".toList, "--git".toList, "---".toList, "+++".toList, devNull]

-- A text that is found in the print of a name only if it is in the name.
structure Fragment (p : List Char) : Prop where
  nonempty : p ≠ []
  simple   : ∀ c ∈ p, isSimple c
  head     : ∀ c ∈ p.take 1, c ∉ ['+', '-', '/'] ++ escapes
  foreign  : ∀ w ∈ fixedWords, ¬p <:+: w
  timeless : ∃ c ∈ p, c ∉ stampChars

instance : Decidable (Fragment p) :=
  decidable_of_iff (p ≠ [] ∧ p.all isSimple ∧ (p.take 1).all (· ∉ ['+', '-', '/'] ++ escapes) ∧
      fixedWords.all (¬p <:+: ·) ∧ p.any (· ∉ stampChars))
    ⟨fun ⟨hn, hp, hh, hw, ht⟩ =>
        ⟨hn, by simpa using hp, by simpa using hh, by simpa using hw, by simpa using ht⟩,
      fun ⟨hn, hp, hh, hw, ht⟩ =>
        ⟨hn, by simpa using hp, by simpa using hh, by simpa using hw, by simpa using ht⟩⟩

theorem isSimple_iff :
    isSimple c ↔ 0x20 < c.toNat ∧ c.toNat < 0x7f ∧ c.toNat ≠ 0x22 ∧ c.toNat ≠ 0x5c := by
  have he {a : Char} : c = a ↔ c.toNat = a.toNat := ⟨congrArg _, fun h => Char.ext (UInt32.toNat_inj.mp h)⟩
  simp only [isSimple, decide_eq_true_eq, ne_eq, he]
  rfl

theorem toNat_byte (hc : isSimple c) : (byte c).toNat = c.toNat := by
  have hm : (byte c).toNat = c.toNat % 256 := rfl
  have := isSimple_iff.mp hc
  omega

theorem isPlain_byte (hc : isSimple c) : isPlain (byte c) := by
  have := isSimple_iff.mp hc
  simp only [isPlain, UInt8.le_iff_toNat_le, UInt8.lt_iff_toNat_lt, ← UInt8.toNat_inj, ne_eq, toNat_byte hc,
    decide_eq_true_eq]
  exact ⟨this.1.le, this.2⟩

theorem printByte_byte (hc : isSimple c) : printByte (byte c) = [c] := by
  rw [printByte, if_pos (isPlain_byte hc), toNat_byte hc, Char.ofNat_toNat]

-- A byte starts with a simple character only if it is this character.
theorem head_printByte : ∀ b, ((printByte b).take 1).all fun c => !isSimple c || byte c = b :=
  forall_byte (by decide +kernel)

theorem utf8EncodeChar_eq (hc : isSimple c) : String.utf8EncodeChar c = [byte c] := by
  apply String.utf8EncodeChar_eq_singleton
  rw [Char.utf8Size_eq_one_iff, UInt32.le_iff_toNat_le]
  exact (isSimple_iff.mp hc).2.1.le

theorem name_eq {s : String} (h : ∀ c ∈ s.toList, isSimple c) : name s = s.toList.map byte := by
  rw [name, List.map_eq_flatMap]
  exact List.flatMap_congr fun c hc => utf8EncodeChar_eq (h c hc)

theorem prefix_printBytes (hp : ∀ c ∈ p, isSimple c) :
    p <+: n.flatMap printByte ↔ p.map byte <+: n := by
  induction p generalizing n
  case nil => simp
  case cons c p hi =>
    rw [List.forall_mem_cons] at hp
    cases n
    case nil => simp
    case cons b n =>
      rw [List.flatMap_cons, List.map_cons, List.cons_prefix_cons]
      by_cases hb : byte c = b
      case pos =>
        rw [← hb, printByte_byte hp.1, List.singleton_append, List.cons_prefix_cons, hi hp.2]
        simp
      case neg =>
        refine iff_of_false (fun h => hb ?_) (fun h => hb h.1)
        have ⟨a, l, he⟩ := List.exists_cons_of_ne_nil (printByte_ne_nil b)
        rw [he, List.cons_append, List.cons_prefix_cons] at h
        have hc : !isSimple c || byte c = b :=
          List.all_eq_true.mp (head_printByte b) c (by simp [he, h.1])
        simpa [hp.1] using hc

-- Nothing starts in a part without its first character.
theorem infix_skip (hp : p ≠ []) (hl : ∀ c ∈ p.take 1, c ∉ l) : p <:+: l ++ m ↔ p <:+: m := by
  have ⟨c, q, he⟩ := List.exists_cons_of_ne_nil hp
  subst he
  replace hl : c ∉ l := hl c (by simp)
  induction l
  case nil => rfl
  case cons a l hi =>
    rw [List.mem_cons, not_or] at hl
    rw [List.cons_append, List.infix_cons_iff, List.cons_prefix_cons, or_iff_right fun h => hl.1 h.1]
    exact hi hl.2

namespace Fragment

variable (h : Fragment p)
include h

theorem not_mem (hc : ¬isSimple c) : c ∉ p :=
  fun hm => hc (h.simple c hm)

theorem infix_printBytes : p <:+: n.flatMap printByte ↔ p.map byte <:+: n := by
  induction n
  case nil => simp
  case cons b n hi =>
    rw [List.flatMap_cons, List.infix_cons_iff, ← hi]
    by_cases hb : isPlain b
    case pos =>
      have hc := @prefix_printBytes (b :: n) p h.simple
      rw [List.flatMap_cons] at hc
      rw [printByte, if_pos hb, List.singleton_append] at hc ⊢
      rw [List.infix_cons_iff, hc]
    case neg =>
      have hs : ∀ c ∈ p.take 1, c ∉ printByte b := fun c hm hc =>
        h.head c hm (List.mem_append_right _ (mem_escapes hb hc))
      rw [infix_skip h.nonempty hs, or_iff_right]
      intro hp
      have ⟨c, q, he⟩ := List.exists_cons_of_ne_nil h.nonempty
      rw [he, List.map_cons, List.cons_prefix_cons] at hp
      exact hb (hp.1 ▸ isPlain_byte (h.simple c (by simp [he])))

theorem infix_printName (hd : dir ∈ escapes) : p <:+: printName dir n ↔ p.map byte <:+: n := by
  have hs : ∀ c ∈ p.take 1, c ∉ ['\x22', dir, '/'] := by
    intro c hm hc
    have hn := h.head c hm
    simp only [List.mem_cons, List.not_mem_nil, or_false] at hc
    have hd : dir ∈ ['+', '-', '/'] ++ escapes := List.mem_append_right _ hd
    obtain hc | hc | hc := hc <;> subst hc
    · exact hn (by decide)
    · exact hn hd
    · exact hn (by decide)
  rw [← h.infix_printBytes, printName]
  split
  case isTrue =>
    change _ <:+: [dir, '/'] ++ _ ↔ _
    exact infix_skip h.nonempty fun c hm hc => hs c hm (List.mem_cons_of_mem _ hc)
  case isFalse =>
    change _ <:+: ['\x22', dir, '/'] ++ _ ++ _ ↔ _
    rw [List.append_assoc, infix_skip h.nonempty hs, Text.infix_append_cons (h.not_mem (by decide)) h.nonempty]
    exact or_iff_left fun hn => h.nonempty (List.infix_nil.mp hn)

theorem infix_first : p <:+: f.first ↔ p.map byte <:+: f.old ∨ p.map byte <:+: f.new := by
  have hb : ' ' ∉ p := h.not_mem (by decide)
  change _ <:+: "diff".toList ++ ' ' :: ("--git".toList ++ ' ' :: f.names) ↔ _
  rw [Text.infix_append_cons hb h.nonempty, Text.infix_append_cons hb h.nonempty, File.names,
    Text.infix_append_cons hb h.nonempty, h.infix_printName (by decide), h.infix_printName (by decide)]
  have hd := h.foreign "diff".toList (by decide)
  have hg := h.foreign "--git".toList (by decide)
  simp only [hd, hg, false_or]

-- A label shows nothing that the first line of its file does not show.
theorem infix_printLabel {sign label : List Char} (hs : sign ∈ ["---".toList, "+++".toList])
    (hl : label = devNull ∨ label = printName 'a' f.old ∨ label = printName 'b' f.new)
    (hp : p <:+: File.printLabel (sign ++ [' ']) label) : p.map byte <:+: f.old ∨ p.map byte <:+: f.new := by
  have hp : p <:+: sign ++ ' ' :: (label ++ if ' ' ∈ label then ['\t'] else []) := by
    simpa [File.printLabel] using hp
  rw [Text.infix_append_cons (h.not_mem (by decide)) h.nonempty] at hp
  have hp := hp.resolve_left (h.foreign sign (by
    simp only [List.mem_cons, List.not_mem_nil, or_false] at hs
    obtain hs | hs := hs <;> simp [fixedWords, hs]))
  have hp : p <:+: label := by
    split at hp
    case isFalse => simpa using hp
    case isTrue =>
      rw [Text.infix_append_cons (h.not_mem (by decide)) h.nonempty] at hp
      exact hp.resolve_right fun hn => h.nonempty (List.infix_nil.mp hn)
  obtain hl | hl | hl := hl
  · exact absurd (hl ▸ hp) (h.foreign _ (by simp [fixedWords]))
  · exact .inl ((h.infix_printName (by decide)).mp (hl ▸ hp))
  · exact .inr ((h.infix_printName (by decide)).mp (hl ▸ hp))

theorem infix_plainLabel {sign : List Char} {name : Line} {stamp : Option Stamp}
    (hs : sign ∈ ["---".toList, "+++".toList]) :
    p <:+: PlainFile.printLabel sign name stamp ↔ p <:+: name.chars := by
  have hf : ¬p <:+: sign := h.foreign sign (by
    simp only [List.mem_cons, List.not_mem_nil, or_false] at hs
    obtain hs | hs := hs <;> simp [fixedWords, hs])
  rw [PlainFile.printLabel, Text.infix_append_cons (h.not_mem (by decide)) h.nonempty, or_iff_right hf]
  cases stamp
  case none => rw [Option.elim_none, List.append_nil]
  case some stamp =>
    rw [Option.elim_some, Text.infix_append_cons (h.not_mem (by decide)) h.nonempty]
    have ⟨c, hc, ht⟩ := h.timeless
    exact or_iff_left fun hi => ht (stamp.timely c (hi.subset hc))

end Fragment

end Names

section Words

-- The names that are printed without quotes and without a blank.
def isWord (n : Name) : Bool :=
  n.all fun b => isPlain b ∧ b ≠ 0x20

theorem all_not_isWhitespace : ∀ b, isPlain b ∧ b ≠ 0x20 → (printByte b).all (!Text.isWhitespace ·) :=
  forall_byte (by decide +kernel)

theorem map_byte_printByte : ∀ b, isPlain b → (printByte b).map byte = [b] :=
  forall_byte (by decide +kernel)

variable (h : isWord n)
include h

theorem isPlain_of_isWord : n.all isPlain := by
  rw [isWord, List.all_eq_true] at h
  rw [List.all_eq_true]
  intro b hb
  have := h b hb
  rw [decide_eq_true_eq] at this
  exact this.1

theorem printName_of_isWord : printName dir n = dir :: '/' :: n.flatMap printByte := by
  rw [printName, if_pos (isPlain_of_isWord h)]

theorem map_byte_printBytes : (n.flatMap printByte).map byte = n := by
  have hp := isPlain_of_isWord h
  rw [List.all_eq_true] at hp
  rw [List.map_flatMap, List.flatMap_congr fun b hb => map_byte_printByte b (hp b hb), List.flatMap_singleton']

theorem not_isWhitespace_printName (hd : !Text.isWhitespace dir) :
    ∀ c ∈ printName dir n, !Text.isWhitespace c := by
  rw [isWord, List.all_eq_true] at h
  intro c hc
  rw [printName_of_isWord (by rw [isWord, List.all_eq_true]; exact h), List.mem_cons, List.mem_cons,
    List.mem_flatMap] at hc
  obtain hc | hc | ⟨b, hb, hc⟩ := hc
  · exact hc ▸ hd
  · exact hc ▸ by decide
  · exact List.all_eq_true.mp (all_not_isWhitespace b (of_decide_eq_true (h b hb))) c hc

end Words

section Whole

theorem isPrinted_of_mem_printBytes (h : c ∈ n.flatMap printByte) : isPrinted c := by
  have ⟨b, _, hc⟩ := List.mem_flatMap.mp h
  exact List.all_eq_true.mp (all_printByte b) c hc

theorem isPrinted_of_mem_printName (hd : dir ∈ escapes) (h : c ∈ printName dir n) : isPrinted c := by
  have he : ∀ c ∈ escapes, isPrinted c := List.all_eq_true.mp (by decide)
  have hp : c ∈ dir :: '/' :: n.flatMap printByte → isPrinted c := by
    intro h
    simp only [List.mem_cons] at h
    obtain h | h | h := h
    · exact h ▸ he dir hd
    · exact h ▸ by decide
    · exact isPrinted_of_mem_printBytes h
  unfold printName at h
  split at h
  case isTrue  => exact hp h
  case isFalse =>
    rw [List.mem_append, List.mem_cons, List.mem_singleton] at h
    obtain (h | h) | h := h
    · exact h ▸ by decide
    · exact hp h
    · exact h ▸ by decide

theorem isPrinted_of_mem_names (h : c ∈ f.names) : isPrinted c := by
  rw [File.names, List.mem_append, List.mem_cons] at h
  obtain h | h | h := h
  · exact isPrinted_of_mem_printName (by decide) h
  · exact h ▸ by decide
  · exact isPrinted_of_mem_printName (by decide) h

theorem isPrinted_of_mem_first (h : c ∈ f.first) : isPrinted c := by
  have hp : ∀ c ∈ "diff --git ".toList, isPrinted c := List.all_eq_true.mp (by decide)
  exact (List.mem_append.mp h).elim (hp c) isPrinted_of_mem_names

theorem isPrinted_of_mem_quoteName (h : c ∈ quoteName n) : isPrinted c := by
  unfold quoteName at h
  split at h
  case isTrue  => exact isPrinted_of_mem_printBytes h
  case isFalse =>
    rw [List.mem_append, List.mem_cons, List.mem_singleton] at h
    obtain (h | h) | h := h
    · exact h ▸ by decide
    · exact isPrinted_of_mem_printBytes h
    · exact h ▸ by decide

theorem isPrinted_of_mem_repr {k : Nat} (h : c ∈ k.repr.toList) : isPrinted c := by
  have := Text.isDigit_of_mem_repr h
  simp only [Char.isDigit, Bool.and_eq_true, decide_eq_true_eq, UInt32.le_iff_toNat_le] at this
  simp only [isPrinted, decide_eq_true_eq]
  have h₁ : '0'.val.toNat = 48 := rfl
  have h₂ : '9'.val.toNat = 57 := rfl
  have h₃ : c.toNat = c.val.toNat := rfl
  omega

theorem isPrinted_of_mem_label (h : c ∈ f.oldLabel ∨ c ∈ f.newLabel) : isPrinted c := by
  have hd : ∀ c ∈ devNull, isPrinted c := List.all_eq_true.mp (by decide)
  cases h
  case inl h =>
    unfold File.oldLabel at h
    split at h
    · exact hd c h
    · exact isPrinted_of_mem_printName (by decide) h
  case inr h =>
    unfold File.newLabel at h
    split at h
    · exact hd c h
    · exact isPrinted_of_mem_printName (by decide) h

theorem break_not_mem (h : ∀ c ∈ l, isPrinted c) : '\n' ∉ l :=
  fun hm => absurd (h _ hm) (by decide)

theorem break_not_mem_digits {k : Nat} : '\n' ∉ Nat.toDigits 10 k := by
  rw [← Nat.toList_repr]
  exact break_not_mem fun _ => isPrinted_of_mem_repr

theorem break_not_mem_quoteName : '\n' ∉ quoteName n :=
  break_not_mem fun _ => isPrinted_of_mem_quoteName

theorem break_not_mem_names : '\n' ∉ f.names :=
  break_not_mem fun _ => isPrinted_of_mem_names

theorem break_not_mem_oldLabel : '\n' ∉ f.oldLabel :=
  break_not_mem fun _ h => isPrinted_of_mem_label (.inl h)

theorem break_not_mem_newLabel : '\n' ∉ f.newLabel :=
  break_not_mem fun _ h => isPrinted_of_mem_label (.inr h)

theorem break_not_mem_printLabel {sign label : List Char} (hs : '\n' ∉ sign) (hl : '\n' ∉ label) :
    '\n' ∉ File.printLabel sign label := by
  simp only [File.printLabel, List.mem_append, hs, hl]
  split <;> simp

theorem break_not_mem_extended : ∀ l ∈ f.extended, '\n' ∉ l := by
  intro l hl
  simp only [File.extended, List.mem_append] at hl
  obtain (hl | hl) | hl := hl
  · cases hm : f.modes <;> simp [hm] at hl
    obtain hl | hl := hl <;> simp [hl, break_not_mem_digits]
  · cases hc : f.change <;> simp [hc] at hl
    case created => simp [hl, break_not_mem_digits]
    case deleted => simp [hl, break_not_mem_digits]
    all_goals obtain hl | hl | hl := hl <;> simp [hl, break_not_mem_digits, break_not_mem_quoteName]
  · cases hi : f.index <;> simp [hi] at hl
    case some index => simp [hl, index.whole]

theorem break_not_mem_hunkLine (h : HunkLine) : '\n' ∉ h.print := by
  cases h
  case context line => exact List.not_mem_cons_of_ne_of_not_mem (by decide) line.whole
  case removed line => exact List.not_mem_cons_of_ne_of_not_mem (by decide) line.whole
  case added line   => exact List.not_mem_cons_of_ne_of_not_mem (by decide) line.whole
  case noNewline    => decide

theorem break_not_mem_header (h : Hunk) : '\n' ∉ h.header := by
  have hr (start count : Nat) : '\n' ∉ printRange start count := by
    unfold printRange
    split <;> simp [break_not_mem_digits]
  have hh : '\n' ∉ (if h.heading.chars = [] then [] else ' ' :: h.heading.chars) := by
    split
    case isTrue  => exact List.not_mem_nil
    case isFalse => exact List.not_mem_cons_of_ne_of_not_mem (by decide) h.heading.whole
  have ha {l m : List Char} (hl : '\n' ∉ l) (hm : '\n' ∉ m) : '\n' ∉ l ++ m :=
    fun h => (List.mem_append.mp h).elim hl hm
  exact ha (ha (ha (ha (ha (by decide) (hr _ _)) (by decide)) (hr _ _)) (by decide)) hh

theorem break_not_mem_hunk (h : Hunk) : ∀ l ∈ h.print, '\n' ∉ l := by
  intro l hl
  rw [Hunk.print, List.mem_cons, List.mem_map] at hl
  obtain hl | ⟨line, _, hl⟩ := hl
  · exact hl ▸ break_not_mem_header h
  · exact hl ▸ break_not_mem_hunkLine line

theorem break_not_mem_print : ∀ l ∈ f.print, '\n' ∉ l := by
  intro l hl
  rw [File.print, List.cons_append, List.mem_cons, List.mem_append] at hl
  obtain hl | hl | hl := hl
  · simp [hl, break_not_mem_names]
  · exact break_not_mem_extended l hl
  · unfold File.printBody at hl
    cases hb : f.body
    case unchanged => simp [hb] at hl
    case binary    => simp_all [break_not_mem_oldLabel, break_not_mem_newLabel]
    case hunks hs  =>
      simp only [hb, List.mem_cons, List.mem_flatMap] at hl
      obtain hl | hl | ⟨h, _, hl⟩ := hl
      · exact hl ▸ break_not_mem_printLabel (by decide) break_not_mem_oldLabel
      · exact hl ▸ break_not_mem_printLabel (by decide) break_not_mem_newLabel
      · exact break_not_mem_hunk h l hl

theorem break_not_mem_plainLabel {sign : List Char} {name : Line} {stamp : Option Stamp} (hs : '\n' ∉ sign) :
    '\n' ∉ PlainFile.printLabel sign name stamp := by
  have ht : '\n' ∉ stamp.elim [] ('\t' :: ·.chars) := by
    cases stamp
    case none       => exact List.not_mem_nil
    case some stamp =>
      refine List.not_mem_cons_of_ne_of_not_mem (by decide) fun hc => ?_
      exact absurd (stamp.timely _ hc) (by decide)
  simp [PlainFile.printLabel, hs, name.whole, ht]

theorem break_not_mem_plain : ∀ l ∈ g.print, '\n' ∉ l := by
  intro l hl
  rw [PlainFile.print, PlainFile.labels, List.mem_append, List.mem_cons, List.mem_singleton] at hl
  obtain (hl | hl) | hl := hl
  · exact hl ▸ break_not_mem_plainLabel (by decide)
  · exact hl ▸ break_not_mem_plainLabel (by decide)
  · have ⟨h, _, hl⟩ := List.mem_flatMap.mp hl
    exact break_not_mem_hunk h l hl

-- The lines of the text are the printed ones.
theorem lines_unified :
    Text.lines (unified es) = (es.flatMap Entry.print).map fun l => .ofList (Text.stripCr l) := by
  refine Text.lines_unlines fun l hl => ?_
  have ⟨e, _, hl⟩ := List.mem_flatMap.mp hl
  cases e
  case git   => exact break_not_mem_print l hl
  case plain => exact break_not_mem_plain l hl

theorem flatMap_git {f : Entry → List (List Char)} : (d.map .git).flatMap f = d.flatMap fun g => f (.git g) :=
  List.flatMap_map _ _ _

theorem lines_text : Text.lines (text d) = (d.flatMap File.print).map fun l => .ofList (Text.stripCr l) := by
  rw [text, lines_unified, flatMap_git]
  rfl

end Whole

section Header

variable {c : Char}

theorem printRange_eq (start count : Nat) (m : List Char) : ∃ c ∈ [',', ' '], ∃ m',
    printRange start count ++ " @@".toList ++ m = start.repr.toList ++ c :: m' := by
  unfold printRange
  split
  case isTrue  => exact ⟨' ', by decide, _, by rw [List.append_assoc]; rfl⟩
  case isFalse => exact ⟨',', by decide, _, by simp only [List.append_assoc, List.cons_append]; rfl⟩

theorem not_mem_printRange {start count : Nat} (hc : !c.isDigit) (hs : c ≠ ',') : c ∉ printRange start count := by
  unfold printRange
  split
  case isTrue  => exact Text.not_mem_repr hc
  case isFalse =>
    rw [List.mem_append, List.mem_cons, not_or, not_or]
    exact ⟨Text.not_mem_repr hc, hs, Text.not_mem_repr hc⟩

-- What is around the start on the new side.
theorem header_eq (h : Hunk) : ∃ l c m, '+' ∉ l ∧ '\r' ∉ l ∧ c ∈ [',', ' '] ∧
    h.header = "@@ ".toList ++ (l ++ '+' :: (h.newStart.repr.toList ++ c :: m)) := by
  let l := '-' :: (printRange h.oldStart h.oldCount ++ [' '])
  have hl {c : Char} (hd : !c.isDigit) (hs : c ∉ ['-', ',', ' ']) : c ∉ l := by
    simp only [List.mem_cons, List.not_mem_nil, or_false, not_or] at hs
    simp only [l, List.mem_cons, List.mem_append, List.not_mem_nil, or_false, not_or]
    exact ⟨hs.left, not_mem_printRange hd hs.right.left, hs.right.right⟩
  have ⟨c, hc, m, hm⟩ := printRange_eq h.newStart h.newCount
    (if h.heading.chars = [] then [] else ' ' :: h.heading.chars)
  have hopen : "@@ -".toList = "@@ ".toList ++ ['-'] := by decide
  have hplus : " +".toList = [' ', '+'] := by decide
  have hheader : h.header = "@@ ".toList ++ (l ++ '+' :: (printRange h.newStart h.newCount ++ " @@".toList ++
      if h.heading.chars = [] then [] else ' ' :: h.heading.chars)) := by
    delta Hunk.header
    simp only [l, hopen, hplus, List.append_assoc, List.cons_append, List.nil_append]
  exact ⟨l, c, m, hl (by decide) (by decide), hl (by decide) (by decide), hc,
    hheader.trans (congrArg (fun x => "@@ ".toList ++ (l ++ '+' :: x)) hm)⟩

end Header

section Loud

-- A line that opens no file, labels no file and changes nothing.
structure Quiet (l : List Char) : Prop where
  plus  : '+' ∉ l.take 1
  minus : '-' ∉ l.take 1
  diff  : ¬"diff ".toList <+: l

instance : Decidable (Quiet l) :=
  decidable_of_iff ('+' ∉ l.take 1 ∧ '-' ∉ l.take 1 ∧ ¬"diff ".toList <+: l)
    ⟨fun ⟨hp, hm, hd⟩ => ⟨hp, hm, hd⟩, fun ⟨hp, hm, hd⟩ => ⟨hp, hm, hd⟩⟩

theorem File.print_eq : f.print = f.first :: (f.extended ++ f.printBody) :=
  rfl

def File.labels (f : File) : List (List Char) :=
  match f.body with
  | .hunks _ => [printLabel "--- ".toList f.oldLabel, printLabel "+++ ".toList f.newLabel]
  | _        => []

-- The lines of a file that are not quiet.
def File.loud (f : File) : List (List Char) :=
  f.first :: f.labels ++ (f.lines.filter HunkLine.isChange).map HunkLine.print

-- The lines that name the file.
def Entry.headers : Entry → List (List Char)
  | git f   => f.first :: f.labels
  | plain f => f.labels

def Entry.loud (e : Entry) : List (List Char) :=
  e.headers ++ (e.lines.filter HunkLine.isChange).map HunkLine.print

theorem mem_labels (h : l ∈ f.labels) : ∃ sign ∈ ["---".toList, "+++".toList], ∃ label,
    (label = devNull ∨ label = printName 'a' f.old ∨ label = printName 'b' f.new) ∧
    l = File.printLabel (sign ++ [' ']) label := by
  have ho : f.oldLabel = devNull ∨ f.oldLabel = printName 'a' f.old ∨ f.oldLabel = printName 'b' f.new := by
    unfold File.oldLabel
    split
    · exact .inl rfl
    · exact .inr (.inl rfl)
  have hn : f.newLabel = devNull ∨ f.newLabel = printName 'a' f.old ∨ f.newLabel = printName 'b' f.new := by
    unfold File.newLabel
    split
    · exact .inl rfl
    · exact .inr (.inr rfl)
  unfold File.labels at h
  split at h
  case h_2 => contradiction
  case h_1 =>
    rw [List.mem_cons, List.mem_singleton] at h
    cases h
    case inl h => exact ⟨_, List.mem_cons_self, _, ho, h⟩
    case inr h => exact ⟨_, List.mem_cons_of_mem _ List.mem_cons_self, _, hn, h⟩

theorem diff_prefix_first : "diff ".toList <+: f.first :=
  have hd : "diff ".toList <+: "diff --git ".toList := by decide
  hd.trans (List.prefix_append _ f.names)

theorem take_first : f.first.take 1 = ['d'] :=
  rfl

theorem quiet_cons (hc : c ∉ ['+', '-', 'd']) : Quiet (c :: l) := by
  simp only [List.mem_cons, List.not_mem_nil, or_false, not_or] at hc
  refine ⟨?_, ?_, fun h => hc.2.2 (List.cons_prefix_cons.mp h).1.symm⟩
  · simpa using Ne.symm hc.1
  · simpa using Ne.symm hc.2.1

theorem quiet_deleted : Quiet ('d' :: 'e' :: l) := by
  constructor <;> simp

theorem quiet_extended : ∀ l ∈ f.extended, Quiet l := by
  intro l hl
  simp only [File.extended, List.mem_append] at hl
  obtain (hl | hl) | hl := hl
  · cases hm : f.modes <;> simp [hm] at hl
    obtain hl | hl := hl <;> exact hl ▸ quiet_cons (by decide)
  · cases hc : f.change <;> simp [hc] at hl
    case created => exact hl ▸ quiet_cons (by decide)
    case deleted => exact hl ▸ quiet_deleted
    all_goals obtain hl | hl | hl := hl <;> exact hl ▸ quiet_cons (by decide)
  · cases hi : f.index <;> simp [hi] at hl
    case some index => exact hl ▸ quiet_cons (by decide)

theorem quiet_header (h : Hunk) : Quiet h.header :=
  quiet_cons (by decide)

theorem quiet_hunkLine (h : HunkLine) (hc : ¬h.isChange) : Quiet h.print := by
  cases h
  case context   => exact quiet_cons (by decide)
  case noNewline => exact quiet_cons (by decide)
  case removed   => exact absurd rfl hc
  case added     => exact absurd rfl hc

variable {t : List Char → Bool} (ht : ∀ l, Quiet l → ¬t l)
include ht

theorem filter_hunkLines (hs : List HunkLine) :
    (hs.map HunkLine.print).filter t = ((hs.filter HunkLine.isChange).map HunkLine.print).filter t := by
  induction hs
  case nil => rfl
  case cons h hs hi =>
    by_cases hc : h.isChange
    case pos => simp [hc, hi, List.filter_cons]
    case neg => simp [hc, hi, ht _ (quiet_hunkLine h hc)]

theorem filter_hunks (hs : List Hunk) : (hs.flatMap Hunk.print).filter t =
    (((hs.flatMap Hunk.lines).filter HunkLine.isChange).map HunkLine.print).filter t := by
  induction hs
  case nil => rfl
  case cons h hs hi =>
    rw [List.flatMap_cons, List.filter_append, hi, Hunk.print, List.filter_cons_of_neg (ht _ (quiet_header h)),
      filter_hunkLines ht, List.flatMap_cons, List.filter_append, List.map_append, List.filter_append]

-- A test that quiet lines fail sees nothing but the loud ones.
theorem filter_print : f.print.filter t = f.loud.filter t := by
  have he : f.extended.filter t = [] := List.filter_eq_nil_iff.mpr fun l hl => ht l (quiet_extended l hl)
  have hb : f.printBody.filter t =
      (f.labels ++ (f.lines.filter HunkLine.isChange).map HunkLine.print).filter t := by
    unfold File.printBody File.labels File.lines File.hunks
    cases f.body
    case unchanged => rfl
    case binary    =>
      refine List.filter_eq_nil_iff.mpr fun l hl => ht l ?_
      rw [List.mem_singleton] at hl
      exact hl ▸ quiet_cons (by decide)
    case hunks hs  =>
      change (_ :: _ :: _).filter t = (_ :: _ :: _).filter t
      simp only [List.filter_cons, filter_hunks ht]
      rfl
  rw [File.print_eq, File.loud, List.cons_append, List.filter_cons, List.filter_cons, List.filter_append, he,
    hb, List.nil_append]

theorem filter_unified : (es.flatMap Entry.print).filter t = (es.flatMap Entry.loud).filter t := by
  induction es
  case nil => rfl
  case cons e es hi =>
    have he : e.print.filter t = e.loud.filter t := by
      cases e
      case git   => exact filter_print ht
      case plain =>
        rw [Entry.print, PlainFile.print, List.filter_append, filter_hunks ht, ← List.filter_append]
        rfl
    rw [List.flatMap_cons, List.flatMap_cons, List.filter_append, List.filter_append, hi, he]

theorem filter_text : (d.flatMap File.print).filter t = (d.flatMap File.loud).filter t := by
  have h := @filter_unified (d.map .git) t ht
  rw [flatMap_git, flatMap_git] at h
  exact h

end Loud

end Diff
