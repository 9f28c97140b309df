import CoxAgent.Forge.Policy
import CoxAgent.Lib.DiffText

namespace Diff

variable {d : List Entry} {e : Entry} {f : File} {g : PlainFile} {h : HunkLine} {l : List Char} {p : String}
variable {bound : Nat}

-- A path of the diff decides how everything else ships.
def Sensitive (d : List Entry) : Prop :=
  ∃ p ∈ sensitivePaths, ∃ e ∈ d, e.Names p

-- The gate is right about the size of the diff and about its paths.
def Measured (d : List Entry) (bound : Nat) : Prop :=
  (needsHumanEyes (unified d) bound).isSome ↔ bound < (changed d).length ∨ Sensitive d

-- A change that looks like a label once it has its sign.
def HunkLine.disguised : HunkLine → Bool
  | added l   => "++".toList.isPrefixOf l.chars
  | removed l => "--".toList.isPrefixOf l.chars
  | _         => false

def HunkLine.content : HunkLine → List Char
  | context l | removed l | added l => l.chars
  | noNewline                       => []

-- Such a line shows a sensitive path.
def HunkLine.Alarming (h : HunkLine) : Prop :=
  h.disguised ∧ ∃ p ∈ sensitivePaths, p.toList <:+: h.content

section Gate

-- The two tests of the gate, for a line as it is printed.
def counts (l : List Char) : Bool :=
  let l := String.ofList (Text.stripCr l)
  (Text.startsWith l "+" || Text.startsWith l "-") && !isFileHeader l

def shows (p : String) (l : List Char) : Bool :=
  let l := String.ofList (Text.stripCr l)
  Text.contains l p && (isFileHeader l || Text.startsWith l "diff ")

theorem counts_iff : counts l ↔
    ("+".toList <+: l ∨ "-".toList <+: l) ∧ ¬("+++".toList <+: l ∨ "---".toList <+: l) := by
  simp only [counts, isFileHeader, Bool.and_eq_true, Bool.or_eq_true, Bool.not_eq_true', ← Bool.not_eq_true,
    @Text.startsWith_stripCr l "+" (by decide), @Text.startsWith_stripCr l "-" (by decide),
    @Text.startsWith_stripCr l "+++" (by decide),
    @Text.startsWith_stripCr l "---" (by decide)]

theorem shows_iff (hp : '\r' ∉ p.toList) : shows p l ↔ p.toList <:+: l ∧
    (("+++".toList <+: l ∨ "---".toList <+: l) ∨ "diff ".toList <+: l) := by
  simp only [shows, isFileHeader, Bool.and_eq_true, Bool.or_eq_true, Text.contains_iff, String.toList_ofList,
    Text.infix_stripCr hp, @Text.startsWith_stripCr l "diff " (by decide),
    @Text.startsWith_stripCr l "+++" (by decide),
    @Text.startsWith_stripCr l "---" (by decide)]

theorem isSome_needsHumanEyes (hb : 0 < bound) : (needsHumanEyes (unified d) bound).isSome ↔
    bound < (d.flatMap Entry.print).countP counts ∨
    ∃ p ∈ sensitivePaths, ∃ l ∈ d.flatMap Entry.print, shows p l := by
  have hc : (Text.lines (unified d)).countP
      (fun l => (Text.startsWith l "+" || Text.startsWith l "-") && !isFileHeader l) =
      (d.flatMap Entry.print).countP counts := by
    rw [lines_unified, List.countP_map]
    rfl
  unfold needsHumanEyes
  simp only [hc]
  split
  case isTrue h  => simp [h.2]
  case isFalse h =>
    have hn : ¬bound < (d.flatMap Entry.print).countP counts := fun hl => h ⟨hb, hl⟩
    simp only [hn, false_or, Option.isSome_map, List.find?_isSome, lines_unified, List.any_map, List.any_eq_true]
    rfl

theorem fragment_of_mem : ∀ p ∈ sensitivePaths, Fragment p.toList := by
  decide +kernel

end Gate

section Changes

theorem counts_change (hc : h.isChange) : counts h.print ↔ ¬h.disguised := by
  rw [counts_iff]
  cases h
  case context   => contradiction
  case noNewline => contradiction
  all_goals simp [HunkLine.disguised]

theorem looks_iff (hc : h.isChange) :
    ("+++".toList <+: h.print ∨ "---".toList <+: h.print) ∨ "diff ".toList <+: h.print ↔ h.disguised := by
  cases h
  case context   => contradiction
  case noNewline => contradiction
  all_goals simp [HunkLine.disguised]

theorem infix_change (hp : Fragment p.toList) (hc : h.isChange) :
    p.toList <:+: h.print ↔ p.toList <:+: h.content := by
  have hs {c} (hm : c ∈ ['+', '-', '/'] ++ escapes) : ∀ a ∈ p.toList.take 1, a ∉ [c] := by
    intro a ha hac
    rw [List.mem_singleton] at hac
    exact hp.head a ha (hac ▸ hm)
  cases h
  case context       => contradiction
  case noNewline     => contradiction
  case added line    => exact infix_skip hp.nonempty (hs (by decide))
  case removed line  => exact infix_skip hp.nonempty (hs (by decide))

end Changes

section Loud

-- No line of its own makes the gate count, or look for paths, where the line is quiet.
theorem not_prefix_of_quiet (hq : Quiet l) {pre : List Char} (hp : pre.take 1 = ['+'] ∨ pre.take 1 = ['-']) :
    ¬pre <+: l := by
  intro h
  have ht : pre.take 1 <+: l.take 1 := h.take 1
  obtain he | he := hp
  · exact hq.plus (ht.subset (by simp [he]))
  · exact hq.minus (ht.subset (by simp [he]))

theorem not_counts_of_quiet (hq : Quiet l) : ¬counts l := by
  rw [counts_iff]
  exact fun h => h.1.elim (not_prefix_of_quiet hq (.inl rfl)) (not_prefix_of_quiet hq (.inr rfl))

theorem not_shows_of_quiet (hp : Fragment p.toList) (hq : Quiet l) : ¬shows p l := by
  rw [shows_iff (hp.not_mem (by decide))]
  intro ⟨_, h⟩
  obtain (h | h) | h := h
  · exact not_prefix_of_quiet hq (.inl rfl) h
  · exact not_prefix_of_quiet hq (.inr rfl) h
  · exact hq.diff h

theorem not_counts_first : ¬counts f.first := by
  intro h
  obtain h | h := (counts_iff.mp h).1
  · exact absurd (take_first ▸ h.take 1) (by decide)
  · exact absurd (take_first ▸ h.take 1) (by decide)

theorem looks_of_sign {sign : List Char} (hs : sign ∈ ["---".toList, "+++".toList]) (hp : sign <+: l) :
    "+++".toList <+: l ∨ "---".toList <+: l := by
  rw [List.mem_cons, List.mem_singleton] at hs
  cases hs
  case inl hs => exact .inr (hs ▸ hp)
  case inr hs => exact .inl (hs ▸ hp)

theorem looks_label : ∀ l ∈ f.labels, "+++".toList <+: l ∨ "---".toList <+: l := by
  intro l hl
  obtain ⟨sign, hs, label, _, he⟩ := mem_labels hl
  apply looks_of_sign hs
  rw [he, File.printLabel, List.append_assoc, List.append_assoc]
  exact List.prefix_append _ _

theorem looks_plainLabel {sign : List Char} {name : Line} {stamp : Option Stamp}
    (hs : sign ∈ ["---".toList, "+++".toList]) :
    "+++".toList <+: PlainFile.printLabel sign name stamp ∨
    "---".toList <+: PlainFile.printLabel sign name stamp :=
  looks_of_sign hs (List.prefix_append _ _)

theorem not_counts_headers : ∀ l ∈ e.headers, ¬counts l := by
  intro l hl hc
  have hn := (counts_iff.mp hc).2
  cases e
  case git f =>
    obtain hl | hl := List.mem_cons.mp hl
    · exact not_counts_first (hl ▸ hc)
    · exact hn (looks_label l hl)
  case plain g =>
    rw [Entry.headers, PlainFile.labels, List.mem_cons, List.mem_singleton] at hl
    obtain hl | hl := hl
    · exact hn (hl ▸ looks_plainLabel (by simp))
    · exact hn (hl ▸ looks_plainLabel (by simp))

theorem countP_loud : e.loud.countP counts = (e.lines.filter HunkLine.isChange).countP (!·.disguised) := by
  have hl : e.headers.countP counts = 0 := by simpa [List.countP_eq_zero] using not_counts_headers
  rw [Entry.loud, List.countP_append, hl, List.countP_map, Nat.zero_add]
  refine List.countP_congr fun h hh => ?_
  simpa using counts_change (List.mem_filter.mp hh).2

theorem countP_print :
    (d.flatMap Entry.print).countP counts = (changed d).countP (!·.disguised) := by
  rw [List.countP_eq_length_filter, filter_unified fun _ => not_counts_of_quiet, ← List.countP_eq_length_filter]
  induction d
  case nil => rfl
  case cons e d hi =>
    rw [List.flatMap_cons, List.countP_append, hi, countP_loud, changed, changed, List.flatMap_cons,
      List.filter_append, List.countP_append]

-- The headers of a file show what is in its names.
theorem shows_headers (hp : Fragment p.toList) : (∃ l ∈ e.headers, shows p l) ↔ e.Names p := by
  have hr : '\r' ∉ p.toList := hp.not_mem (by decide)
  cases e
  case git f =>
    have hn : name p = p.toList.map byte := name_eq hp.simple
    have hf : shows p f.first ↔ name p <:+: f.old ∨ name p <:+: f.new := by
      rw [shows_iff hr, hp.infix_first, hn]
      exact and_iff_left (.inr diff_prefix_first)
    have hl : ∀ l ∈ f.labels, shows p l → name p <:+: f.old ∨ name p <:+: f.new := by
      intro l hl hs
      obtain ⟨sign, hsign, label, hlabel, he⟩ := mem_labels hl
      rw [hn]
      exact hp.infix_printLabel hsign hlabel (he ▸ ((shows_iff hr).mp hs).1)
    constructor
    case mp =>
      rintro ⟨l, hm, hs⟩
      obtain hm | hm := List.mem_cons.mp hm
      · exact hf.mp (hm ▸ hs)
      · exact hl l hm hs
    case mpr => exact fun h => ⟨_, List.mem_cons_self, hf.mpr h⟩
  case plain g =>
    have hl {sign : List Char} {n : Line} {stamp : Option Stamp} (hs : sign ∈ ["---".toList, "+++".toList]) :
        shows p (PlainFile.printLabel sign n stamp) ↔ p.toList <:+: n.chars := by
      rw [shows_iff hr, hp.infix_plainLabel hs]
      exact and_iff_left (.inl (looks_plainLabel hs))
    change (∃ l ∈ g.labels, shows p l) ↔ p.toList <:+: g.old.chars ∨ p.toList <:+: g.new.chars
    rw [PlainFile.labels, List.exists_mem_cons_iff, List.exists_mem_cons_iff, hl (by simp), hl (by simp)]
    simp

-- The gate finds a path in the headers of a file or in changes that look like them.
theorem shows_loud (hp : Fragment p.toList) : (∃ l ∈ e.loud, shows p l) ↔
    e.Names p ∨ ∃ h ∈ e.lines.filter HunkLine.isChange, h.disguised ∧ p.toList <:+: h.content := by
  have hc : ∀ h ∈ e.lines.filter HunkLine.isChange,
      (shows p h.print ↔ h.disguised ∧ p.toList <:+: h.content) := by
    intro h hh
    have hh := (List.mem_filter.mp hh).2
    rw [shows_iff (hp.not_mem (by decide)), infix_change hp hh, looks_iff hh, and_comm]
  have hm : (∃ l ∈ (e.lines.filter HunkLine.isChange).map HunkLine.print, shows p l) ↔
      ∃ h ∈ e.lines.filter HunkLine.isChange, h.disguised ∧ p.toList <:+: h.content := by
    simp only [List.mem_map, exists_exists_and_eq_and]
    exact exists_congr fun h => and_congr_right (hc h)
  rw [← shows_headers hp, ← hm]
  simp only [Entry.loud, List.mem_append, or_and_right, exists_or]

theorem exists_shows (hp : Fragment p.toList) : (∃ l ∈ d.flatMap Entry.print, shows p l) ↔
    (∃ e ∈ d, e.Names p) ∨ ∃ h ∈ changed d, h.disguised ∧ p.toList <:+: h.content := by
  have hf : (∃ l ∈ d.flatMap Entry.print, shows p l) ↔ ∃ l ∈ d.flatMap Entry.loud, shows p l := by
    simp only [← List.mem_filter, filter_unified fun _ => not_shows_of_quiet hp]
  rw [hf]
  clear hf
  induction d
  case nil => simp [changed]
  case cons e d hi =>
    have ha {α : Type} (l m : List α) (P : α → Prop) :
        (∃ a ∈ l ++ m, P a) ↔ (∃ a ∈ l, P a) ∨ ∃ a ∈ m, P a := by
      simp only [List.mem_append, or_and_right, exists_or]
    have hc (P : HunkLine → Prop) : (∃ h ∈ changed (e :: d), P h) ↔
        (∃ h ∈ e.lines.filter HunkLine.isChange, P h) ∨ ∃ h ∈ changed d, P h := by
      rw [changed, List.flatMap_cons, List.filter_append, ha, changed]
    rw [List.flatMap_cons, ha, hc, List.exists_mem_cons_iff, or_or_or_comm]
    exact or_congr (shows_loud hp) hi

end Loud

-- The gate is right unless changes that look like labels hide the size or show a path.
theorem measured_iff (hb : 0 < bound) : Measured d bound ↔ Sensitive d ∨
    ((changed d).length ≤ bound → ∀ h ∈ changed d, ¬h.Alarming) ∧
    (bound < (changed d).length →
      bound < (changed d).countP (!·.disguised) ∨ ∃ h ∈ changed d, h.Alarming) := by
  have hl : (changed d).countP (!·.disguised) ≤ (changed d).length := List.countP_le_length
  have hs : (∃ p ∈ sensitivePaths, ∃ l ∈ d.flatMap Entry.print, shows p l) ↔
      Sensitive d ∨ ∃ h ∈ changed d, h.Alarming := by
    have he : ∀ p ∈ sensitivePaths, ((∃ l ∈ d.flatMap Entry.print, shows p l) ↔
        (∃ e ∈ d, e.Names p) ∨ ∃ h ∈ changed d, h.disguised ∧ p.toList <:+: h.content) :=
      fun p hp => exists_shows (fragment_of_mem p hp)
    unfold Sensitive HunkLine.Alarming
    constructor
    case mp =>
      intro ⟨p, hp, h⟩
      obtain h | ⟨h, hh, hd, hi⟩ := (he p hp).mp h
      · exact .inl ⟨p, hp, h⟩
      · exact .inr ⟨h, hh, hd, p, hp, hi⟩
    case mpr =>
      intro h
      obtain ⟨p, hp, h⟩ | ⟨h, hh, hd, p, hp, hi⟩ := h
      · exact ⟨p, hp, (he p hp).mpr (.inl h)⟩
      · exact ⟨p, hp, (he p hp).mpr (.inr ⟨h, hh, hd, hi⟩)⟩
  have hn : (∀ h ∈ changed d, ¬h.Alarming) ↔ ¬∃ h ∈ changed d, h.Alarming := by simp
  rw [Measured, isSome_needsHumanEyes hb, countP_print, hs, hn]
  by_cases ha : Sensitive d
  case pos => simp [ha]
  case neg =>
    simp only [ha, false_or, or_false]
    by_cases hc : bound < (changed d).length
    case pos => simp [hc]
    case neg =>
      have hc' : ¬bound < (changed d).countP (!·.disguised) := fun h => hc (h.trans_le hl)
      simp [hc, hc', Nat.not_lt.mp hc]

-- Two lines of a query are removed, which are comments, and a line of a text is added, which shows a path.
def droppedComments : List Entry :=
  (oneHunk "q.sql" [.removed (line "-- one" (by decide)), .removed (line "-- two" (by decide))]).map .git

def quotedPath : List Entry :=
  (oneHunk "a.txt" [.added (line "++ scripts/" (by decide))]).map .git

theorem not_measured_droppedComments : ¬Measured droppedComments 1 ∧ ¬Measured quotedPath 1 := by
  unfold Measured Sensitive
  decide +kernel

theorem measured_iff_oneHunk :
    Measured ((oneHunk "a.rs" [.added (line "x" (by decide))]).map .git) 1 := by
  refine (measured_iff Nat.one_pos).mpr (.inr ⟨fun _ h hh ha => ?_, fun hc => absurd hc (by decide +kernel)⟩)
  have : ∀ h ∈ changed ((oneHunk "a.rs" [.added (line "x" (by decide))]).map .git), ¬h.disguised := by
    decide +kernel
  exact this h hh ha.1

end Diff
