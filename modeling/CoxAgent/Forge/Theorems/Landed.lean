import CoxAgent.Forge.Theorems.Competing

namespace Diff

variable {es : List Entry} {d : List File} {f : File} {g : PlainFile} {h : HunkLine} {hs : List HunkLine}
variable {l : List Char} {out : List (String × List String)} {main : String → Option String}

section Evidence

-- What an added line is evidence of. One that starts with two more signs looks like a label.
def HunkLine.evidence : HunkLine → Option String
  | added l =>
    let t := Text.trim (.ofList l.chars)
    if !"++".toList.isPrefixOf l.chars && isEvidence t then some t else none
  | _       => none

-- The lines that other programs print before git names its next file.
def leading : List Entry → List HunkLine
  | .plain f :: es => f.hunks.flatMap Hunk.lines ++ leading es
  | _              => []

-- The files that git names, each with the lines up to the next one.
def sections : List Entry → List (File × List HunkLine)
  | []             => []
  | .git f :: es   => (f, f.lines ++ leading es) :: sections es
  | .plain _ :: es => sections es

-- What the first line of a file is read as. Nothing is read where a name has a blank or is quoted.
def File.path (f : File) : String :=
  f.target.getD ""

-- The first lines of each file that are evidence.
def sampled (es : List Entry) : List (String × String) :=
  (sections es).flatMap fun s =>
    if s.1.path = "" then [] else ((s.2.filterMap HunkLine.evidence).take 20).map (s.1.path, ·)

-- The evidence is part of what the file has on the main branch.
def onMain (main : String → Option String) (e : String × String) : Bool :=
  Text.contains ((main e.1).getD "") e.2

end Evidence

section Scan

-- The lines that are added to the last file.
def addTo (out : List (String × List String)) (ls : List String) : List (String × List String) :=
  match out.getLast? with
  | some (file, ls') => out.dropLast ++ [(file, ls' ++ ls)]
  | none             => out

theorem addTo_concat {file : String} {ls ls' : List String} :
    addTo (out ++ [(file, ls)]) ls' = out ++ [(file, ls ++ ls')] := by
  simp [addTo]

theorem addTo_nil : addTo out [] = out := by
  obtain rfl | ⟨out, ⟨file, ls⟩, rfl⟩ := out.eq_nil_or_concat
  · rfl
  · rw [List.concat_eq_append, addTo_concat, List.append_nil]

theorem addTo_addTo {ls ls' : List String} : addTo (addTo out ls) ls' = addTo out (ls ++ ls') := by
  obtain rfl | ⟨out, ⟨file, ls₀⟩, rfl⟩ := out.eq_nil_or_concat
  · rfl
  · rw [List.concat_eq_append, addTo_concat, addTo_concat, addTo_concat, List.append_assoc]

def scanLine (out : List (String × List String)) (l : List Char) : List (String × List String) :=
  addLine out (.ofList (Text.stripCr l))

-- What a line is evidence of that opens no file.
def lineEvidence : List Char → Option String
  | '+' :: cs =>
    let t := Text.trim (.ofList cs)
    if !"++".toList.isPrefixOf cs && isEvidence t then some t else none
  | _         => none

theorem lineEvidence_plus {cs : List Char} : lineEvidence ('+' :: cs) =
    if !"++".toList.isPrefixOf cs && isEvidence (Text.trim (.ofList cs)) then
      some (Text.trim (.ofList cs))
    else
      none :=
  rfl

theorem lineEvidence_print : lineEvidence h.print = h.evidence := by
  cases h <;> rfl

theorem stripPrefix_diff (hl : ¬"diff ".toList <+: l) :
    Text.stripPrefix (.ofList (Text.stripCr l)) "diff --git " = none := by
  have hd : "diff ".toList <+: "diff --git ".toList := by decide
  exact Text.stripPrefix_stripCr_eq_none (by decide) fun hp => hl (hd.trans hp)

theorem stripPrefix_plus {cs : List Char} : Text.stripPrefix (.ofList ('+' :: cs)) "+" = some (.ofList cs) := by
  have hl : "+".length = 1 := by decide
  simp [Text.stripPrefix, Text.startsWith, hl]

theorem stripPrefix_plus_none (hl : '+' ∉ l.take 1) : Text.stripPrefix (.ofList (Text.stripCr l)) "+" = none := by
  apply Text.stripPrefix_stripCr_eq_none (by decide)
  rintro ⟨m, rfl⟩
  exact hl (by simp)

theorem lineEvidence_none (hl : '+' ∉ l.take 1) : lineEvidence l = none := by
  unfold lineEvidence
  split
  case h_1 => simp at hl
  case h_2 => rfl

theorem scanLine_eq (hl : ¬"diff ".toList <+: l) : scanLine out l = addTo out (lineEvidence l).toList := by
  rw [scanLine, addLine, stripPrefix_diff hl]
  by_cases hp : '+' ∈ l.take 1
  case neg =>
    rw [stripPrefix_plus_none hp, lineEvidence_none hp, Option.toList_none, addTo_nil]
    dsimp only
    split <;> first | rfl | contradiction
  case pos =>
    obtain ⟨cs, rfl⟩ : ∃ cs, l = '+' :: cs := by
      cases l
      case nil       => simp at hp
      case cons c cs => exact ⟨cs, by simpa [eq_comm] using hp⟩
    have hs : Text.startsWith (.ofList (Text.stripCr ('+' :: cs))) "+++" = "++".toList.isPrefixOf cs := by
      have hc : "+++".toList <+: '+' :: cs ↔ "++".toList <+: cs := by
        rw [show "+++".toList = '+' :: "++".toList by decide, List.cons_prefix_cons]
        exact and_iff_right rfl
      rw [Bool.eq_iff_iff, Text.startsWith_stripCr (by decide), hc, List.isPrefixOf_iff_prefix]
    rw [hs, Text.stripCr_cons (by decide), stripPrefix_plus]
    obtain rfl | ⟨out, ⟨file, ls⟩, rfl⟩ := out.eq_nil_or_concat
    case inl => rfl
    case inr =>
      rw [List.concat_eq_append, addTo_concat, List.getLast?_concat, List.dropLast_concat]
      dsimp only
      rw [Text.trim_stripCr, lineEvidence_plus]
      split
      case isTrue  => rfl
      case isFalse => rw [Option.toList_none, List.append_nil]

theorem scanLine_quiet (hq : Quiet l) : scanLine out l = out := by
  rw [scanLine_eq hq.diff, lineEvidence_none hq.plus, Option.toList_none, addTo_nil]

theorem scanLine_first : scanLine out f.first = out ++ [(f.path, [])] := by
  have hr : '\r' ∉ f.first := fun h => absurd (isPrinted_of_mem_first h) (by decide)
  have hs : Text.startsWith (.ofList f.first) "diff --git " := by
    have hl : (String.ofList f.first).toList = f.first := String.toList_ofList
    rw [Text.startsWith_iff, hl]
    exact List.prefix_append _ f.names
  have hd : f.first.drop "diff --git ".length = f.names := List.drop_left' (by decide)
  rw [scanLine, addLine, Text.stripCr_eq hr, Text.stripPrefix, if_pos hs, String.toList_ofList, hd]
  rfl

-- The labels have signs, and are told from what is changed by their length.
theorem scanLine_label {sign rest : List Char} (hs : sign ∈ ["---".toList, "+++".toList]) :
    scanLine out (sign ++ rest) = out := by
  simp only [List.mem_cons, List.not_mem_nil, or_false] at hs
  obtain rfl | rfl := hs
  case inl =>
    change scanLine out ('-' :: ('-' :: '-' :: rest)) = out
    rw [scanLine_eq (fun h => absurd (List.cons_prefix_cons.mp h).1 (by decide)), lineEvidence_none (by simp),
      Option.toList_none, addTo_nil]
  case inr =>
    change scanLine out ('+' :: ('+' :: '+' :: rest)) = out
    rw [scanLine_eq (fun h => absurd (List.cons_prefix_cons.mp h).1 (by decide))]
    exact addTo_nil

theorem foldl_labels {ls : List (List Char)}
    (h : ∀ l ∈ ls, ∃ sign ∈ ["---".toList, "+++".toList], ∃ rest, l = sign ++ rest) : ls.foldl scanLine out = out := by
  induction ls
  case nil => rfl
  case cons l ls hi =>
    rw [List.forall_mem_cons] at h
    obtain ⟨⟨sign, hs, rest, rfl⟩, h⟩ := h
    rw [List.foldl_cons, scanLine_label hs, hi h]

theorem not_diff_print (hc : h.isChange) : ¬"diff ".toList <+: h.print := by
  intro hp
  cases h
  case context   => contradiction
  case noNewline => contradiction
  all_goals exact absurd (List.cons_prefix_cons.mp hp).1 (by decide)

theorem foldl_changes :
    ((hs.filter HunkLine.isChange).map HunkLine.print).foldl scanLine out = addTo out (hs.filterMap HunkLine.evidence) := by
  induction hs generalizing out
  case nil => exact addTo_nil.symm
  case cons h hs hi =>
    cases h
    case context   => exact hi
    case noNewline => exact hi
    case removed line =>
      rw [List.filter_cons_of_pos rfl, List.map_cons, List.foldl_cons, scanLine_eq (not_diff_print rfl),
        lineEvidence_print, hi, addTo_addTo]
      rfl
    case added line =>
      rw [List.filter_cons_of_pos rfl, List.map_cons, List.foldl_cons, scanLine_eq (not_diff_print rfl),
        lineEvidence_print, hi, addTo_addTo, List.filterMap_cons]
      cases (HunkLine.added line).evidence <;> rfl

-- Only the loud lines are looked at.
theorem foldl_loud : (Text.lines (unified es)).foldl addLine [] = (es.flatMap Entry.loud).foldl scanLine [] := by
  have hf (ls : List (List Char)) (out : List (String × List String)) :
      ls.foldl scanLine out = (ls.filter fun l => !decide (Quiet l)).foldl scanLine out := by
    induction ls generalizing out
    case nil => rfl
    case cons l ls hi =>
      by_cases hq : Quiet l
      case pos => rw [List.foldl_cons, scanLine_quiet hq, hi, List.filter_cons_of_neg (by simp [hq])]
      case neg => rw [List.foldl_cons, hi, List.filter_cons_of_pos (by simp [hq]), List.foldl_cons]
  have ht (l : List Char) (hq : Quiet l) : ¬(!decide (Quiet l)) = true := by simp [hq]
  have hl : (Text.lines (unified es)).foldl addLine [] = (es.flatMap Entry.print).foldl scanLine [] := by
    rw [lines_unified, List.foldl_map]
    rfl
  rw [hl, hf, filter_unified ht, ← hf]

theorem labels_plain : ∀ l ∈ g.labels, ∃ sign ∈ ["---".toList, "+++".toList], ∃ rest, l = sign ++ rest := by
  intro l hl
  simp only [PlainFile.labels, List.mem_cons, List.not_mem_nil, or_false] at hl
  obtain rfl | rfl := hl
  · exact ⟨_, List.mem_cons_self, _, rfl⟩
  · exact ⟨_, List.mem_cons_of_mem _ List.mem_cons_self, _, rfl⟩

theorem labels_git : ∀ l ∈ f.labels, ∃ sign ∈ ["---".toList, "+++".toList], ∃ rest, l = sign ++ rest := by
  intro l hl
  obtain ⟨sign, hs, label, _, rfl⟩ := mem_labels hl
  exact ⟨sign, hs, _, by rw [File.printLabel, List.append_assoc, List.append_assoc]⟩

-- What is read is what the sections have.
theorem foldl_entries : (es.flatMap Entry.loud).foldl scanLine out =
    addTo out ((leading es).filterMap HunkLine.evidence) ++
      (sections es).map fun s => (s.1.path, s.2.filterMap HunkLine.evidence) := by
  induction es generalizing out
  case nil => simp [leading, sections, addTo_nil]
  case cons e es hi =>
    rw [List.flatMap_cons, List.foldl_append]
    cases e
    case git f =>
      have he : (Entry.git f).loud.foldl scanLine out = out ++ [(f.path, f.lines.filterMap HunkLine.evidence)] := by
        rw [Entry.loud, Entry.headers, List.foldl_append, List.foldl_cons, scanLine_first, foldl_labels labels_git,
          foldl_changes, addTo_concat]
        rfl
      have hl : leading (.git f :: es) = [] := rfl
      rw [he, hi, addTo_concat, ← List.filterMap_append, hl, List.filterMap_nil, addTo_nil, sections, List.map_cons,
        List.append_assoc]
      rfl
    case plain g =>
      have he : (Entry.plain g).loud.foldl scanLine out =
          addTo out ((g.hunks.flatMap Hunk.lines).filterMap HunkLine.evidence) := by
        rw [Entry.loud, Entry.headers, List.foldl_append, foldl_labels labels_plain, foldl_changes]
        rfl
      rw [he, hi, addTo_addTo, ← List.filterMap_append, leading, sections]

theorem addedLinesByFile_unified : addedLinesByFile (unified es) =
    ((sections es).map fun s => (s.1.path, s.2.filterMap HunkLine.evidence)).filter fun f => f.1 ≠ "" ∧ f.2 ≠ [] := by
  rw [addedLinesByFile, foldl_loud, foldl_entries]
  rfl

end Scan

section Landed

-- The lines that are looked for are the sampled ones.
theorem found_unified : ((addedLinesByFile (unified es)).flatMap fun (file, ls) =>
    (ls.take 20).map (Text.contains ((main file).getD "") ·)) = (sampled es).map (onMain main) := by
  rw [addedLinesByFile_unified, sampled]
  induction sections es
  case nil => rfl
  case cons s ss hi =>
    rw [List.map_cons, List.flatMap_cons, List.map_append, ← hi]
    by_cases hp : s.1.path = ""
    case pos => rw [List.filter_cons_of_neg (by simp [hp]), if_pos hp, List.map_nil, List.nil_append]
    case neg =>
      by_cases he : s.2.filterMap HunkLine.evidence = []
      case pos => rw [List.filter_cons_of_neg (by simp [he]), he, if_neg hp]; rfl
      case neg =>
        rw [List.filter_cons_of_pos (by simp [hp, he]), List.flatMap_cons, if_neg hp, List.map_map]
        rfl

theorem diffLandedOnMain_iff : diffLandedOnMain (unified es) main ↔
    sampled es ≠ [] ∧ 8 * (sampled es).length ≤ 10 * (sampled es).countP (onMain main) := by
  have hc : ((sampled es).map (onMain main)).countP id = (sampled es).countP (onMain main) := by
    rw [List.countP_map]
    rfl
  have hl : 8 * (sampled es).length ≤ 10 * (sampled es).countP (onMain main) ↔
      (sampled es).countP (onMain main) * 10 ≥ (sampled es).length * 8 := by
    omega
  rw [diffLandedOnMain, found_unified, Bool.and_eq_true, decide_eq_true_iff, decide_eq_true_iff, hc, List.length_map,
    gt_iff_lt, List.length_pos_iff, hl]

-- Every file has a name that is read, and no more evidence than is sampled.
def Small (es : List Entry) : Prop :=
  ∀ s ∈ sections es, isWord s.1.new ∧ s.1.new ≠ [] ∧ (s.2.filterMap HunkLine.evidence).length ≤ 20

instance : Decidable (Small es) :=
  inferInstanceAs (Decidable (∀ s ∈ sections es, _))

-- All the evidence, with the name of the file as it is shown.
def allEvidence (es : List Entry) : List (String × String) :=
  (sections es).flatMap fun s =>
    (s.2.filterMap HunkLine.evidence).map (String.ofList (s.1.new.flatMap printByte), ·)

theorem path_of_isWord (hw : isWord f.new) : f.path = .ofList (f.new.flatMap printByte) := by
  rw [File.path, target_of_isWord hw]
  rfl

theorem sampled_eq (h : Small es) : sampled es = allEvidence es := by
  refine List.flatMap_congr fun s hs => ?_
  obtain ⟨hw, hn, hl⟩ := h s hs
  have hp : ¬s.1.path = "" := by
    rw [path_of_isWord hw, String.ofList_eq_empty_iff]
    obtain ⟨b, n, he⟩ := List.exists_cons_of_ne_nil hn
    rw [he, List.flatMap_cons]
    exact fun ha => printByte_ne_nil b (List.append_eq_nil_iff.mp ha).1
  rw [if_neg hp, List.take_of_length_le hl, path_of_isWord hw]

-- A diff that is taken to have landed has evidence, and four fifths of what is sampled of it are on the main branch.
-- In a small diff that is all there is.
theorem landed_sound (h : diffLandedOnMain (unified es) main) :
    (sampled es ≠ [] ∧ 8 * (sampled es).length ≤ 10 * (sampled es).countP (onMain main)) ∧
    (Small es → 8 * (allEvidence es).length ≤ 10 * (allEvidence es).countP (onMain main)) := by
  have hs := diffLandedOnMain_iff.mp h
  exact ⟨hs, fun hm => sampled_eq hm ▸ hs.2⟩

def sharedLine : HunkLine := .added (line "let shared = base;" (by decide))

def ownLine : HunkLine := .added (line "let own = shared + 1;" (by decide))

-- The main branch has one line, in one file.
def mainWith (content : String) (file : String) : Option String :=
  if file = "a.rs" then some content else none

def sharedDiff : List Entry :=
  (oneHunk "a.rs" [sharedLine]).map .git

def longDiff : List Entry :=
  (oneHunk "a.rs" (List.replicate 20 sharedLine ++ List.replicate 6 ownLine)).map .git

def blankDiff : List Entry :=
  (oneHunk "a.rs" [sharedLine] ++ oneHunk "b c.rs" [ownLine]).map .git

theorem landed_sound_shared : sampled sharedDiff ≠ [] :=
  (@landed_sound sharedDiff (mainWith "let shared = base;")
    (diffLandedOnMain_iff.mpr ⟨by decide +kernel, by decide +kernel⟩)).1.1

-- The evidence is a line of the file on the main branch.
def isLineOnMain (main : String → Option String) (e : String × String) : Bool :=
  (Text.lines ((main e.1).getD "")).any (Text.trim · = e.2)

-- A part of a line passes for the line, the lines after the first ones are not looked at, and neither is a file with
-- a blank in its name.
theorem not_landed_lines :
    (¬∀ es main, Small es → diffLandedOnMain (unified es) main →
      8 * (allEvidence es).length ≤ 10 * (allEvidence es).countP (isLineOnMain main)) ∧
    (¬∀ es main, (∀ s ∈ sections es, isWord s.1.new ∧ s.1.new ≠ []) → diffLandedOnMain (unified es) main →
      8 * (allEvidence es).length ≤ 10 * (allEvidence es).countP (onMain main)) ∧
    ¬∀ es main, (∀ s ∈ sections es, (s.2.filterMap HunkLine.evidence).length ≤ 20) → diffLandedOnMain (unified es) main →
      8 * (allEvidence es).length ≤ 10 * (allEvidence es).countP (onMain main) := by
  refine ⟨fun h => ?fragment, fun h => ?long, fun h => ?blank⟩
  case fragment =>
    have hl : (allEvidence sharedDiff).length = 1 := by decide +kernel
    have hc : (allEvidence sharedDiff).countP (isLineOnMain (mainWith "// let shared = base; was here")) = 0 := by
      decide +kernel
    have hd := (@diffLandedOnMain_iff sharedDiff (mainWith "// let shared = base; was here")).mpr
      ⟨by decide +kernel, by decide +kernel⟩
    have h := h sharedDiff (mainWith "// let shared = base; was here") (by decide +kernel) hd
    omega
  case long =>
    have hl : (allEvidence longDiff).length = 26 := by decide +kernel
    have hc : (allEvidence longDiff).countP (onMain (mainWith "let shared = base;")) = 20 := by decide +kernel
    have hw : ∀ s ∈ sections longDiff, isWord s.1.new ∧ s.1.new ≠ [] := by decide +kernel
    have hd := (@diffLandedOnMain_iff longDiff (mainWith "let shared = base;")).mpr
      ⟨by decide +kernel, by decide +kernel⟩
    have h := h longDiff (mainWith "let shared = base;") hw hd
    omega
  case blank =>
    have hl : (allEvidence blankDiff).length = 2 := by decide +kernel
    have hc : (allEvidence blankDiff).countP (onMain (mainWith "let shared = base;")) = 1 := by decide +kernel
    have hd := (@diffLandedOnMain_iff blankDiff (mainWith "let shared = base;")).mpr
      ⟨by decide +kernel, by decide +kernel⟩
    have h := h blankDiff (mainWith "let shared = base;") (by decide +kernel) hd
    omega

end Landed
end Diff
