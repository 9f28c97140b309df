import CoxAgent.Forge.Policy
import CoxAgent.Lib.DiffText

namespace Diff

variable {d da db l w : List File} {f g : File} {n k : Nat} {ua ub : Bool}

-- The candidate of a pull request with this diff.
def candidate (number : Nat) (unsafeChange : Bool) (d : List File) : CompeteCandidate :=
  { number, files := some (changedFiles (text d)), unsafeChange }

-- What a diff changes is changed by the other, and what it adds is added by the other.
structure LosesNothing (l w : List File) : Prop where
  files : ∀ n ∈ touched l, n ∈ touched w
  lines : ∀ a ∈ additions l, a ∈ additions w

-- Whichever pull request is closed, nothing is lost.
structure Lossless (n k : Nat) (ua ub : Bool) (da db : List File) : Prop where
  second : resolveCompeting (candidate n ua da) (candidate k ub db) = .mergeClose n k → LosesNothing db da
  first  : resolveCompeting (candidate n ua da) (candidate k ub db) = .mergeClose k n → LosesNothing da db

-- The name that the first line of a file is taken for.
def File.target (f : File) : Option String :=
  diffTarget (.ofList f.names)

def Covers (w l : List File) : Prop :=
  l.filterMap File.target ⊆ w.filterMap File.target

-- A file with two names, with one that is no single word, or that is taken for such a file.
def Misread (w : List File) (f : File) : Prop :=
  f.old ≠ f.new ∨ ¬isWord f.new ∨ ∃ g ∈ w, g.target = f.target ∧ ¬isWord g.new

-- A diff that is unsafe or names nothing keeps both pull requests open.
def Held (ua ub : Bool) (da db : List File) : Prop :=
  ua ∨ ub ∨ da.filterMap File.target = [] ∨ db.filterMap File.target = []

-- What the names of the files leave open.
structure Backed (l w : List File) : Prop where
  files : ∀ f ∈ l, Misread w f → ∀ n ∈ f.touched, n ∈ touched w
  lines : ∀ a ∈ additions l, a ∈ additions w

section Names

variable {line : List Char}

-- What a line names, for the line as it is printed.
def header (line : List Char) : Option String :=
  Text.stripPrefix (.ofList (Text.stripCr line)) "diff --git " >>= diffTarget

theorem header_eq_none (h : ¬"diff ".toList <+: line) : header line = none := by
  have hd : "diff ".toList <+: "diff --git ".toList := by decide
  rw [header, Text.stripPrefix_stripCr_eq_none (by decide) fun hp => h (hd.trans hp)]
  rfl

theorem header_first : header f.first = f.target := by
  have hr : '\r' ∉ f.first := fun h => absurd (isPrinted_of_mem_first h) (by decide)
  have hs : Text.startsWith (.ofList f.first) "diff --git " := by
    have hl : (String.ofList f.first).toList = f.first := String.toList_ofList
    rw [Text.startsWith_iff, hl]
    exact List.prefix_append _ f.names
  have hd : f.first.drop "diff --git ".length = f.names := List.drop_left' (by decide)
  rw [header, Text.stripCr_eq hr, Text.stripPrefix, if_pos hs, String.toList_ofList, hd]
  rfl

theorem header_labels : ∀ line ∈ f.labels, header line = none := by
  intro line hl
  have ⟨sign, hs, label, _, he⟩ := mem_labels hl
  refine header_eq_none fun hp => ?_
  rw [he, File.printLabel] at hp
  rw [List.mem_cons, List.mem_singleton] at hs
  obtain hs | hs := hs <;> subst hs <;> exact absurd (List.cons_prefix_cons.mp hp).1 (by decide)

theorem header_changes (h : HunkLine) (hc : h.isChange) : header h.print = none := by
  refine header_eq_none fun hp => ?_
  cases h
  case context   => contradiction
  case noNewline => contradiction
  case added     => exact absurd (List.cons_prefix_cons.mp hp).1 (by decide)
  case removed   => exact absurd (List.cons_prefix_cons.mp hp).1 (by decide)

theorem filterMap_loud : f.loud.filterMap header = f.target.toList := by
  have hl : f.labels.filterMap header = [] := List.filterMap_eq_nil_iff.mpr header_labels
  have hc : ((f.lines.filter HunkLine.isChange).map HunkLine.print).filterMap header = [] := by
    rw [List.filterMap_eq_nil_iff]
    intro line hm
    have ⟨h, hh, he⟩ := List.mem_map.mp hm
    exact he ▸ header_changes h (List.mem_filter.mp hh).2
  rw [File.loud, List.cons_append, List.filterMap_cons, List.filterMap_append, hl, hc, header_first]
  cases f.target <;> rfl

theorem filterMap_flatMap_loud : (d.flatMap File.loud).filterMap header = d.filterMap File.target := by
  induction d
  case nil => rfl
  case cons f d hi =>
    rw [List.flatMap_cons, List.filterMap_append, filterMap_loud, hi, List.filterMap_cons]
    cases f.target <;> rfl

-- The files that the list names are the targets of the first lines.
theorem changedFiles_text : changedFiles (text d) = d.filterMap File.target := by
  have hq (line : List Char) (h : Quiet line) : ¬(header line).isSome := by
    simp [header_eq_none h.diff]
  have hf (ls : List (List Char)) : ls.filterMap header = (ls.filter (header · |>.isSome)).filterMap header := by
    rw [List.filterMap_filter]
    refine List.filterMap_congr fun line _ => ?_
    cases header line <;> rfl
  have hd : changedFiles (text d) = (d.flatMap File.print).filterMap header := by
    rw [changedFiles, lines_text, List.filterMap_map]
    rfl
  rw [hd, hf, filter_text hq, ← hf, filterMap_flatMap_loud]

-- A name that is a word is what the first line is taken for.
theorem target_of_isWord (h : isWord f.new) : f.target = some (.ofList (f.new.flatMap printByte)) := by
  have hw := @not_isWhitespace_printName f.new 'b' h (by decide)
  have hn : printName 'b' f.new ≠ [] := by simp [printName_of_isWord h]
  rw [File.target, diffTarget, File.names, Text.getLast?_words hw hn, printName_of_isWord h]
  have hl : "b/".length = 2 := by decide
  simp [Text.stripPrefix, Text.startsWith, hl]

theorem new_eq_of_target (hf : isWord f.new) (hg : isWord g.new) (h : f.target = g.target) : f.new = g.new := by
  rw [target_of_isWord hf, target_of_isWord hg, Option.some.injEq] at h
  rw [← map_byte_printBytes hf, ← map_byte_printBytes hg, String.ofList_injective h]

end Names

section Outcome

theorem covers_iff : (l.filterMap File.target).all ((w.filterMap File.target).contains ·) ↔ Covers w l := by
  simp only [Covers, List.all_eq_true, List.contains_iff_mem]
  rfl

-- The outcome depends on the names alone.
theorem resolveCompeting_eq (hh : ¬Held ua ub da db) :
    resolveCompeting (candidate n ua da) (candidate k ub db) =
      if (db.filterMap File.target).all ((da.filterMap File.target).contains ·) then .mergeClose n k
      else if (da.filterMap File.target).all ((db.filterMap File.target).contains ·) then .mergeClose k n
      else .hold "each PR touches files the other does not — closing either would drop work" := by
  simp only [Held, not_or] at hh
  have ⟨ha, hb, hna, hnb⟩ := hh
  simp [resolveCompeting, candidate, changedFiles_text, ha, hb, hna, hnb]

theorem resolveCompeting_held (hh : Held ua ub da db) (w l : Nat) :
    resolveCompeting (candidate n ua da) (candidate k ub db) ≠ .mergeClose w l := by
  simp only [resolveCompeting, candidate, changedFiles_text]
  split
  case isTrue => simp
  case isFalse he =>
    rw [not_or] at he
    cases ua
    case true  => simp
    case false =>
      cases ub
      case true  =>
        simp only [Bool.false_eq_true, if_false, if_true]
        split <;> simp
      case false => simp [Held, he] at hh

theorem not_misread_iff : ¬Misread w f ↔
    f.old = f.new ∧ isWord f.new ∧ ∀ g ∈ w, g.target = f.target → isWord g.new := by
  simp [Misread]

theorem new_mem_touched : f.new ∈ f.touched := by
  unfold File.touched
  split <;> simp

theorem eq_new_of_touched (h : f.old = f.new) {m : Name} (hm : m ∈ f.touched) : m = f.new := by
  unfold File.touched at hm
  split at hm <;> simpa [h] using hm

-- Where no name is misread, covering the names is covering the files.
theorem losesNothing_iff (hc : Covers w l) : LosesNothing l w ↔ Backed l w := by
  constructor
  case mp =>
    exact fun h => ⟨fun f hf _ n hn => h.files n (List.mem_flatMap.mpr ⟨f, hf, hn⟩), h.lines⟩
  case mpr =>
    intro h
    refine ⟨fun n hn => ?_, h.lines⟩
    have ⟨f, hf, hn⟩ := List.mem_flatMap.mp hn
    by_cases hr : Misread w f
    case pos => exact h.files f hf hr n hn
    case neg =>
      have ⟨ho, hw, ha⟩ := not_misread_iff.mp hr
      have ht := hc (List.mem_filterMap.mpr ⟨f, hf, target_of_isWord hw⟩)
      have ⟨g, hg, he⟩ := List.mem_filterMap.mp ht
      have he : g.target = f.target := he.trans (target_of_isWord hw).symm
      have hgf : g.new = f.new := new_eq_of_target (ha g hg he) hw he
      rw [eq_new_of_touched ho hn, ← hgf]
      exact List.mem_flatMap.mpr ⟨g, hg, new_mem_touched⟩

end Outcome

-- Nothing is lost if and only if both stay open, or the names that are misread and the lines that are
-- added happen to be covered as well.
theorem lossless_iff (hn : n ≠ k) : Lossless n k ua ub da db ↔ Held ua ub da db ∨
    (Covers da db → Backed db da) ∧ (¬Covers da db → Covers db da → Backed da db) := by
  by_cases hh : Held ua ub da db
  case pos =>
    refine iff_of_true ⟨fun h => ?_, fun h => ?_⟩ (.inl hh)
    · exact absurd h (resolveCompeting_held hh n k)
    · exact absurd h (resolveCompeting_held hh k n)
  case neg =>
    have he := @resolveCompeting_eq da db n k ua ub hh
    rw [or_iff_right hh]
    by_cases ha : Covers da db
    case pos =>
      rw [if_pos (covers_iff.mpr ha)] at he
      simp only [ha, not_true_eq_false, false_implies, and_true, true_implies, ← losesNothing_iff]
      refine ⟨fun h => h.second he, fun h => ⟨fun _ => h, fun h' => ?_⟩⟩
      exact absurd (he.symm.trans h') (by simp [hn])
    case neg =>
      rw [if_neg (fun h => ha (covers_iff.mp h))] at he
      simp only [ha, false_implies, not_false_eq_true, true_implies, true_and]
      by_cases hb : Covers db da
      case pos =>
        rw [if_pos (covers_iff.mpr hb)] at he
        simp only [hb, true_implies, ← losesNothing_iff]
        refine ⟨fun h => h.first he, fun h => ⟨fun h' => ?_, fun _ => h⟩⟩
        exact absurd (he.symm.trans h') (by simp [hn.symm])
      case neg =>
        rw [if_neg (fun h => hb (covers_iff.mp h))] at he
        simp only [hb, false_implies, iff_true]
        exact ⟨fun h => absurd (he.symm.trans h) (by simp), fun h => absurd (he.symm.trans h) (by simp)⟩

-- Two changes to one file, and a change with a second file whose name has a blank.
def addsX : List File :=
  oneHunk "a.rs" [.added (line "x" (by decide))]

def addsY : List File :=
  oneHunk "a.rs" [.added (line "y" (by decide))]

def addsXAndNotes : List File :=
  addsX ++ oneHunk "my notes" [.added (line "x" (by decide))]

theorem not_lossless_addsY :
    ¬Lossless 1 2 false false addsX addsY ∧ ¬Lossless 1 2 false false addsX addsXAndNotes := by
  have closes {db : List File} (hh : ¬Held false false addsX db) (hc : Covers addsX db) :
      resolveCompeting (candidate 1 false addsX) (candidate 2 false db) = .mergeClose 1 2 := by
    rw [resolveCompeting_eq hh, if_pos (covers_iff.mpr hc)]
  unfold Held Covers at closes
  constructor
  · exact fun h => absurd (h.second (closes (by decide +kernel) (by decide +kernel))).lines (by decide +kernel)
  · exact fun h => absurd (h.second (closes (by decide +kernel) (by decide +kernel))).files (by decide +kernel)

def addsXAndY : List File :=
  oneHunk "a.rs" [.added (line "x" (by decide)), .added (line "y" (by decide))]

theorem lossless_iff_addsXAndY : Lossless 1 2 false false addsXAndY addsX := by
  refine (lossless_iff (by decide)).mpr (.inr ⟨fun _ => ⟨fun f hf _ n hn => ?_, by decide +kernel⟩, fun hn => ?_⟩)
  · have ht : ∀ n ∈ touched addsX, n ∈ touched addsXAndY := by decide +kernel
    exact ht n (List.mem_flatMap.mpr ⟨f, hf, hn⟩)
  · have hc : (addsX.filterMap File.target).all ((addsXAndY.filterMap File.target).contains ·) := by decide +kernel
    exact absurd (covers_iff.mp hc) hn

end Diff
