import CoxAgent.Release.Cut

-- What the version bump of a release and its changelog say about the same subjects.

inductive ChangelogSection where
  | features
  | fixes
  | other
deriving DecidableEq, Repr

-- The subjects that prove something.
def carried (subjects : List String) : List String :=
  subjects.map Text.trim |>.filter fun s =>
    !(Text.startsWith s "Merge " || Text.startsWith s "release:" || s = "")

def patchKinds : List String :=
  ["fix", "chore", "docs", "refactor", "perf", "test"]

-- The subject starts with the kind, and the kind ends there.
def Announces (kind subject : String) : Prop :=
  subject = kind ∨ ∃ c ∈ [':', '(', '!'], Text.startsWith subject (kind.push c)

namespace ChangelogSection

def title : ChangelogSection → String
  | features => "### Features"
  | fixes    => "### Fixes"
  | other    => "### Other"

def of (subject : String) : ChangelogSection :=
  if Text.startsWith subject "feat" then features
  else if Text.startsWith subject "fix" then fixes
  else other

def listed (sec : ChangelogSection) (subjects : List String) : List String :=
  carried subjects |>.filter (of · = sec)

variable {sec : ChangelogSection} {subjects : List String} {s : String}

theorem mem_listed : s ∈ sec.listed subjects ↔ s ∈ carried subjects ∧ of s = sec := by
  simp [listed]

theorem listed_sublist : (sec.listed subjects).Sublist (carried subjects) :=
  List.filter_sublist

theorem count_listed_of : ((of s).listed subjects).count s = (carried subjects).count s :=
  List.count_filter (by simp)

theorem of_eq_features : of s = features ↔ Text.startsWith s "feat" := by
  grind [of]

theorem of_eq_fixes : of s = fixes ↔ Text.startsWith s "fix" := by
  have hne (hf : Text.startsWith s "feat") (hx : Text.startsWith s "fix") : False := by
    have ⟨l, hl⟩ := List.isPrefixOf_iff_prefix.mp hf
    have ⟨l', hl'⟩ := List.isPrefixOf_iff_prefix.mp hx
    have := hl.trans hl'.symm
    simp at this
  grind [of]

theorem listed_eq_nil : sec.listed subjects = [] ↔ ∀ s ∈ carried subjects, of s ≠ sec := by
  simp [listed]

end ChangelogSection

section Agreement

open ChangelogSection

theorem changelog_eq {next : String} {subjects : List String} : changelog next subjects =
    "## v" ++ next ++ "\n" ++
      String.join ([features, fixes, other].map fun sec =>
        changelogPart sec.title (sec.listed subjects)) ++
      "\nMerging this PR IS the release: the merged-PR sync tags it.\n" := by
  have hf : features.listed subjects = (carried subjects).filter (Text.startsWith · "feat") :=
    List.filter_congr fun s _ => by simp [of_eq_features]
  have hx : fixes.listed subjects =
      (carried subjects).filter fun s => !Text.startsWith s "feat" && Text.startsWith s "fix" :=
    List.filter_congr fun s _ => by grind [of]
  have ho : other.listed subjects =
      (carried subjects).filter fun s =>
        !Text.startsWith s "feat" && !(!Text.startsWith s "feat" && Text.startsWith s "fix") :=
    List.filter_congr fun s _ => by grind [of]
  simp [hf, hx, ho, changelog, carried, title, String.join, String.append_assoc]

section Kind

variable {kind subject : String} {c : Char} {p : Char → Bool} {k l : List Char}

-- What is taken ends at the end, or before the first that fails.
theorem takeWhile_eq_iff (hk : ∀ c ∈ k, p c) : l.takeWhile p = k ↔ l = k ∨ ∃ c, ¬p c ∧ k ++ [c] <+: l := by
  induction l generalizing k with
  | nil         => cases k <;> simp
  | cons a l hi =>
    cases k with
    | nil      =>
      by_cases ha : p a <;> simp [ha]
    | cons b k =>
      have hb : p b := hk b (by simp)
      have hi := hi (k := k) fun c hc => hk c (by simp [hc])
      by_cases hab : a = b
      case pos =>
        subst hab
        simp [hb, hi]
      case neg =>
        by_cases ha : p a <;> simp [ha, hab, Ne.symm hab]

theorem commitKind_eq_iff (hk : ∀ c ∈ kind.toList, c ∉ [':', '(', '!']) :
    commitKind subject = kind ↔ Announces kind subject := by
  have he : commitKind subject = kind ↔ subject.toList.takeWhile (· ∉ [':', '(', '!']) = kind.toList := by
    rw [commitKind, ← String.toList_inj, String.toList_ofList]
  rw [he, takeWhile_eq_iff (by simpa using hk), Announces, String.toList_inj]
  refine or_congr_right (exists_congr fun c => and_congr (by simp [or_iff_not_imp_left]) ?_)
  rw [Text.startsWith, List.isPrefixOf_iff_prefix, String.toList_push]

end Kind

section Bump

variable {subjects : List String} {patch : Bool} {s : String}

theorem exists_carried_cons {P : String → Prop} (hP : ¬P "") : (∃ x ∈ carried (s :: subjects), P x) ↔
    (¬(Text.startsWith (Text.trim s) "Merge " || Text.startsWith (Text.trim s) "release:") ∧ P (Text.trim s)) ∨
      ∃ x ∈ carried subjects, P x := by
  have hm (x : String) : x ∈ carried (s :: subjects) ↔
      (x = Text.trim s ∧ !(Text.startsWith x "Merge " || Text.startsWith x "release:" || x = "")) ∨
        x ∈ carried subjects := by
    rw [carried, List.map_cons, List.filter_cons]
    split
    case isTrue h  => rw [List.mem_cons]; grind [carried]
    case isFalse h => grind [carried]
  simp only [hm, or_and_right, exists_or]
  refine or_congr_left ?_
  grind

theorem classifyBump_minor :
    classifyBump patch subjects = some .minor ↔ ∃ s ∈ carried subjects, commitKind s = "feat" := by
  induction subjects generalizing patch with
  | nil              => cases patch <;> simp [classifyBump, carried]
  | cons s subjects hi =>
    rw [exists_carried_cons (by decide), classifyBump]
    split
    case isTrue h  => rw [hi]; grind
    case isFalse h =>
      split
      case isTrue hk  => simp [h, hk]
      case isFalse hk => rw [hi]; grind

theorem classifyBump_none : classifyBump patch subjects = none ↔
    patch = false ∧ ¬∃ s ∈ carried subjects, commitKind s ∈ "feat" :: patchKinds := by
  induction subjects generalizing patch with
  | nil                => cases patch <;> simp [classifyBump, carried]
  | cons s subjects hi =>
    rw [exists_carried_cons (by decide), classifyBump]
    split
    case isTrue h  => rw [hi]; grind
    case isFalse h =>
      split
      case isTrue hk  => simp [h, hk]
      case isFalse hk =>
        rw [hi, Bool.or_eq_false_iff, decide_eq_false_iff_not, List.mem_cons]
        grind [patchKinds]

end Bump

-- The bump says of the features and the fixes what the changelog lists, and every subject is listed once, in
-- its order.
structure BumpAgrees (subjects : List String) : Prop where
  minor    : classifyBump false subjects = some .minor ↔ features.listed subjects ≠ []
  none     : classifyBump false subjects = none → features.listed subjects = [] ∧ fixes.listed subjects = []
  rendered : ∀ next, changelog next subjects = "## v" ++ next ++ "\n" ++
    String.join ([features, fixes, other].map fun sec =>
      changelogPart sec.title (sec.listed subjects)) ++
    "\nMerging this PR IS the release: the merged-PR sync tags it.\n"
  once     : ∀ s ∈ carried subjects, ∃ sec : ChangelogSection,
    (sec.listed subjects).count s = (carried subjects).count s ∧
      ∀ sec', sec' ≠ sec → s ∉ sec'.listed subjects
  order    : ∀ sec : ChangelogSection, (sec.listed subjects).Sublist (carried subjects)

-- Where something starts like a feature something is one, and where something starts like a fix something
-- is released.
structure Announced (subjects : List String) : Prop where
  feature : (∃ s ∈ carried subjects, Text.startsWith s "feat") → ∃ s ∈ carried subjects, Announces "feat" s
  fix     : (∃ s ∈ carried subjects, Text.startsWith s "fix") →
    ∃ s ∈ carried subjects, ∃ kind ∈ "feat" :: patchKinds, Announces kind s

theorem minor_iff_announces {subjects : List String} :
    classifyBump false subjects = some .minor ↔ ∃ s ∈ carried subjects, Announces "feat" s := by
  rw [classifyBump_minor]
  exact exists_congr fun s => and_congr_right fun _ => commitKind_eq_iff (by simp)

theorem none_iff_announces {subjects : List String} : classifyBump false subjects = none ↔
    ¬∃ s ∈ carried subjects, ∃ kind ∈ "feat" :: patchKinds, Announces kind s := by
  have hk : ∀ kind ∈ "feat" :: patchKinds, ∀ c ∈ kind.toList, c ∉ [':', '(', '!'] := by simp [patchKinds]
  have hm (s : String) :
      commitKind s ∈ "feat" :: patchKinds ↔ ∃ kind ∈ "feat" :: patchKinds, Announces kind s := by
    constructor
    case mp  => exact fun h => ⟨commitKind s, h, (commitKind_eq_iff (hk _ h)).mp rfl⟩
    case mpr =>
      intro ⟨kind, hkind, ha⟩
      rwa [(commitKind_eq_iff (hk _ hkind)).mpr ha]
  rw [classifyBump_none]
  simp only [true_and, hm]

theorem features_ne_nil {subjects : List String} :
    features.listed subjects ≠ [] ↔ ∃ s ∈ carried subjects, Text.startsWith s "feat" := by
  simp [listed_eq_nil, of_eq_features]

theorem fixes_ne_nil {subjects : List String} :
    fixes.listed subjects ≠ [] ↔ ∃ s ∈ carried subjects, Text.startsWith s "fix" := by
  simp [listed_eq_nil, of_eq_fixes]

theorem bump_agrees_iff {subjects : List String} : BumpAgrees subjects ↔ Announced subjects := by
  constructor
  case mp =>
    intro h
    refine ⟨fun hf => ?_, fun hx => ?_⟩
    case refine_1 => exact minor_iff_announces.mp (h.minor.mpr (features_ne_nil.mpr hf))
    case refine_2 =>
      by_contra hn
      exact fixes_ne_nil.mpr hx (h.none (none_iff_announces.mpr hn)).right
  case mpr =>
    intro h
    have hminor : classifyBump false subjects = some .minor ↔ features.listed subjects ≠ [] := by
      rw [minor_iff_announces, features_ne_nil]
      refine ⟨?_, h.feature⟩
      intro ⟨s, hs, ha⟩
      refine ⟨s, hs, ?_⟩
      obtain rfl | ⟨c, -, hp⟩ := ha
      case inl => decide
      case inr =>
        rw [Text.startsWith, List.isPrefixOf_iff_prefix, String.toList_push] at hp
        exact List.isPrefixOf_iff_prefix.mpr ((List.prefix_append _ _).trans hp)
    refine ⟨hminor, fun hn => ⟨?_, ?_⟩, fun _ => changelog_eq, fun s hs => ?_, fun _ => listed_sublist⟩
    case refine_1 =>
      by_contra hf
      rw [hminor.mpr hf] at hn
      contradiction
    case refine_2 =>
      by_contra hx
      exact none_iff_announces.mp hn (h.fix (fixes_ne_nil.mp hx))
    case refine_3 =>
      exact ⟨of s, count_listed_of, fun _ hne hm => hne (mem_listed.mp hm).right.symm⟩

-- A feature in another spelling is in the changelog, and releases nothing.
theorem bump_not_agrees : ¬∀ subjects, BumpAgrees subjects := by
  intro h
  have hm := (h ["feature: dark mode"]).minor
  revert hm
  decide

end Agreement
