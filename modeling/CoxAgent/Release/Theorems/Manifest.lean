import CoxAgent.Release.Manifest
import CoxAgent.Release.Theorems.Refs

-- Which subjects the two manifests include, and where they agree.

open Scan

-- The refs of a subject, in the case of the ids: the marks of its fields.
def refsOf (isRef : List Char → List Char → Bool) (greedy : Bool) (subject : String) : List String :=
  (marksIn fieldChars isRef greedy subject.toList).map fun ref => .ofList (ref.map (·.toUpper))

-- There are refs, and each is the id of a complete ticket of the project.
def Ships (refs : List String) (complete : Ticket → Bool) (s : ProjectState) : Prop :=
  refs ≠ [] ∧ ∀ r ∈ refs, ∃ t ∈ s.tickets, t.id.asStr = r ∧ complete t

instance (refs : List String) (complete : Ticket → Bool) (s : ProjectState) :
    Decidable (Ships refs complete s) := by
  unfold Ships
  infer_instance

section Refs

variable {isRef : List Char → List Char → Bool} {greedy : Bool} {l w : List Char} {c : Char}
  {subject : String} {complete : Ticket → Bool} {s : ProjectState} {refs : List String}

theorem outside_of_isWhitespace (hc : Text.isWhitespace c) :
    fieldChars.isField c = false ∧ c ≠ fieldChars.dash := by
  constructor
  case left =>
    have hn : ¬c.isAlphanum := by
      simp only [Text.isWhitespace, decide_eq_true_eq] at hc
      rw [Char.isAlphanum, Bool.or_eq_true, isAlpha_iff, isUpper_iff, isLower_iff, isDigit_iff]
      omega
    simpa [fieldChars] using hn
  case right =>
    rintro rfl
    contradiction

theorem marksIn_append_cons (hc : Text.isWhitespace c) :
    marksIn fieldChars isRef greedy (w ++ c :: l) =
      marksIn fieldChars isRef greedy w ++ marksIn fieldChars isRef greedy l := by
  obtain ⟨hf, hd⟩ := outside_of_isWhitespace hc
  rw [marksIn, words_append_cons hf hd, List.flatMap_append]
  rfl

theorem marksIn_nil : marksIn fieldChars isRef greedy [] = [] :=
  rfl

theorem marksIn_dropWhile :
    marksIn fieldChars isRef greedy (l.dropWhile Text.isWhitespace) = marksIn fieldChars isRef greedy l := by
  induction l
  case nil => rfl
  case cons c l hi =>
    rw [List.dropWhile_cons]
    split
    case isTrue hc =>
      have hcons := @marksIn_append_cons isRef greedy l [] c hc
      rw [List.nil_append, marksIn_nil, List.nil_append] at hcons
      rw [hcons, hi]
    case isFalse => rfl

-- White space at the ends is in no word.
theorem marksIn_trimChars :
    marksIn fieldChars isRef greedy (Text.trimChars l) = marksIn fieldChars isRef greedy l := by
  have hright (m : List Char) :
      marksIn fieldChars isRef greedy (m.rdropWhile Text.isWhitespace) = marksIn fieldChars isRef greedy m := by
    induction m using List.reverseRecOn
    case nil => rfl
    case append_singleton m c hi =>
      rw [List.rdropWhile_concat]
      split
      case isTrue hc  => rw [hi, marksIn_append_cons hc, marksIn_nil, List.append_nil]
      case isFalse => rfl
  rw [Text.trimChars, hright, marksIn_dropWhile]

theorem refsOf_trim : refsOf isRef greedy (Text.trim subject) = refsOf isRef greedy subject := by
  rw [refsOf, Text.trim, String.toList_ofList, marksIn_trimChars]
  rfl

theorem ticketRefs_marksIn :
    ticketRefs (marksIn fieldChars isRef greedy subject.toList) =
      if refsOf isRef greedy subject = [] then none else some (refsOf isRef greedy subject) :=
  rfl

theorem ships_iff :
    Ships refs complete s ↔
      refs ≠ [] ∧ ∀ r ∈ refs, r ∈ (s.tickets.filter complete).map (·.id.asStr) := by
  have hid (r : String) : (∃ t ∈ s.tickets, t.id.asStr = r ∧ complete t) ↔
      r ∈ (s.tickets.filter complete).map (·.id.asStr) := by
    simp only [List.mem_map, List.mem_filter]
    exact exists_congr fun t => by tauto
  simp only [Ships, hid]

-- A fold that collects some of the subjects.
theorem foldl_collect {σ : Type} (get : σ → List String) {f : σ → String → σ} {p : String → Bool}
    {g : String → String} {l : List String} {m : σ}
    (hf : ∀ m, ∀ x ∈ l, get (f m x) = get m ++ if p x then [g x] else []) :
    get (l.foldl f m) = get m ++ (l.filter p).map g := by
  induction l generalizing m
  case nil => simp
  case cons x l hi =>
    rw [List.foldl_cons, hi fun m y hy => hf m y (List.mem_cons_of_mem _ hy), hf m x List.mem_cons_self]
    cases hp : p x <;> simp [hp]

end Refs

namespace ReleaseCandidates

variable {verified subjects : List String} {outcome : ManifestOutcome} {subject : String} {s : ProjectState}

def refs (subject : String) : List String :=
  refsOf isRef true subject

theorem extractTicketRefs_trim :
    extractTicketRefs (Text.trim subject) = if refs subject = [] then none else some (refs subject) := by
  rw [extractTicketRefs_eq, ticketRefs_marksIn, refsOf_trim]
  rfl

theorem ships_complete {refs : List String} :
    Ships refs isVerifiedComplete s ↔ refs ≠ [] ∧ ∀ r ∈ refs, r ∈ verifiedCompleteIds s :=
  ships_iff

-- A subject ships in a state if it proves something and has refs to complete tickets only.
def Included (s : ProjectState) (subject : String) : Prop :=
  ¬skipped (Text.trim subject) ∧ Ships (refs subject) isVerifiedComplete s

instance : Decidable (Included s subject) := by
  unfold Included
  infer_instance

-- What one subject adds to the included ones.
theorem included_considerSubject :
    (considerSubject (verifiedCompleteIds s) outcome subject).included =
      outcome.included ++ if Included s subject then [Text.trim subject] else [] := by
  have hunverified : (refs subject).filter (· ∉ verifiedCompleteIds s) = [] ↔
      ∀ r ∈ refs subject, r ∈ verifiedCompleteIds s := by
    simp [List.filter_eq_nil_iff]
  by_cases hp : skipped (Text.trim subject)
  case pos => simp [considerSubject, Included, hp]
  case neg =>
    simp only [considerSubject, Included, if_neg hp, extractTicketRefs_trim, ships_complete]
    by_cases hr : refs subject = []
    case pos => simp [hr]
    case neg =>
      simp only [if_neg hr, hunverified]
      split
      case isTrue h  => rw [if_pos ⟨hp, hr, h⟩]
      case isFalse h => rw [if_neg fun hs => h hs.right.right, List.append_nil]

theorem included_filterIncluded :
    (filterIncluded subjects (verifiedCompleteIds s)).included =
      (subjects.filter (Included s)).map Text.trim := by
  have hc := foldl_collect ManifestOutcome.included (m := {}) (g := Text.trim) (p := fun x => Included s x)
    (f := considerSubject (verifiedCompleteIds s)) (l := subjects)
    fun m x hx => by simpa using included_considerSubject
  simpa [filterIncluded] using hc

end ReleaseCandidates

namespace ReleaseAssembly

variable {verified subjects : List String} {m : SubjectManifest} {subject : String} {s : ProjectState}

def refs (subject : String) : List String :=
  refsOf isRef false subject

theorem extractTicketRefs_refs :
    extractTicketRefs subject = if refs subject = [] then none else some (refs subject) := by
  rw [extractTicketRefs_eq, ticketRefs_marksIn]
  rfl

theorem ships_complete {refs : List String} :
    Ships refs isVerifiedComplete s ↔ refs ≠ [] ∧ ∀ r ∈ refs, r ∈ verifiedCompleteIds s :=
  ships_iff

theorem included_correlateSubject :
    (correlateSubject (verifiedCompleteIds s) m subject).included =
      m.included ++ if Ships (refs subject) isVerifiedComplete s then [subject] else [] := by
  have hall : (refs subject).all (· ∈ verifiedCompleteIds s) ↔ ∀ r ∈ refs subject, r ∈ verifiedCompleteIds s := by
    simp
  simp only [correlateSubject, extractTicketRefs_refs, ships_complete]
  by_cases hr : refs subject = []
  case pos => simp [hr]
  case neg =>
    simp only [if_neg hr, hall]
    split
    case isTrue h  => rw [if_pos ⟨hr, h⟩]
    case isFalse h => rw [if_neg fun hs => h hs.right, List.append_nil]

theorem included_filterVerifiedSubjects :
    (filterVerifiedSubjects subjects (verifiedCompleteIds s)).included =
      subjects.filter fun x => Ships (refs x) isVerifiedComplete s := by
  have hc := foldl_collect SubjectManifest.included (m := {}) (g := id)
    (p := fun x => Ships (refs x) isVerifiedComplete s) (f := correlateSubject (verifiedCompleteIds s))
    (l := subjects) fun m x hx => by simpa using included_correlateSubject
  simpa [filterVerifiedSubjects] using hc

end ReleaseAssembly

section Agreement

variable {subject : String} {subjects : List String} {s : ProjectState} {a b : List Char}
  {fs : List (List Char)}

-- Every two neighbouring fields of the subject are a ref to both readers or to none.
def SameShape (subject : String) : Prop :=
  ∀ w ∈ words fieldChars subject.toList, ∀ a b, [a, b] <:+: fields fieldChars w →
    ReleaseCandidates.isRef a b = ReleaseAssembly.isRef a b

-- The last field of a ref is not letters alone, so no other ref starts with it.
theorem not_isRef_of_isRef {c : List Char} (h : ReleaseAssembly.isRef a b) :
    ReleaseAssembly.isRef b c = false := by
  simp only [ReleaseAssembly.isRef, ReleaseAssembly.isCode, Bool.and_eq_true, decide_eq_true_eq] at h
  obtain ⟨d, hd⟩ := List.exists_mem_of_ne_nil _ h.right.left
  have hdigit : d.isDigit := List.mem_takeWhile_imp hd
  have hb : d ∈ b := by
    rw [← h.right.right]
    exact List.mem_append_right _ hd
  have hall : b.all (·.isAlpha) = false := by
    rw [List.all_eq_false]
    exact ⟨d, hb, by simp [isAlpha_of_isDigit hdigit]⟩
  simp [ReleaseAssembly.isRef, hall]

theorem marks_of_isRef (h : ReleaseAssembly.isRef a b) :
    marks fieldChars ReleaseAssembly.isRef false (b :: fs) = marks fieldChars ReleaseAssembly.isRef false fs := by
  cases fs
  case nil       => rfl
  case cons c fs => rw [marks, not_isRef_of_isRef h, if_neg Bool.false_ne_true]

theorem marks_eq (h : ∀ a b, [a, b] <:+: fs → ReleaseCandidates.isRef a b = ReleaseAssembly.isRef a b) :
    marks fieldChars ReleaseCandidates.isRef true fs = marks fieldChars ReleaseAssembly.isRef false fs := by
  have tail {f : List Char} {l : List (List Char)} (hl : ∀ a b, [a, b] <:+: f :: l →
      ReleaseCandidates.isRef a b = ReleaseAssembly.isRef a b) :
      ∀ a b, [a, b] <:+: l → ReleaseCandidates.isRef a b = ReleaseAssembly.isRef a b :=
    fun a b hab => hl a b (List.infix_cons hab)
  fun_induction marks fieldChars ReleaseCandidates.isRef true fs
  case case1 a b fs hm hi hi' =>
    have hm' : ReleaseAssembly.isRef a b := h a b ⟨[], fs, rfl⟩ ▸ hm
    rw [if_pos rfl, hi (tail (tail h)), marks, if_pos hm', if_neg Bool.false_ne_true, marks_of_isRef hm']
  case case2 a b fs hm hi =>
    have hm' : ¬ReleaseAssembly.isRef a b := h a b ⟨[], fs, rfl⟩ ▸ hm
    rw [hi (tail h), marks, if_neg hm']
  case case3 fs hfs =>
    cases fs
    case nil => rfl
    case cons f fs =>
      cases fs
      case nil       => rfl
      case cons g fs => exact (hfs f g fs rfl).elim

theorem refs_eq (h : SameShape subject) : ReleaseCandidates.refs subject = ReleaseAssembly.refs subject := by
  have hm : marksIn fieldChars ReleaseCandidates.isRef true subject.toList =
      marksIn fieldChars ReleaseAssembly.isRef false subject.toList := by
    rw [marksIn, marksIn]
    exact List.flatMap_congr fun w hw => marks_eq (h w hw)
  rw [ReleaseCandidates.refs, ReleaseAssembly.refs, refsOf, hm, refsOf]

theorem ships_congr {refs : List String} {p q : Ticket → Bool} (h : ∀ t ∈ s.tickets, p t = q t) :
    Ships refs p s ↔ Ships refs q s := by
  have ht : s.tickets.filter p = s.tickets.filter q := List.filter_congr h
  rw [ships_iff, ships_iff, ht]

-- Each manifest includes the subjects with refs of its shape that are all ids of complete tickets. They
-- agree on the subjects that have the same refs to both, if they count the same tickets as complete.
theorem ProjectState.manifests_exact (hp : ∀ x ∈ subjects, ¬ReleaseCandidates.skipped (Text.trim x)) :
    let candidates := ReleaseCandidates.filterIncluded subjects (ReleaseCandidates.verifiedCompleteIds s)
    let manifest := ReleaseAssembly.filterVerifiedSubjects subjects (ReleaseAssembly.verifiedCompleteIds s)
    candidates.included = (subjects.filter fun x =>
      Ships (ReleaseCandidates.refs x) ReleaseCandidates.isVerifiedComplete s).map Text.trim ∧
    (manifest.included = subjects.filter fun x => Ships (ReleaseAssembly.refs x) isVerifiedComplete s) ∧
    ((∀ x ∈ subjects, SameShape x) →
      (∀ t ∈ s.tickets, ReleaseCandidates.isVerifiedComplete t = isVerifiedComplete t) →
      candidates.included = manifest.included.map Text.trim) := by
  intro candidates manifest
  have hc : candidates.included = (subjects.filter fun x =>
      Ships (ReleaseCandidates.refs x) ReleaseCandidates.isVerifiedComplete s).map Text.trim := by
    rw [ReleaseCandidates.included_filterIncluded]
    refine congrArg _ (List.filter_congr fun x hx => ?_)
    rw [decide_eq_decide, ReleaseCandidates.Included, and_iff_right (hp x hx)]
  have hm : manifest.included = _ := ReleaseAssembly.included_filterVerifiedSubjects
  refine ⟨hc, hm, ?_⟩
  intro hshape hcomplete
  rw [hc, hm]
  congr 1
  refine List.filter_congr fun x hx => ?_
  rw [refs_eq (hshape x hx), decide_eq_decide, ships_congr hcomplete]

theorem sameShape_read : SameShape "feat(CXA-F001): read" := by
  have hw : words fieldChars "feat(CXA-F001): read".toList =
      ["feat".toList, "CXA-F001".toList, [], [], "read".toList] := by decide
  intro w hm a b hab
  have hlen : 2 ≤ (fields fieldChars w).length := hab.length_le
  rw [hw] at hm
  simp only [List.mem_cons, List.not_mem_nil, or_false] at hm
  rcases hm with rfl | rfl | rfl | rfl | rfl
  case inr.inl =>
    have he : [a, b] = ["CXA".toList, "F001".toList] := hab.eq_of_length rfl
    cases he
    decide
  all_goals exact absurd hlen (by decide)

theorem ProjectState.manifests_exact_read :
    let s : ProjectState := { tickets := [{ id := ⟨"CXA-F001"⟩, kind := .feature, title := "read", status := .done }] }
    let subjects := ["feat(CXA-F001): read"]
    let candidates := ReleaseCandidates.filterIncluded subjects (ReleaseCandidates.verifiedCompleteIds s)
    let manifest := ReleaseAssembly.filterVerifiedSubjects subjects (ReleaseAssembly.verifiedCompleteIds s)
    candidates.included = manifest.included.map Text.trim := by
  intro s subjects candidates manifest
  have hp : ∀ x ∈ subjects, ¬ReleaseCandidates.skipped (Text.trim x) := by decide
  exact (ProjectState.manifests_exact hp).right.right (List.forall_mem_singleton.mpr sameShape_read)
    (by decide)

-- A subject with a complete ticket and another word of the shape is in neither manifest, and a ref that
-- only one of them reads makes them differ.
theorem ProjectState.not_manifests_exact :
    let s : ProjectState := { tickets := [{ id := ⟨"CXA-F001"⟩, kind := .feature, title := "read", status := .done }] }
    let included x := (ReleaseCandidates.filterIncluded [x] (ReleaseCandidates.verifiedCompleteIds s)).included
    let included' x :=
      (ReleaseAssembly.filterVerifiedSubjects [x] (ReleaseAssembly.verifiedCompleteIds s)).included
    let prose := "feat(CXA-F001): read UTF-8"
    let names := "feat(CXA-F001): read CXA-NEW"
    ReleaseCandidates.verifiedCompleteIds s = ["CXA-F001"] ∧
      ReleaseAssembly.verifiedCompleteIds s = ["CXA-F001"] ∧
      ReleaseCandidates.refs prose = ["CXA-F001", "UTF-8"] ∧ ReleaseAssembly.refs prose = ["CXA-F001", "UTF-8"] ∧
      included prose = [] ∧ included' prose = [] ∧ included names = [] ∧ included' names = [names] := by
  decide

end Agreement
