import CoxAgent.Coverage.Record
import CoxAgent.Domain.Theorems.Verified
import Mathlib.Data.List.Pairwise

namespace Ticket

variable {t : Ticket} {d d' : String} {f g : TestCase → TestCase} {tc : TestCase} {tcs : List TestCase}

-- The cases after a change of the first one with the text.
def updated (d : String) (f : TestCase → TestCase) (tcs : List TestCase) : List TestCase :=
  (updateCase d f tcs).getD tcs

theorem updated_cons :
    updated d f (tc :: tcs) = if tc.description = d then f tc :: tcs else tc :: updated d f tcs := by
  rw [updated, updateCase]
  split
  case isTrue  => rfl
  case isFalse => cases h : updateCase d f tcs <;> simp [updated, h]

theorem withCase_snd : (t.withCase d f).2 = { t with testCases := updated d f t.testCases } := by
  unfold withCase
  split
  case h_1 h => simp [updated, h]
  case h_2 h => simp [updated, h]

theorem updated_self : updated d (fun tc => tc) tcs = tcs := by
  induction tcs
  case nil            => rfl
  case cons tc tcs hi => simp [updated_cons, hi]

theorem updated_updated (hf : ∀ tc, (f tc).description = tc.description) :
    updated d g (updated d f tcs) = updated d (g ∘ f) tcs := by
  induction tcs
  case nil => rfl
  case cons tc tcs hi => by_cases h : tc.description = d <;> simp [updated_cons, h, hf, hi]

theorem updated_comm (hf : ∀ tc, (f tc).description = tc.description)
    (hg : ∀ tc, (g tc).description = tc.description) (hd : d ≠ d') :
    updated d' g (updated d f tcs) = updated d f (updated d' g tcs) := by
  induction tcs
  case nil => rfl
  case cons tc tcs hi =>
    by_cases h : tc.description = d
    case pos => simp [updated_cons, h, hf, hd]
    case neg =>
      by_cases h' : tc.description = d'
      case pos => simp [updated_cons, h', hg, hd.symm]
      case neg => simp [updated_cons, h, h', hi]

theorem descriptions_updated (hf : ∀ tc, (f tc).description = tc.description) :
    (updated d f tcs).map (·.description) = tcs.map (·.description) := by
  induction tcs
  case nil => rfl
  case cons tc tcs hi => by_cases h : tc.description = d <;> simp [updated_cons, h, hf, hi]

theorem withCase_self : (t.withCase d fun tc => tc).2 = t := by
  rw [withCase_snd, updated_self]

theorem withCase_withCase (hf : ∀ tc, (f tc).description = tc.description) :
    ((t.withCase d f).2.withCase d g).2 = (t.withCase d (g ∘ f)).2 := by
  simp [withCase_snd, updated_updated hf]

-- The first case with the text is the one that changes.
theorem updated_split (h : ∃ tc ∈ tcs, tc.description = d) : ∃ l₁ tc l₂,
    tcs = l₁ ++ tc :: l₂ ∧ tc.description = d ∧ updated d f tcs = l₁ ++ f tc :: l₂ := by
  induction tcs
  case nil => simp at h
  case cons tc tcs hi =>
    by_cases hd : tc.description = d
    case pos => exact ⟨[], tc, tcs, rfl, hd, by simp [updated_cons, hd]⟩
    case neg =>
      have ⟨c, hm, hc⟩ := h
      have hm : c ∈ tcs := (List.mem_cons.mp hm).resolve_left fun he => hd (he ▸ hc)
      have ⟨l₁, c', l₂, hl, hc', hu⟩ := hi ⟨c, hm, hc⟩
      refine ⟨tc :: l₁, c', l₂, by rw [hl, List.cons_append], hc', ?_⟩
      rw [updated_cons, if_neg hd, hu, List.cons_append]

-- There is one case for each criterion, in order.
def InSync (t : Ticket) : Prop :=
  t.testCases.map (·.description) = t.acceptanceCriteria

theorem inSync_ensure : t.ensureTestCasesFromAcceptance.InSync := by
  cases t.ensure_cases
  case inr he => exact he.1.symm ▸ he.2
  case inl he =>
    rw [he, InSync, syncTestCasesFromAcceptance, List.map_map]
    refine List.map_id'' (fun ac => ?_) _
    change ((t.caseOf ac).getD (.pending ac)).description = ac
    cases hc : t.caseOf ac
    case none   => rfl
    case some c => simpa using List.find?_some hc

theorem zip_descriptions : (tcs.zip (tcs.map (·.description))).all fun (tc, ac) => tc.description = ac := by
  induction tcs
  case nil            => rfl
  case cons tc tcs hi => simpa using hi

theorem InSync.ensure_eq (h : t.InSync) : t.ensureTestCasesFromAcceptance = t := by
  have hs : t.testCases.length = t.acceptanceCriteria.length ∧
      (t.testCases.zip t.acceptanceCriteria).all fun (tc, ac) => tc.description = ac := by
    rw [← h, List.length_map]
    exact ⟨rfl, zip_descriptions⟩
  simp only [ensureTestCasesFromAcceptance, if_pos hs]

theorem InSync.withCase (h : t.InSync) (hf : ∀ tc, (f tc).description = tc.description) :
    (t.withCase d f).2.InSync := by
  rw [withCase_snd, InSync, descriptions_updated hf]
  exact h

@[simp]
theorem ensure_acceptanceCriteria : t.ensureTestCasesFromAcceptance.acceptanceCriteria = t.acceptanceCriteria := by
  cases t.ensure_cases
  case inl he => rw [he, syncTestCasesFromAcceptance]
  case inr he => rw [he.1]

end Ticket

namespace Coverage

open Text Ticket

variable {at' : String} {hostPort : Option UInt16} {t : Ticket} {v w : TestVerdict} {c ac : String}

section Apply

-- What a verdict makes of the case of its criterion: the verdict itself, where its proof lives, and the link.
def judged (at' : String) (v : TestVerdict) (tc : TestCase) : TestCase :=
  tc.setResult v.passed (if trim v.note = "" then none else some (trim v.note)) none at'

def sourced (v : TestVerdict) (tc : TestCase) : TestCase :=
  if sourcesFor v = [] then tc else tc.setSources (sourcesFor v)

def linked (hostPort : Option UInt16) (v : TestVerdict) (tc : TestCase) : TestCase :=
  match liveReproUrl v.route hostPort with
  | some url => if trim url = "" then tc else tc.setRepro url
  | none     => tc

def judge (at' : String) (hostPort : Option UInt16) (v : TestVerdict) : TestCase → TestCase :=
  linked hostPort v ∘ sourced v ∘ judged at' v

theorem sourced_frame {tc : TestCase} :
    (sourced v tc).description = tc.description ∧ (sourced v tc).status = tc.status := by
  unfold sourced
  split <;> exact ⟨rfl, rfl⟩

theorem linked_frame {tc : TestCase} :
    (linked hostPort v tc).description = tc.description ∧ (linked hostPort v tc).status = tc.status := by
  unfold linked
  split
  case h_1 => split <;> exact ⟨rfl, rfl⟩
  case h_2 => exact ⟨rfl, rfl⟩

theorem description_judge (tc : TestCase) : (judge at' hostPort v tc).description = tc.description :=
  linked_frame.1.trans sourced_frame.1

theorem status_judge (tc : TestCase) :
    (judge at' hostPort v tc).status = if v.passed then .passed else .failed :=
  linked_frame.2.trans sourced_frame.2

def applied (at' : String) (hostPort : Option UInt16) (c : String) (v : TestVerdict) (t : Ticket) : Ticket :=
  (t.ensureTestCasesFromAcceptance.withCase c (judge at' hostPort v)).2

theorem sourced_snd (r : Bool × Ticket) :
    (if sourcesFor v = [] then r else
      (r.1 || (r.2.setTestCaseSources c (sourcesFor v)).1, (r.2.setTestCaseSources c (sourcesFor v)).2)).2 =
        (r.2.withCase c (sourced v)).2 := by
  split
  case isTrue h =>
    have he : sourced v = fun tc => tc := funext fun tc => if_pos h
    rw [he, withCase_self]
  case isFalse h =>
    have he : sourced v = (·.setSources (sourcesFor v)) := funext fun tc => if_neg h
    rw [he, setTestCaseSources]

theorem linked_snd (r : Bool × Ticket) :
    (match liveReproUrl v.route hostPort with
      | some url => (r.1 || (r.2.setTestCaseRepro c url).1, (r.2.setTestCaseRepro c url).2)
      | none     => r).2 = (r.2.withCase c (linked hostPort v)).2 := by
  unfold setTestCaseRepro
  cases h : liveReproUrl v.route hostPort
  case none =>
    have he : linked hostPort v = fun tc => tc := funext fun tc => by rw [linked, h]
    rw [he, withCase_self]
  case some url =>
    by_cases hu : trim url = ""
    case pos =>
      have he : linked hostPort v = fun tc => tc := funext fun tc => by simp only [linked, h, if_pos hu]
      simp only [he, withCase_self, if_pos hu]
    case neg =>
      have he : linked hostPort v = (·.setRepro url) := funext fun tc => by simp only [linked, h, if_neg hu]
      simp only [he, if_neg hu]

-- The three writes go to one case.
theorem applyVerdict_snd : (applyVerdict t c v at' hostPort).2 = applied at' hostPort c v t := by
  have hj (tc : TestCase) : (judged at' v tc).description = tc.description := rfl
  have hs (tc : TestCase) : ((sourced v ∘ judged at' v) tc).description = tc.description := sourced_frame.1
  rw [applied, judge, ← withCase_withCase hs, ← withCase_withCase hj]
  apply (linked_snd _).trans
  rw [sourced_snd]
  rfl

theorem applied_frame : (applied at' hostPort c v t).acceptanceCriteria = t.acceptanceCriteria ∧
    (applied at' hostPort c v t).kind = t.kind ∧ (applied at' hostPort c v t).status = t.status := by
  rw [applied, withCase_snd]
  cases t.ensure_cases
  case inl he => exact he ▸ ⟨rfl, rfl, rfl⟩
  case inr he => exact he.1.symm ▸ ⟨rfl, rfl, rfl⟩

-- The verdict counts for its criterion, and the other criteria keep what they had.
theorem verdict_applied {d : String} (hd : d ∈ t.acceptanceCriteria) :
    (applied at' hostPort c v t).verdict d = some .passed ↔
      if c = d then v.passed = true else t.verdict d = some .passed := by
  have hc : t.ensureTestCasesFromAcceptance.caseOf d = some ((t.caseOf d).getD (.pending d)) := by
    rw [caseOf_ensure, if_pos hd]
  rw [applied, Ticket.verdict, caseOf_withCase description_judge, hc]
  split
  case isTrue =>
    rw [Option.map_some, Option.map_some, status_judge]
    cases v.passed <;> simp
  case isFalse =>
    rw [Ticket.verdict]
    cases t.caseOf d <;> simp [TestCase.pending]

theorem applied_eq_of_inSync (h : t.InSync) :
    applied at' hostPort c v t = (t.withCase c (judge at' hostPort v)).2 := by
  rw [applied, h.ensure_eq]

theorem inSync_applied : (applied at' hostPort c v t).InSync :=
  inSync_ensure.withCase description_judge

-- The case list is synced once, and then two criteria do not meet.
theorem applied_comm (h : c ≠ ac) : applied at' hostPort ac w (applied at' hostPort c v t) =
    applied at' hostPort c v (applied at' hostPort ac w t) := by
  rw [applied_eq_of_inSync inSync_applied, applied_eq_of_inSync inSync_applied, applied, applied]
  simp only [withCase_snd]
  rw [updated_comm description_judge description_judge h]

end Apply

section Landing

variable {board : List (List String)} {k : Nat} {x : Nat × String}

-- The first ticket on the board with this very text.
def Named (board : List (List String)) (ac : String) (k : Nat) : Prop :=
  (∃ l, board[k]? = some l ∧ ac ∈ l) ∧ ∀ j < k, ∀ l, board[j]? = some l → ac ∉ l

-- The criterion that is closest to the text, the first one among equals.
def Closest (board : List (List String)) (ac : String) : Nat × String → Prop :=
  FirstBest.Leads (fun c => matchesCriterion ac c.2) (fun c => matchScore ac c.2) (candidates board)

-- The verdict is for the criterion `c` of the ticket at place `k`.
def Lands (board : List (List String)) (k : Nat) (c : String) (v : TestVerdict) : Prop :=
  trim v.ac ≠ "" ∧ (trim v.ac = c ∧ Named board c k ∨
    (∀ l ∈ board, trim v.ac ∉ l) ∧ Closest board (trim v.ac) (k, c))

theorem named_iff : Named board ac k ↔ board.findIdx? (ac ∈ ·) = some k := by
  rw [List.findIdx?_eq_some_iff_getElem, Named]
  constructor
  case mp =>
    rintro ⟨⟨l, hl, hm⟩, hb⟩
    have ⟨hk, he⟩ := List.getElem?_eq_some_iff.mp hl
    refine ⟨hk, by simpa [he] using hm, fun j hj => ?_⟩
    simpa using hb j hj _ (List.getElem?_eq_getElem (hj.trans hk))
  case mpr =>
    rintro ⟨hk, hm, hb⟩
    refine ⟨⟨_, List.getElem?_eq_getElem hk, by simpa using hm⟩, fun j hj l hl => ?_⟩
    have ⟨_, he⟩ := List.getElem?_eq_some_iff.mp hl
    simpa [he] using hb j hj

theorem landing_eq_some : landing board ac = some (k, c) ↔
    ac = c ∧ Named board c k ∨ (∀ l ∈ board, ac ∉ l) ∧ Closest board ac (k, c) := by
  rw [landing]
  cases hf : board.findIdx? (ac ∈ ·)
  case some i =>
    have ⟨⟨l, hl, hm⟩, _⟩ := named_iff.mpr hf
    have hn : ¬∀ l ∈ board, ac ∉ l := fun h => h l (List.mem_of_getElem? hl) hm
    simp only [Option.some.injEq, Prod.mk.injEq, hn, false_and, or_false]
    constructor
    case mp  => exact fun ⟨hk, hc⟩ => ⟨hc, hc ▸ hk ▸ named_iff.mpr hf⟩
    case mpr =>
      rintro ⟨rfl, hn⟩
      exact ⟨Option.some.inj (hf.symm.trans (named_iff.mp hn)), rfl⟩
  case none =>
    have hn : ∀ l ∈ board, ac ∉ l := by simpa using hf
    have hk : ¬(ac = c ∧ Named board c k) := by
      rintro ⟨rfl, ⟨l, hl, hm⟩, _⟩
      exact hn l (List.mem_of_getElem? hl) hm
    simp only [Option.map_eq_some_iff, Prod.exists, hk, false_or]
    constructor
    case mp =>
      rintro ⟨s, i, d, hb, he⟩
      exact ⟨hn, he ▸ (FirstBest.best_eq_some.mp hb).2⟩
    case mpr => exact fun ⟨_, h⟩ => ⟨_, k, c, FirstBest.best_eq_some.mpr ⟨rfl, h⟩, rfl⟩

theorem mem_candidates : x ∈ candidates board ↔ ∃ l, board[x.1]? = some l ∧ x.2 ∈ l := by
  simp only [candidates, List.mem_flatMap, List.mem_map, Prod.exists, List.mk_mem_zipIdx_iff_getElem?]
  constructor
  case mp =>
    rintro ⟨l, i, hl, d, hd, rfl⟩
    exact ⟨l, hl, hd⟩
  case mpr => exact fun ⟨l, hl, hd⟩ => ⟨l, x.1, hl, x.2, hd, rfl⟩

-- The criteria of one ticket stand behind those of the tickets before it.
theorem candidates_ordered : (candidates board).Pairwise (·.1 ≤ ·.1) := by
  have hz (l : List (List String)) (n : Nat) : (l.zipIdx n).Pairwise (·.2 < ·.2) := by
    induction l generalizing n
    case nil => exact .nil
    case cons a l hi =>
      rw [List.zipIdx_cons]
      exact .cons (fun x hx => List.le_snd_of_mem_zipIdx hx) (hi (n + 1))
  rw [candidates, List.pairwise_flatMap]
  refine ⟨fun x _ => ?_, (hz board 0).imp fun {a b} h x hx y hy => ?_⟩
  case refine_1 =>
    rw [List.pairwise_map]
    exact List.pairwise_of_forall fun _ _ => le_refl _
  case refine_2 =>
    have ⟨_, _, hx⟩ := List.mem_map.mp hx
    have ⟨_, _, hy⟩ := List.mem_map.mp hy
    exact hx ▸ hy ▸ h.le

-- A verdict lands on a criterion of a ticket.
theorem Lands.mem (h : Lands board k c v) : ∃ l, board[k]? = some l ∧ c ∈ l := by
  obtain ⟨_, ⟨_, hn⟩ | ⟨_, hc⟩⟩ := h
  case inl => exact hn.1
  case inr => exact mem_candidates.mp hc.mem

-- A text that an earlier ticket has too lands there.
theorem not_lands_of_earlier {j : Nat} {l : List String} (hj : j < k) (hl : board[j]? = some l) (hc : c ∈ l) :
    ¬Lands board k c v := by
  rintro ⟨_, ⟨_, hn⟩ | ⟨_, l₁, l₂, he, hm, hlt, _⟩⟩
  case inl => exact hn.2 j hj l hl hc
  case inr =>
    have hx : (j, c) ∈ l₁ ++ (k, c) :: l₂ := he ▸ mem_candidates.mpr ⟨l, hl, hc⟩
    have ho : (l₁ ++ (k, c) :: l₂).Pairwise (·.1 ≤ ·.1) := he ▸ candidates_ordered
    rw [List.mem_append, List.mem_cons] at hx
    obtain hx | hx | hx := hx
    case inl     => exact absurd (hlt _ hx hm) (lt_irrefl _)
    case inr.inl => exact hj.ne (congrArg Prod.fst hx)
    case inr.inr =>
      have hk : k ≤ j := List.rel_of_pairwise_cons (List.pairwise_append.mp ho).2.1 hx
      omega

-- A criterion without white space around it that no earlier ticket has is found by its text.
theorem lands_of_text (hv : v.ac = c) (ht : trim c = c) (hne : c ≠ "") {l : List String} (hl : board[k]? = some l)
    (hc : c ∈ l) (hb : ∀ j < k, ∀ l, board[j]? = some l → c ∉ l) : Lands board k c v := by
  rw [Lands, hv, ht]
  exact ⟨hne, .inl ⟨rfl, ⟨l, hl, hc⟩, hb⟩⟩

end Landing

section Record

variable {s : ProjectState} {vs ws : List TestVerdict} {board : List (List String)} {k : Nat}

def boardOf (s : ProjectState) : List (List String) :=
  s.tickets.map (·.acceptanceCriteria)

-- Where a verdict goes. A blank one goes nowhere.
def place (board : List (List String)) (v : TestVerdict) : Option (Nat × String) :=
  if trim v.ac = "" then none else landing board (trim v.ac)

theorem place_eq_some : place board v = some (k, c) ↔ Lands board k c v := by
  rw [place, Lands]
  split
  case isTrue h  => simp [h]
  case isFalse h => rw [landing_eq_some, and_iff_right h]

-- What one verdict does to the tickets, for the place that it goes to.
def recorded (at' : String) (hostPort : Option UInt16) (board : List (List String)) (s : ProjectState)
    (v : TestVerdict) : ProjectState :=
  match place board v with
  | none        => s
  | some (i, c) => { s with tickets := s.tickets.modify i (applied at' hostPort c v) }

theorem boardOf_recorded : boardOf (recorded at' hostPort board s v) = boardOf s := by
  rw [recorded]
  split
  case h_1 => rfl
  case h_2 i c _ =>
    refine List.ext_getElem? fun j => ?_
    rw [boardOf, boardOf, List.getElem?_map, List.getElem?_map, List.getElem?_modify]
    cases s.tickets[j]?
    case none   => rfl
    case some t => by_cases h : i = j <;> simp [h, applied_frame.1]

theorem recordVerdict_snd {acc : Bool × ProjectState} :
    (recordVerdict at' hostPort acc v).2 = recorded at' hostPort (boardOf acc.2) acc.2 v := by
  rw [recordVerdict, recorded, place]
  by_cases h : trim v.ac = ""
  case pos => simp only [if_pos h]
  case neg =>
    simp only [if_neg h, boardOf]
    cases landing (acc.2.tickets.map (·.acceptanceCriteria)) (trim v.ac)
    case none => rfl
    case some x =>
      cases ht : acc.2.tickets[x.1]?
      case none =>
        simp only [ht, List.modify_eq_self (List.getElem?_eq_none_iff.mp ht)]
      case some t =>
        obtain ⟨hk, he⟩ := List.getElem?_eq_some_iff.mp ht
        simp only [ht, applyVerdict_snd]
        congr 1
        refine List.ext_getElem? fun j => ?_
        rw [List.getElem?_modify, List.getElem?_set]
        split
        case isTrue hj  => simp [← hj, hk, he]
        case isFalse hj => simp

theorem foldl_recordVerdict {acc : Bool × ProjectState} :
    (vs.foldl (recordVerdict at' hostPort) acc).2 = vs.foldl (recorded at' hostPort (boardOf acc.2)) acc.2 := by
  induction vs generalizing acc
  case nil => rfl
  case cons v vs hi =>
    rw [List.foldl_cons, List.foldl_cons, hi, recordVerdict_snd, boardOf_recorded]

-- The criteria stay as they are, so that every verdict goes where it would go at the start.
theorem recordVerdicts_snd :
    (recordVerdicts s vs at' hostPort).2 = vs.foldl (recorded at' hostPort (boardOf s)) s :=
  foldl_recordVerdict

-- What one verdict does to the ticket at a place.
def heard (at' : String) (hostPort : Option UInt16) (board : List (List String)) (k : Nat) (t : Ticket)
    (v : TestVerdict) : Ticket :=
  match place board v with
  | none        => t
  | some (i, c) => if i = k then applied at' hostPort c v t else t

theorem getElem?_recorded : (recorded at' hostPort board s v).tickets[k]? =
    s.tickets[k]?.map (heard at' hostPort board k · v) := by
  simp only [recorded, heard]
  cases place board v
  case none => simp
  case some x =>
    simp only [List.getElem?_modify]
    cases s.tickets[k]? <;> simp

theorem getElem?_foldl_recorded : (vs.foldl (recorded at' hostPort board) s).tickets[k]? =
    s.tickets[k]?.map (vs.foldl (heard at' hostPort board k)) := by
  induction vs generalizing s
  case nil => simp
  case cons v vs hi =>
    rw [List.foldl_cons, hi, getElem?_recorded, Option.map_map]
    rfl

theorem heard_frame : (heard at' hostPort board k t v).acceptanceCriteria = t.acceptanceCriteria ∧
    (heard at' hostPort board k t v).kind = t.kind ∧ (heard at' hostPort board k t v).status = t.status := by
  rw [heard]
  split
  case h_1 => exact ⟨rfl, rfl, rfl⟩
  case h_2 =>
    split
    case isTrue  => exact applied_frame
    case isFalse => exact ⟨rfl, rfl, rfl⟩

theorem foldl_heard_frame : (vs.foldl (heard at' hostPort board k) t).acceptanceCriteria = t.acceptanceCriteria ∧
    (vs.foldl (heard at' hostPort board k) t).kind = t.kind ∧
    (vs.foldl (heard at' hostPort board k) t).status = t.status := by
  induction vs generalizing t
  case nil => exact ⟨rfl, rfl, rfl⟩
  case cons v vs hi =>
    have ⟨hc, hk, hs⟩ := @hi (heard at' hostPort board k t v)
    have ⟨hc', hk', hs'⟩ := @heard_frame at' hostPort t v board k
    rw [List.foldl_cons]
    exact ⟨hc.trans hc', hk.trans hk', hs.trans hs'⟩

-- A verdict decides on the criterion that it lands on.
theorem verdict_heard_of_lands (hc : c ∈ t.acceptanceCriteria) (h : Lands board k c v) :
    (heard at' hostPort board k t v).verdict c = some .passed ↔ v.passed := by
  rw [heard, place_eq_some.mpr h]
  simp only [if_true]
  rw [verdict_applied hc, if_pos rfl]

theorem verdict_heard_of_not (hc : c ∈ t.acceptanceCriteria) (h : ¬Lands board k c v) :
    (heard at' hostPort board k t v).verdict c = some .passed ↔ t.verdict c = some .passed := by
  rw [heard]
  split
  case h_1 => rfl
  case h_2 i d hp =>
    split
    case isFalse   => rfl
    case isTrue hi =>
      have hd : d ≠ c := fun he => h (place_eq_some.mp (hi ▸ he ▸ hp))
      rw [verdict_applied hc, if_neg hd]

-- The last verdict that lands on a criterion of the ticket passes it, and where none lands it has passed before.
structure Delivered (board : List (List String)) (k : Nat) (vs : List TestVerdict) (t : Ticket) (c : String) :
    Prop where
  last : ∀ pre v post, vs = pre ++ v :: post → Lands board k c v → (∀ w ∈ post, ¬Lands board k c w) → v.passed
  none : (∀ v ∈ vs, ¬Lands board k c v) → t.verdict c = some .passed

-- An entry of a longer list is the last one or one of the shorter list.
theorem concat_split {pre post : List TestVerdict} (h : vs ++ [v] = pre ++ w :: post) :
    pre = vs ∧ w = v ∧ post = [] ∨ ∃ post', post = post' ++ [v] ∧ vs = pre ++ w :: post' := by
  obtain rfl | ⟨post, x, rfl⟩ := List.eq_nil_or_concat post
  case inl =>
    have ⟨hp, hv⟩ := List.append_inj' h rfl
    exact .inl ⟨hp.symm, (List.cons.inj hv).1.symm, rfl⟩
  case inr =>
    have h : vs ++ [v] = (pre ++ w :: post) ++ [x] := by simpa using h
    have ⟨hv, hx⟩ := List.append_inj' h rfl
    exact .inr ⟨post, by rw [List.concat_eq_append, (List.cons.inj hx).1], hv⟩

theorem delivered_iff (hc : c ∈ t.acceptanceCriteria) :
    (vs.foldl (heard at' hostPort board k) t).verdict c = some .passed ↔ Delivered board k vs t c := by
  induction vs using List.reverseRecOn
  case nil => exact ⟨fun h => ⟨by simp, fun _ => h⟩, fun h => h.none (by simp)⟩
  case append_singleton vs v hi =>
    have hc' : c ∈ (vs.foldl (heard at' hostPort board k) t).acceptanceCriteria := foldl_heard_frame.1.symm ▸ hc
    rw [List.foldl_append, List.foldl_cons, List.foldl_nil]
    by_cases hl : Lands board k c v
    case pos =>
      rw [verdict_heard_of_lands hc' hl]
      constructor
      case mpr => exact fun h => h.last vs v [] rfl hl (by simp)
      case mp =>
        refine fun hp => ⟨fun pre w post he hw hn => ?_, fun hn => absurd hl (hn v (by simp))⟩
        obtain ⟨rfl, hv, rfl⟩ | ⟨post', rfl, _⟩ := concat_split he
        case inl => exact hv ▸ hp
        case inr => exact absurd hl (hn v (by simp))
    case neg =>
      rw [verdict_heard_of_not hc' hl, hi]
      constructor
      case mp =>
        rintro ⟨hlast, hnone⟩
        refine ⟨fun pre w post he hw hn => ?_, fun hn => hnone fun x hx => hn x (by simp [hx])⟩
        obtain ⟨_, hv, _⟩ | ⟨post', rfl, hv⟩ := concat_split he
        case inl => exact absurd (hv ▸ hw) hl
        case inr => exact hlast pre w post' hv hw fun y hy => hn y (by simp [hy])
      case mpr =>
        rintro ⟨hlast, hnone⟩
        refine ⟨fun pre w post he hw hn => ?_, fun hn => hnone ?_⟩
        case refine_1 =>
          apply hlast pre w (post ++ [v]) (by simp [he]) hw
          exact List.forall_mem_append.mpr ⟨hn, List.forall_mem_singleton.mpr hl⟩
        case refine_2 => exact List.forall_mem_append.mpr ⟨hn, List.forall_mem_singleton.mpr hl⟩

-- One ticket at most is another, and apart from a sync one case of it at most.
inductive Touches (s s' : ProjectState) : Prop
  | none (h : s' = s)
  | one {before t after l₁ tc tc' l₂} (board : s.tickets = before ++ t :: after)
    (cases : t.ensureTestCasesFromAcceptance.testCases = l₁ ++ tc :: l₂) (same : tc'.description = tc.description)
    (h : s' = { s with tickets :=
      before ++ { t.ensureTestCasesFromAcceptance with testCases := l₁ ++ tc' :: l₂ } :: after })

theorem touches_recorded : Touches s (recorded at' hostPort (boardOf s) s v) := by
  rw [recorded]
  split
  case h_1 => exact .none rfl
  case h_2 k c hp =>
    have ⟨l, hl, hc⟩ := (place_eq_some.mp hp).mem
    rw [boardOf, List.getElem?_map, Option.map_eq_some_iff] at hl
    obtain ⟨u, hu, rfl⟩ := hl
    have ⟨hk, _⟩ := List.getElem?_eq_some_iff.mp hu
    have ⟨before, t, after, ht, hlen, hm⟩ := List.exists_of_modify (applied at' hostPort c v) hk
    have hut : t = u := by
      rw [ht, ← hlen, List.getElem?_append_right (le_refl _), Nat.sub_self] at hu
      exact Option.some.inj hu
    have hcase : ∃ tc ∈ t.ensureTestCasesFromAcceptance.testCases, tc.description = c := by
      rw [← List.mem_map, inSync_ensure, ensure_acceptanceCriteria, hut]
      exact hc
    have ⟨l₁, tc, l₂, hl, _, hup⟩ := @updated_split c (judge at' hostPort v) _ hcase
    apply @Touches.one _ _ before t after l₁ tc (judge at' hostPort v tc) l₂ ht hl (description_judge tc)
    rw [hm, applied, withCase_snd, hup]

-- Verdicts for different places do not meet.
theorem recorded_comm (h : ∀ x, place board v = some x → place board w ≠ some x) :
    recorded at' hostPort board (recorded at' hostPort board s v) w =
      recorded at' hostPort board (recorded at' hostPort board s w) v := by
  rw [recorded, recorded, recorded, recorded]
  cases hv : place board v
  case none => rfl
  case some x =>
    cases hw : place board w
    case none => rfl
    case some y =>
      obtain ⟨i, c⟩ := x
      obtain ⟨j, d⟩ := y
      simp only
      refine congrArg (fun tickets => { s with tickets }) ?_
      by_cases hij : i = j
      case neg => exact List.modify_modify_ne _ _ _ hij
      case pos =>
        subst hij
        have hcd : c ≠ d := fun he => h _ hv (he ▸ hw)
        rw [List.modify_modify_eq, List.modify_modify_eq]
        exact congrArg (s.tickets.modify i) (funext fun t => applied_comm hcd)

-- A text that is on the board goes to the first ticket that has it.
theorem place_of_mem (hv : ∃ l ∈ board, trim v.ac ∈ l) {x : Nat × String} (h : place board v = some x) :
    x.2 = trim v.ac := by
  obtain ⟨_, ⟨hc, _⟩ | ⟨hn, _⟩⟩ := place_eq_some.mp h
  case inl => exact hc.symm
  case inr =>
    have ⟨l, hl, hm⟩ := hv
    exact absurd hm (hn l hl)

theorem recordVerdicts_perm (hp : vs.Perm ws) (hd : vs.Pairwise fun v w => trim v.ac ≠ trim w.ac)
    (hv : ∀ v ∈ vs, ∃ t ∈ s.tickets, trim v.ac ∈ t.acceptanceCriteria) :
    (recordVerdicts s vs at' hostPort).2 = (recordVerdicts s ws at' hostPort).2 := by
  have hb (v) (hm : v ∈ vs) : ∃ l ∈ boardOf s, trim v.ac ∈ l := by
    have ⟨t, ht, hc⟩ := hv v hm
    exact ⟨_, List.mem_map_of_mem ht, hc⟩
  rw [recordVerdicts_snd, recordVerdicts_snd]
  have hsymm : Std.Symm fun v w : TestVerdict => trim v.ac ≠ trim w.ac := ⟨fun _ _ h => h.symm⟩
  refine hp.foldl_eq' (fun v hm w hw z => ?_) s
  by_cases he : v = w
  case pos => rw [he]
  case neg =>
    refine recorded_comm fun x hx hy => ?_
    exact hd.forall hm hw he ((place_of_mem (hb v hm) hx).symm.trans (place_of_mem (hb w hw) hy))

theorem recorded_iff {before after : List Ticket} (hs : s.tickets = before ++ t :: after) (hk : t.kind = .bug)
    (hf : t.status = .fixed) :
    (∃ u, (recordVerdicts s vs at' hostPort).2.tickets[before.length]? = some u ∧
      ∃ u', u.transitionTo .system .verified = .ok u') ↔
        ∀ c ∈ t.acceptanceCriteria, Delivered (boardOf s) before.length vs t c := by
  have hu : (recordVerdicts s vs at' hostPort).2.tickets[before.length]? =
      some (vs.foldl (heard at' hostPort (boardOf s) before.length) t) := by
    rw [recordVerdicts_snd, getElem?_foldl_recorded, hs, List.getElem?_append_right (le_refl _), Nat.sub_self]
    rfl
  have ⟨hcrit, hkind, hstatus⟩ := @foldl_heard_frame at' hostPort t vs (boardOf s) before.length
  rw [hu]
  simp only [Option.some.injEq, exists_eq_left']
  rw [verify_ok_iff (hkind.trans hk) (hstatus.trans hf), hcrit]
  exact forall₂_congr fun c hc => delivered_iff hc

-- A criterion that is told by its text is missed if and only if an earlier ticket has the same.
theorem missed_iff {before after : List Ticket} (hs : s.tickets = before ++ t :: after)
    (hc : c ∈ t.acceptanceCriteria) (ht : trim c = c) (hne : c ≠ "") (hv : ∃ v ∈ vs, v.ac = c) :
    (∀ v ∈ vs, ¬Lands (boardOf s) before.length c v) ↔ ∃ x ∈ before, c ∈ x.acceptanceCriteria := by
  have hboard {j : Nat} (hj : j < before.length) :
      (boardOf s)[j]? = some before[j].acceptanceCriteria := by
    rw [boardOf, hs, List.map_append, List.getElem?_append_left (by simpa using hj), List.getElem?_map,
      List.getElem?_eq_getElem hj]
    rfl
  constructor
  case mpr =>
    rintro ⟨x, hx, hcx⟩ v -
    obtain ⟨j, hj, rfl⟩ := List.getElem_of_mem hx
    exact not_lands_of_earlier hj (hboard hj) hcx
  case mp =>
    intro hn
    by_contra hb
    have ⟨v, hm, hvc⟩ := hv
    have hl : (boardOf s)[before.length]? = some t.acceptanceCriteria := by simp [boardOf, hs]
    refine hn v hm (lands_of_text hvc ht hne hl hc fun j hj l hj' hcl => hb ⟨before[j], List.getElem_mem hj, ?_⟩)
    rw [hboard hj] at hj'
    exact Option.some.inj hj' ▸ hcl

-- Every criterion of the ticket is named word for word, and the last time that it is, it passes.
def Tested (t : Ticket) (vs : List TestVerdict) : Prop :=
  ∀ c ∈ t.acceptanceCriteria, ∃ pre v post, vs = pre ++ v :: post ∧ v.ac = c ∧ v.passed ∧ ∀ w ∈ post, w.ac ≠ c

-- A tested bug can be verified if and only if its verdicts are delivered. They are not where an earlier ticket has
-- a criterion with the same text, or where a closest text has the last word. One verdict changes one case, and
-- texts from the board can come in any order.
theorem tested_verified_iff {before after : List Ticket} (hs : s.tickets = before ++ t :: after)
    (hk : t.kind = .bug) (hf : t.status = .fixed) (ht : Tested t vs) :
    ((∃ u, (recordVerdicts s vs at' hostPort).2.tickets[before.length]? = some u ∧
        ∃ u', u.transitionTo .system .verified = .ok u') ↔
      ∀ c ∈ t.acceptanceCriteria, Delivered (boardOf s) before.length vs t c) ∧
    (∀ c ∈ t.acceptanceCriteria, trim c = c → c ≠ "" →
      ((∀ v ∈ vs, ¬Lands (boardOf s) before.length c v) ↔ ∃ x ∈ before, c ∈ x.acceptanceCriteria)) ∧
    (∀ s v, Touches s (recordVerdicts s [v] at' hostPort).2) ∧
    ∀ (s : ProjectState) vs ws, vs.Perm ws → (vs.Pairwise fun v w => trim v.ac ≠ trim w.ac) →
      (∀ v ∈ vs, ∃ t ∈ s.tickets, trim v.ac ∈ t.acceptanceCriteria) →
        (recordVerdicts s vs at' hostPort).2 = (recordVerdicts s ws at' hostPort).2 := by
  refine ⟨recorded_iff hs hk hf, fun c hc htrim hne => ?_, fun s v => ?_, fun s vs ws => recordVerdicts_perm⟩
  case refine_1 =>
    have ⟨pre, v, post, hvs, hv, _⟩ := ht c hc
    exact missed_iff hs hc htrim hne ⟨v, by simp [hvs], hv⟩
  case refine_2 =>
    rw [recordVerdicts_snd, List.foldl_cons, List.foldl_nil]
    exact touches_recorded

def loadBug : Ticket where
  id                 := ⟨"B000"⟩
  kind               := .bug
  title              := "Page"
  status             := .fixed
  acceptanceCriteria := ["page loads"]

def leakyBug : Ticket :=
  { fixedCrash with acceptanceCriteria := ["no crash", "no leak"] }

-- Three fixed bugs. The last one has a criterion of the one before it.
def threeBugs : ProjectState where
  tickets := [loadBug, leakyBug, { fixedCrash with id := ⟨"B002"⟩ }]

-- The crash is gone in the second try only, and the page does not load.
def mixedVerdicts : List TestVerdict := [
  { ac := "page loads", passed := false },
  { ac := "no crash", passed := false },
  { ac := "no leak", passed := true },
  { ac := "no crash", passed := true }
]

theorem tested_leakyBug : Tested leakyBug mixedVerdicts := by
  intro c hc
  have hc : c = "no crash" ∨ c = "no leak" := by simpa [leakyBug] using hc
  obtain rfl | rfl := hc
  case inl => exact ⟨mixedVerdicts.take 3, _, [], rfl, rfl, rfl, by simp⟩
  case inr => exact ⟨mixedVerdicts.take 2, _, mixedVerdicts.drop 3, rfl, rfl, rfl, by decide⟩

theorem tested_verified_leakyBug :
    ∃ u, (recordVerdicts threeBugs mixedVerdicts "2026" none).2.tickets[1]? = some u ∧
      ∃ u', u.transitionTo .system .verified = .ok u' := by
  have h := @tested_verified_iff "2026" none leakyBug threeBugs mixedVerdicts [loadBug] [_] rfl rfl rfl tested_leakyBug
  have hp : ∀ c ∈ leakyBug.acceptanceCriteria,
      (mixedVerdicts.foldl (heard "2026" none (boardOf threeBugs) 1) leakyBug).verdict c = some .passed := by
    decide +kernel
  exact h.1.mpr fun c hc => (delivered_iff hc).mp (hp c hc)

def noCrash : TestVerdict where
  ac     := "no crash"
  passed := true

theorem tested_fixedCrash : Tested fixedCrash [noCrash] := by
  intro c hc
  have hc : c = "no crash" := List.mem_singleton.mp hc
  exact ⟨[], noCrash, [], rfl, hc.symm, rfl, by simp⟩

-- Two bugs with one criterion. The verdict goes to the first of them.
theorem not_tested_verified : ¬∀ (at' : String) (hostPort : Option UInt16) (s : ProjectState)
    (before after : List Ticket) (t : Ticket) (vs : List TestVerdict), s.tickets = before ++ t :: after →
      t.kind = .bug → t.status = .fixed → Tested t vs →
      ∃ u, (recordVerdicts s vs at' hostPort).2.tickets[before.length]? = some u ∧
        ∃ u', u.transitionTo .system .verified = .ok u' := by
  intro h
  have hv := h "2026" none { tickets := [{ fixedCrash with id := ⟨"B000"⟩ }, fixedCrash] }
    [{ fixedCrash with id := ⟨"B000"⟩ }] [] fixedCrash [noCrash] rfl rfl rfl tested_fixedCrash
  have hd := (recorded_iff rfl rfl rfl).mp hv "no crash" (by decide)
  have hm := hd.none ((missed_iff rfl (by decide) (by decide) (by decide) ⟨noCrash, by simp, rfl⟩).mpr
    ⟨_, List.mem_singleton_self _, by decide⟩)
  exact absurd hm (by decide)

end Record

end Coverage
