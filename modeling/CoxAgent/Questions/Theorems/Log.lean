import CoxAgent.Lib.Run
import CoxAgent.Questions.Log

section AgeOut

variable {α β : Type} {isOpen : α → Bool} {l : List α} {a : α} {n : Nat}

theorem dropOne_sublist : (dropOne isOpen l).Sublist l :=
  List.eraseIdx_sublist _ _

theorem dropped_lt_length (hl : l ≠ []) : (l.findIdx? (!isOpen ·)).getD 0 < l.length := by
  cases hf : l.findIdx? (!isOpen ·) with
  | none   => exact List.length_pos_of_ne_nil hl
  | some i => exact (List.findIdx?_eq_some_iff_findIdx_eq.mp hf).left

theorem length_dropOne : (dropOne isOpen l).length = l.length - 1 := by
  by_cases hl : l = []
  case pos => simp [hl, dropOne]
  case neg => exact List.length_eraseIdx_of_lt (dropped_lt_length hl)

theorem dropOne_concat (hl : l ≠ []) (ha : isOpen a) : dropOne isOpen (l ++ [a]) = dropOne isOpen l ++ [a] := by
  have hf : (l ++ [a]).findIdx? (!isOpen ·) = l.findIdx? (!isOpen ·) := by simp [List.findIdx?_append, ha]
  unfold dropOne
  rw [hf, List.eraseIdx_append_of_lt_length (dropped_lt_length hl)]

-- What is new and open stays.
theorem ageOut_concat (hn : n ≤ l.length) (ha : isOpen a) :
    ageOut isOpen n (l ++ [a]) = ageOut isOpen n l ++ [a] := by
  induction n generalizing l
  case zero      => rfl
  case succ n hi =>
    have hl : l ≠ [] := by
      rintro rfl
      contradiction
    rw [ageOut, ageOut, dropOne_concat hl ha]
    refine hi ?_
    rw [length_dropOne]
    omega

theorem map_dropOne {f : β → α} {l : List β} : (dropOne (isOpen ∘ f) l).map f = dropOne isOpen (l.map f) := by
  simp [dropOne, List.eraseIdx_eq_take_drop_succ, List.findIdx?_map, Function.comp_def]

theorem map_ageOut {f : β → α} {l : List β} : (ageOut (isOpen ∘ f) n l).map f = ageOut isOpen n (l.map f) := by
  induction n generalizing l
  case zero      => rfl
  case succ n hi => rw [ageOut, ageOut, hi, map_dropOne]

theorem ageOut_sublist : (ageOut isOpen n l).Sublist l := by
  induction n generalizing l
  case zero      => exact List.Sublist.refl l
  case succ n hi => exact hi.trans dropOne_sublist

theorem forall_isOpen_of_dropOne (ha : a ∈ l) (ho : isOpen a) (hd : a ∉ dropOne isOpen l) : ∀ b ∈ l, isOpen b := by
  unfold dropOne at hd
  cases hf : l.findIdx? (!isOpen ·) with
  | none   => simpa using List.findIdx?_eq_none_iff.mp hf
  | some i =>
    have ⟨hi, hn, _⟩ := List.findIdx?_eq_some_iff_getElem.mp hf
    have ⟨j, hj, hja⟩ := List.getElem_of_mem ha
    rw [hf, Option.getD_some, List.mem_eraseIdx_iff_getElem] at hd
    have hij : j = i := by
      by_contra hne
      exact hd ⟨j, hj, hne, hja⟩
    subst hij
    simp [hja, ho] at hn

-- Something that is open is dropped only if nothing is left that is not.
theorem forall_isOpen_of_ageOut (ha : a ∈ l) (ho : isOpen a) (hd : a ∉ ageOut isOpen n l) :
    ∀ b ∈ ageOut isOpen n l, isOpen b := by
  induction n generalizing l
  case zero      => contradiction
  case succ n hi =>
    by_cases hm : a ∈ dropOne isOpen l
    case pos => exact hi hm hd
    case neg =>
      intro b hb
      exact forall_isOpen_of_dropOne ha ho hm b ((ageOut_sublist.trans dropOne_sublist).subset hb)

end AgeOut

theorem questionId_inj {ticket ticket' : String} {n n' : Nat} :
    questionId ticket n = questionId ticket' n' ↔ questionKey ticket = questionKey ticket' ∧ n = n' := by
  have hne (k : Nat) : '#' ∉ k.repr.toList := fun h => absurd (Text.isDigit_of_mem_repr h) (by decide)
  have ht (t : String) (k : Nat) :
      (questionId t k).toList = (questionKey t).toList ++ '#' :: k.repr.toList := by
    simp [questionId, toString]
  constructor
  case mpr =>
    rintro ⟨hk, rfl⟩
    rw [questionId, questionId, hk]
  case mp =>
    intro h
    have hl := congrArg String.toList h
    rw [ht, ht] at hl
    have ⟨hk, hn⟩ := Text.append_sep_inj (hne n) (hne n') hl
    exact ⟨String.toList_injective hk, Text.repr_inj (String.toList_injective hn)⟩

-- What is left of a text that is not blank after it is cut is not blank.
theorem Text.trim_take_ne {s : String} {n : Nat} (hs : trim s ≠ "") (hn : 0 < n) :
    trim (.ofList ((trim s).toList.take n)) ≠ "" := by
  have hd : (trimChars s.toList).dropWhile isWhitespace = trimChars s.toList := by
    have hp : trimChars s.toList <+: s.toList.dropWhile isWhitespace := List.rdropWhile_prefix _ _
    rw [List.dropWhile_eq_self_iff]
    intro hl
    rw [hp.getElem hl]
    exact List.dropWhile_get_zero_not _ _ _
  cases hc : trimChars s.toList with
  | nil       => exact absurd (by simp [trim, hc]) hs
  | cons c cs =>
    have hw : !isWhitespace c := by
      by_contra hw
      rw [Bool.not_eq_true', Bool.not_eq_false] at hw
      rw [hc, List.dropWhile_cons, if_pos hw] at hd
      have := congrArg List.length hd
      have := (List.dropWhile_sublist (l := cs) isWhitespace).length_le
      simp at *
      omega
    obtain ⟨n, rfl⟩ := Nat.exists_eq_succ_of_ne_zero hn.ne'
    have ht : String.ofList ((trim s).toList.take (n + 1)) = String.ofList (c :: cs.take n) ++ "" := by
      simp [trim, hc]
    rw [ht]
    exact not_blank_append (by simp) hw

section Calls

variable {s : ProjectState} {now ticket «from» «to» body id answer : String}

-- Whether a question is recorded.
def ProjectState.records (s : ProjectState) (ticket body : String) : Bool :=
  Text.trim body ≠ "" && (s.openQuestion ticket).isNone

theorem askQuestion_of_records (now «from» «to» : String) (h : s.records ticket body) :
    ∃ n body', n = s.questions.countP (·.ticket = ticket) + 1 ∧
      s.askQuestion now ticket «from» «to» body =
        (s.withQuestions (capLog AgentQuestion.isOpen
          (s.questions ++ [.asked now ticket «from» «to» body' n])), true) := by
  unfold ProjectState.records at h
  rw [Bool.and_eq_true, decide_eq_true_eq, Option.isNone_iff_eq_none] at h
  unfold ProjectState.askQuestion
  rw [if_neg (by simp [h.left, h.right])]
  exact ⟨_, _, rfl, rfl⟩

theorem askQuestion_of_not_records (h : ¬s.records ticket body) :
    s.askQuestion now ticket «from» «to» body = (s, false) := by
  unfold ProjectState.records at h
  unfold ProjectState.askQuestion
  rw [if_pos]
  simp only [Bool.and_eq_true, decide_eq_true_eq, Option.isNone_iff_eq_none] at h
  by_cases hb : Text.trim body = ""
  case pos => simp [hb]
  case neg =>
    have hs : (s.openQuestion ticket).isSome := by
      rw [Option.isSome_iff_ne_none]
      exact fun hn => h ⟨hb, hn⟩
    simp [hs]

-- What is written into questions that are there changes neither their ids nor their tickets.
theorem updateFirst_named {f : AgentQuestion → AgentQuestion} {p : AgentQuestion → Bool}
    {l l' : List AgentQuestion} (hf : ∀ q, (f q).id = q.id ∧ (f q).ticket = q.ticket)
    (hu : Lists.updateFirst p f l = some l') :
    l'.map (fun q => (q.id, q.ticket)) = l.map fun q => (q.id, q.ticket) :=
  Lists.map_updateFirst (fun q => by rw [(hf q).left, (hf q).right]) hu

theorem forwardQuestion_named :
    (s.forwardQuestion id «to»).1.questions.map (fun q => (q.id, q.ticket)) =
      s.questions.map fun q => (q.id, q.ticket) := by
  unfold ProjectState.forwardQuestion
  split
  case h_1 => rfl
  case h_2 =>
    split
    case isTrue  => rfl
    case isFalse =>
      rw [ProjectState.questions_withQuestions]
      cases hu : Lists.updateFirst (·.id = id) (·.handedTo «to») s.questions with
      | none   => rfl
      | some l => exact updateFirst_named (fun _ => AgentQuestion.name_handedTo) hu

theorem answerQuestion_named :
    (s.answerQuestion now id answer).1.questions.map (fun q => (q.id, q.ticket)) =
      s.questions.map fun q => (q.id, q.ticket) := by
  unfold ProjectState.answerQuestion
  dsimp only
  split
  case isTrue  => rfl
  case isFalse =>
    split
    case h_1    => rfl
    case h_2 hu => exact updateFirst_named (fun _ => AgentQuestion.name_answeredWith) hu

end Calls

-- The questions have ids of their own. An answer that lands on one that is open closes it, and leaves the
-- other ones alone. The log drops a question that is open only if none that is answered is left.
structure ProjectState.Addressed (s : ProjectState) : Prop where
  distinct : (s.questions.map (·.id)).Nodup
  answered : ∀ now answer i q, s.questions[i]? = some q → q.isOpen →
    (s.answerQuestion now q.id answer).2 → ∃ text, ¬(q.answeredWith now text).isOpen ∧
      (s.answerQuestion now q.id answer).1 =
        s.withQuestions (s.questions.set i (q.answeredWith now text))
  dropped  : ∀ now ticket «from» «to» body, ∀ q ∈ s.questions, q.isOpen →
    q ∉ (s.askQuestion now ticket «from» «to» body).1.questions →
    ∀ q' ∈ (s.askQuestion now ticket «from» «to» body).1.questions, q'.isOpen

-- The first question with the id is the only one.
theorem updateFirst_set {f : AgentQuestion → AgentQuestion} {l l' : List AgentQuestion} {i : Nat}
    {q : AgentQuestion} (hd : (l.map (·.id)).Nodup) (hq : l[i]? = some q)
    (hu : Lists.updateFirst (·.id = q.id) f l = some l') : l' = l.set i (f q) := by
  obtain ⟨l₁, q', l₂, rfl, hid, rfl⟩ := Lists.updateFirst_some hu
  have ⟨hi, hqi⟩ := List.getElem?_eq_some_iff.mp hq
  have heq : i = l₁.length := by
    refine (@List.Nodup.getElem_inj_iff _ _ hd _ (by simpa using hi) _ (by simp)).mp ?_
    rw [List.getElem_map, List.getElem_map, hqi, List.getElem_append_right (Nat.le_refl _)]
    simpa using (of_decide_eq_true hid).symm
  subst heq
  obtain rfl : q' = q := by simpa using hqi
  simp

theorem answerQuestion_spec {s : ProjectState} {now answer : String} {i : Nat} {q : AgentQuestion}
    (hd : (s.questions.map (·.id)).Nodup) (hq : s.questions[i]? = some q)
    (ha : (s.answerQuestion now q.id answer).2) :
    ∃ text, ¬(q.answeredWith now text).isOpen ∧
      (s.answerQuestion now q.id answer).1 =
        s.withQuestions (s.questions.set i (q.answeredWith now text)) := by
  unfold ProjectState.answerQuestion at ha ⊢
  dsimp only at ha ⊢
  split at ha
  case isTrue    => contradiction
  case isFalse ht =>
    split at ha
    case h_1      => exact absurd ha Bool.false_ne_true
    case h_2 l hu =>
      refine ⟨Text.trim answer, ?_, ?_⟩
      case refine_1 =>
        rw [AgentQuestion.isOpen, decide_eq_true_eq]
        exact Text.trim_take_ne ht (by decide)
      case refine_2 => rw [if_neg ht, updateFirst_set hd hq hu]

theorem addressed_iff {s : ProjectState} : s.Addressed ↔ (s.questions.map (·.id)).Nodup := by
  refine ⟨fun h => h.distinct, fun h => ⟨h, fun _ _ _ _ hq _ ha => answerQuestion_spec h hq ha, ?_⟩⟩
  intro now ticket «from» «to» body q hq ho hn
  by_cases hr : s.records ticket body
  case neg =>
    rw [askQuestion_of_not_records hr] at hn
    exact absurd hq hn
  case pos =>
    have ⟨_, _, _, he⟩ := askQuestion_of_records now «from» «to» hr
    rw [he, ProjectState.questions_withQuestions] at hn ⊢
    exact forall_isOpen_of_ageOut (List.mem_append_left _ hq) ho hn

-- The log, with how many questions of its ticket it held when each of its questions was asked.
structure MarkedLog where
  state : ProjectState := {}
  held  : List Nat     := []

namespace MarkedLog

def entries (m : MarkedLog) : List (AgentQuestion × Nat) :=
  m.state.questions.zip m.held

-- What is left of the log when one more question is recorded.
def staying (m : MarkedLog) : List (AgentQuestion × Nat) :=
  ageOut (AgentQuestion.isOpen ∘ (·.1)) (m.state.questions.length + 1 - maxQuestions) m.entries

def heldFor (m : MarkedLog) (ticket : String) : Nat :=
  m.state.questions.countP (·.ticket = ticket)

def heldAfter (m : MarkedLog) : QuestionCall → List Nat
  | .ask _ ticket _ _ body =>
    if m.state.records ticket body then m.staying.map (·.2) ++ [m.heldFor ticket] else m.held
  | _                      => m.held

def step (m : MarkedLog) (c : QuestionCall) : MarkedLog where
  state := m.state.onQuestion c
  held  := m.heldAfter c

-- A question is recorded only if none that stays was recorded when the log held as many questions of the
-- ticket as it does now.
def Renews (m : MarkedLog) : QuestionCall → Prop
  | .ask _ ticket _ _ body => m.state.records ticket body →
      ∀ e ∈ m.staying, questionKey e.1.ticket = questionKey ticket → e.2 ≠ m.heldFor ticket
  | _                      => True

-- The numbers in the ids come from the marks.
def Marked (m : MarkedLog) : Prop :=
  List.Forall₂ (fun q n => q.1 = questionId q.2 (n + 1)) (m.state.questions.map fun q => (q.id, q.ticket)) m.held

variable {m : MarkedLog} {c : QuestionCall}

theorem Marked.length (h : m.Marked) : m.state.questions.length = m.held.length := by
  simpa using List.Forall₂.length_eq h

theorem Marked.id_of_mem {e : AgentQuestion × Nat} (h : m.Marked) (he : e ∈ m.entries) :
    e.1.id = questionId e.1.ticket (e.2 + 1) := by
  have hf := List.forall₂_map_left_iff.mp h
  exact (List.forall₂_iff_zip.mp hf).right he

theorem Marked.map_staying (h : m.Marked) : m.staying.map (·.1) =
    ageOut AgentQuestion.isOpen (m.state.questions.length + 1 - maxQuestions) m.state.questions := by
  have he : m.entries.map (·.1) = m.state.questions := List.map_fst_zip h.length.le
  rw [staying, map_ageOut, he]

section Ask

variable {now ticket «from» «to» body : String}

theorem state_step : (m.step c).state = m.state.onQuestion c :=
  rfl

theorem held_step : (m.step c).held = m.heldAfter c :=
  rfl

theorem heldAfter_forward {id : String} : m.heldAfter (.forward id «to») = m.held :=
  rfl

theorem heldAfter_answer {id answer : String} : m.heldAfter (.answer now id answer) = m.held :=
  rfl

theorem heldAfter_of_records (hr : m.state.records ticket body) :
    m.heldAfter (.ask now ticket «from» «to» body) = m.staying.map (·.2) ++ [m.heldFor ticket] := by
  rw [heldAfter, if_pos hr]

theorem heldAfter_of_not_records (hr : ¬m.state.records ticket body) :
    m.heldAfter (.ask now ticket «from» «to» body) = m.held := by
  rw [heldAfter, if_neg hr]

-- The log after a question is recorded.
theorem Marked.questions_ask (now «from» «to» : String) (h : m.Marked) (hr : m.state.records ticket body) :
    ∃ q : AgentQuestion, q.ticket = ticket ∧ q.id = questionId ticket (m.heldFor ticket + 1) ∧
      (m.step (.ask now ticket «from» «to» body)).state.questions = m.staying.map (·.1) ++ [q] := by
  have ⟨n, body', hn, he⟩ := askQuestion_of_records now «from» «to» hr
  refine ⟨.asked now ticket «from» «to» body' n, AgentQuestion.name_asked.right, ?_, ?_⟩
  case refine_1 => rw [AgentQuestion.name_asked.left, hn, heldFor]
  case refine_2 =>
    rw [state_step, ProjectState.onQuestion_ask, he, ProjectState.questions_withQuestions, capLog,
      List.length_append, List.length_singleton,
      ageOut_concat (by unfold maxQuestions; omega) AgentQuestion.isOpen_asked, h.map_staying]

end Ask

theorem marked_iff : m.Marked ↔ List.Forall₂ (fun q n => q.1 = questionId q.2 (n + 1))
    (m.state.questions.map fun q => (q.id, q.ticket)) m.held :=
  Iff.rfl

theorem marked_step (h : m.Marked) : (m.step c).Marked := by
  rw [marked_iff] at h ⊢
  cases c with
  | forward id «to»       =>
    rw [state_step, held_step, heldAfter_forward, ProjectState.onQuestion_forward, forwardQuestion_named]
    exact h
  | answer now id answer  =>
    rw [state_step, held_step, heldAfter_answer, ProjectState.onQuestion_answer, answerQuestion_named]
    exact h
  | ask now ticket «from» «to» body =>
    by_cases hr : m.state.records ticket body
    case neg =>
      rw [state_step, held_step, ProjectState.onQuestion_ask, askQuestion_of_not_records hr,
        heldAfter_of_not_records hr]
      exact h
    case pos =>
      have ⟨q, ht, hid, hq⟩ := Marked.questions_ask now «from» «to» h hr
      rw [hq, held_step, heldAfter_of_records hr, List.map_append]
      refine List.rel_append ?_ (.cons (by simp [ht, hid]) .nil)
      rw [List.map_map, List.forall₂_map_left_iff, List.forall₂_map_right_iff, List.forall₂_same]
      intro e he
      exact Marked.id_of_mem h (ageOut_sublist.subset he)

-- The ids stay distinct exactly if the question that is recorded renews none of those that stay.
theorem nodup_step (h : m.Marked) (hn : (m.state.questions.map (·.id)).Nodup) :
    ((m.step c).state.questions.map (·.id)).Nodup ↔ m.Renews c := by
  have named {l l' : List AgentQuestion}
      (hl : l.map (fun q => (q.id, q.ticket)) = l'.map fun q => (q.id, q.ticket)) :
      l.map (·.id) = l'.map (·.id) := by
    simpa [Function.comp_def] using congrArg (List.map Prod.fst) hl
  cases c with
  | forward id «to»      =>
    rw [state_step, ProjectState.onQuestion_forward, named forwardQuestion_named]
    exact iff_of_true hn trivial
  | answer now id answer =>
    rw [state_step, ProjectState.onQuestion_answer, named answerQuestion_named]
    exact iff_of_true hn trivial
  | ask now ticket «from» «to» body =>
    by_cases hr : m.state.records ticket body
    case neg =>
      rw [state_step, ProjectState.onQuestion_ask, askQuestion_of_not_records hr]
      exact iff_of_true hn fun h => absurd h hr
    case pos =>
      obtain ⟨q, ht, hid, hq⟩ := h.questions_ask now «from» «to» hr
      have hstay : ((m.staying.map (·.1)).map (·.id)).Nodup := by
        rw [h.map_staying]
        exact hn.sublist (ageOut_sublist.map _)
      have hsame {e : AgentQuestion × Nat} (he : e ∈ m.staying) : e.1.id = q.id ↔
          questionKey e.1.ticket = questionKey ticket ∧ e.2 = m.heldFor ticket := by
        rw [h.id_of_mem (ageOut_sublist.subset he), hid, questionId_inj, Nat.add_right_cancel_iff]
      rw [hq, List.map_append, List.nodup_append, and_iff_right hstay, List.map_singleton,
        and_iff_right (List.nodup_singleton _)]
      simp only [Renews, hr, forall_const, List.map_map, List.forall_mem_map, Function.comp_apply,
        List.forall_mem_singleton]
      refine forall₂_congr fun e he => ?_
      rw [Ne, hsame he, not_and]

end MarkedLog

-- The log keeps its questions apart in every state of a run exactly if each question that is recorded finds
-- none in the log, of those that stay, that was recorded when the log held equally many of its ticket.
theorem questions_addressed_iff {calls : List QuestionCall} :
    (∀ pre post, calls = pre ++ post → (pre.foldl ProjectState.onQuestion {}).Addressed) ↔
      Run.Meets MarkedLog.step MarkedLog.Renews {} calls := by
  have state (l : List QuestionCall) (m : MarkedLog) :
      (l.foldl MarkedLog.step m).state = l.foldl ProjectState.onQuestion m.state := by
    induction l generalizing m
    case nil         => rfl
    case cons c l hi => exact hi (m.step c)
  have marked (l : List QuestionCall) : (l.foldl MarkedLog.step {}).Marked :=
    Run.inv_all (fun _ _ => MarkedLog.marked_step) .nil
  have ids (l : List QuestionCall) : (l.foldl ProjectState.onQuestion {}).Addressed ↔
      ((l.foldl MarkedLog.step {}).state.questions.map (·.id)).Nodup := by rw [state, addressed_iff]
  constructor
  case mp =>
    intro h
    rw [Run.meets_iff_forall]
    rintro pre c post rfl
    have h₁ := (ids pre).mp (h pre (c :: post) rfl)
    have h₂ := (ids (pre ++ [c])).mp (h (pre ++ [c]) post (by simp))
    rw [List.foldl_append] at h₂
    exact (MarkedLog.nodup_step (marked pre) h₁).mp h₂
  case mpr =>
    rintro h pre post rfl
    rw [ids]
    -- The marks are kept by every call and the ids by those that meet the condition.
    have hinv := Run.inv (J := fun m : MarkedLog => m.Marked ∧ (m.state.questions.map (·.id)).Nodup)
      (fun m c hc hm => ⟨MarkedLog.marked_step hm.left, (MarkedLog.nodup_step hm.left hm.right).mpr hc⟩)
      (Run.meets_append.mp h).left ⟨.nil, List.nodup_nil⟩
    exact hinv.right

-- Three questions of a ticket are answered, then 38 other tickets ask, and the first one asks again.
def crowdedLog : List QuestionCall :=
  (List.range 3).flatMap (fun n =>
    [.ask "t" "T" "DEV" "SM" "which one?", .answer "t" (questionId "T" (n + 1)) "this one"]) ++
  (List.range 38).map (fun n => .ask "t" (questionId "U" n) "DEV" "SM" "which one?") ++
  [.ask "t" "T" "DEV" "SM" "which one?"]

theorem questions_not_addressed : ¬(∀ (calls pre post : List QuestionCall), calls = pre ++ post →
    (pre.foldl ProjectState.onQuestion {}).Addressed) := by
  intro h
  have hd := (h crowdedLog crowdedLog [] (by simp)).distinct
  revert hd
  decide +kernel
