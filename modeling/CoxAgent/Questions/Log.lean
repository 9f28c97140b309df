import CoxAgent.Lib.Lists
import CoxAgent.Lib.Text
import CoxAgent.State.Basic

def maxQuestions  : Nat := 40
def questionChars : Nat := 600
def answerChars   : Nat := 1500

-- The questions about the product as a whole share a key.
def questionKey (ticket : String) : String :=
  if ticket = "" then "open" else ticket

def questionId (ticket : String) (n : Nat) : String :=
  s!"{questionKey ticket}#{n}"

namespace AgentQuestion

def isOpen (q : AgentQuestion) : Bool :=
  Text.trim q.answer = ""

-- The question is numbered in its ticket.
def asked (now ticket «from» «to» body : String) (n : Nat) : AgentQuestion where
  id      := questionId ticket n
  body    := .ofList (body.toList.take questionChars)
  askedAt := now
  ticket  := ticket
  «from»  := «from»
  «to»    := «to»

def handedTo (q : AgentQuestion) («to» : String) : AgentQuestion :=
  { q with «to», forwarded := true }

def answeredWith (q : AgentQuestion) (now answer : String) : AgentQuestion :=
  { q with answer := .ofList (answer.toList.take answerChars), answeredAt := now }

@[simp]
theorem name_asked {now ticket «from» «to» body : String} {n : Nat} :
    (asked now ticket «from» «to» body n).id = questionId ticket n ∧
      (asked now ticket «from» «to» body n).ticket = ticket :=
  ⟨rfl, rfl⟩

@[simp]
theorem isOpen_asked {now ticket «from» «to» body : String} {n : Nat} :
    (asked now ticket «from» «to» body n).isOpen :=
  rfl

@[simp]
theorem name_handedTo {q : AgentQuestion} {«to» : String} :
    (q.handedTo «to»).id = q.id ∧ (q.handedTo «to»).ticket = q.ticket :=
  ⟨rfl, rfl⟩

@[simp]
theorem name_answeredWith {q : AgentQuestion} {now answer : String} :
    (q.answeredWith now answer).id = q.id ∧ (q.answeredWith now answer).ticket = q.ticket :=
  ⟨rfl, rfl⟩

end AgentQuestion

section AgeOut

variable {α : Type} (isOpen : α → Bool)

-- The oldest that is answered goes, and the oldest of all if none is.
def dropOne (l : List α) : List α :=
  l.eraseIdx <| (l.findIdx? (!isOpen ·)).getD 0

-- Drop so many, one after the other.
def ageOut : Nat → List α → List α
  | 0, l     => l
  | n + 1, l => ageOut n (dropOne isOpen l)

-- Drop until the log is within its bound.
def capLog (l : List α) : List α :=
  ageOut isOpen (l.length - maxQuestions) l

end AgeOut

namespace ProjectState

variable (s : ProjectState)

def withQuestions (questions : List AgentQuestion) : ProjectState :=
  { s with questions }

def openQuestion (ticket : String) : Option AgentQuestion :=
  s.questions.find? fun q => q.ticket = ticket && q.isOpen

-- A ticket has at most one question that is open. The questions are numbered by those of the ticket that
-- are in the log.
def askQuestion (now ticket «from» «to» body : String) : ProjectState × Bool :=
  let body := Text.trim body
  if body = "" || (s.openQuestion ticket).isSome then
    (s, false)
  else
    let n := s.questions.countP (·.ticket = ticket) + 1
    let q := AgentQuestion.asked now ticket «from» «to» body n
    (s.withQuestions (capLog AgentQuestion.isOpen (s.questions ++ [q])), true)

-- A question is handed on once, and not to whom it is at already.
def forwardQuestion (id «to» : String) : ProjectState × Bool :=
  match s.questions.find? (·.id = id) with
  | none   => (s, false)
  | some q =>
    if q.forwarded || q.to = «to» || !q.isOpen then
      (s, false)
    else
      let questions := Lists.updateFirst (·.id = id) (·.handedTo «to») s.questions
      (s.withQuestions (questions.getD s.questions), true)

def answerQuestion (now id answer : String) : ProjectState × Bool :=
  let answer := Text.trim answer
  if answer = "" then
    (s, false)
  else
    match Lists.updateFirst (·.id = id) (·.answeredWith now answer) s.questions with
    | none           => (s, false)
    | some questions => (s.withQuestions questions, true)

@[simp]
theorem questions_withQuestions {questions : List AgentQuestion} :
    (s.withQuestions questions).questions = questions :=
  rfl

end ProjectState

inductive QuestionCall
  | ask (now ticket «from» «to» body : String)
  | forward (id «to» : String)
  | answer (now id answer : String)
deriving DecidableEq, Repr

namespace ProjectState

variable (s : ProjectState)

def onQuestion : QuestionCall → ProjectState
  | .ask now ticket «from» «to» body => (s.askQuestion now ticket «from» «to» body).1
  | .forward id «to»                 => (s.forwardQuestion id «to»).1
  | .answer now id answer            => (s.answerQuestion now id answer).1

@[simp]
theorem onQuestion_ask {now ticket «from» «to» body : String} :
    s.onQuestion (.ask now ticket «from» «to» body) = (s.askQuestion now ticket «from» «to» body).1 :=
  rfl

@[simp]
theorem onQuestion_forward {id «to» : String} : s.onQuestion (.forward id «to») = (s.forwardQuestion id «to»).1 :=
  rfl

@[simp]
theorem onQuestion_answer {now id answer : String} :
    s.onQuestion (.answer now id answer) = (s.answerQuestion now id answer).1 :=
  rfl

end ProjectState
