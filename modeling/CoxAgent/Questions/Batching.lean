import CoxAgent.Cycle.Reverts
import CoxAgent.Lib.Lists
import CoxAgent.Questions.Log
import CoxAgent.State.Edit

-- The questions to a person who wants no interruption are held back until a digest delivers them.

structure FocusWindow where
  windowUtc     : String := ""
  deferToDigest : Bool   := false
deriving DecidableEq, Repr

-- The focus windows of the persons, by their names.
abbrev FocusWindows := BTreeMap String FocusWindow

-- The minutes since midnight of a time such as 09:30.
def parseMinute (cs : List Char) : Option Nat := do
  let (h, m) ← RevertLearning.splitOnce ':' (Text.trimChars cs)
  let h ← Text.parseBelow (2 ^ 32) h
  let m ← Text.parseBelow (2 ^ 32) m
  if h < 24 ∧ m < 60 then some (h * 60 + m) else none

def windowBounds (window : String) : Option (Nat × Nat) := do
  let (a, b) ← RevertLearning.splitOnce '-' (Text.trimChars window.toList)
  return (← parseMinute a, ← parseMinute b)

-- A window may go past midnight. One that starts where it ends is none.
def inQuietWindow (window : String) (minute : Nat) : Bool :=
  match windowBounds window with
  | none            => false
  | some (start, stop) =>
    if start = stop then false
    else if start < stop then start ≤ minute ∧ minute < stop
    else start ≤ minute ∨ minute < stop

def toAsciiLowercase (s : String) : String :=
  .ofList (s.toList.map (·.toLower))

def eqIgnoreAsciiCase (s s' : String) : Bool :=
  toAsciiLowercase s = toAsciiLowercase s'

-- The person without the sign, in lower case.
def ownerOf («to» : String) : String :=
  let name := Text.trim «to»
  toAsciiLowercase <| (Text.stripPrefix name "@").getD name

section Config

variable (human : FocusWindows) («to» : String)

def focusOf : Option FocusWindow :=
  let owner := ownerOf «to»
  if owner = "" then none
  else (human.entries.find? fun entry => eqIgnoreAsciiCase entry.1 owner).map (·.2)

def batchingOn : Option FocusWindow :=
  (focusOf human «to»).filter fun fw => fw.deferToDigest && Text.trim fw.windowUtc ≠ ""

-- The person takes no questions at the minute.
def inFocus (minute : Nat) : Bool :=
  (batchingOn human «to»).any (inQuietWindow ·.windowUtc minute)

-- A question that has waited for too long is not held back.
def shouldDefer (minute age sla : Nat) : Bool :=
  if !Text.startsWith (Text.trim «to») "@" then
    false
  else
    match batchingOn human «to» with
    | none    => false
    | some fw => if sla > 0 && age ≥ sla then false else inQuietWindow fw.windowUtc minute

end Config

namespace AgentQuestion

def released (q : AgentQuestion) : AgentQuestion :=
  { q with deferred := false }

def isHeld (q : AgentQuestion) : Bool :=
  q.isOpen && q.deferred && Text.startsWith q.to "@" && ownerOf q.to ≠ ""

end AgentQuestion

def digestLine (q : AgentQuestion) : String :=
  let ticket := if q.ticket = "" then "" else s!" ({q.ticket})"
  let body : String := .ofList (q.body.toList.take 160)
  s!"\n• {q.from}{ticket}: {body} — reply in your inbox"

def digestMessage (owner : String) (batch : List AgentQuestion) : String :=
  let plural := if batch.length = 1 then "" else "s"
  s!"📬 @{owner} — your focus window ended: {batch.length} question{plural} waited while you were " ++
    "heads-down:" ++ String.join (batch.map digestLine)

-- The questions of the digest are released by their ids, and what else is held back for the person by its
-- address.
def releaseBatch (owner : String) (batch : List AgentQuestion) (questions : List AgentQuestion) :
    List AgentQuestion :=
  batch.foldl (fun qs q => (Lists.updateFirst (·.id = q.id) (·.released) qs).getD qs) questions
    |>.map fun q => if q.deferred && eqIgnoreAsciiCase q.to ("@" ++ owner) then q.released else q

namespace ProjectState

variable (s : ProjectState)

-- The questions that are held back, by the person.
def selectDeferred : List (String × List AgentQuestion) :=
  Grouping.grouped (ownerOf ·.to) (s.questions.filter (·.isHeld))

-- The ticket of the question may have been settled in the meantime.
def stillRelevant (q : AgentQuestion) : Bool :=
  q.isOpen && (q.ticket = "" ||
    (s.tickets.find? (·.id.asStr = q.ticket)).any (·.status ∉ [.done, .documented, .rejected, .verified]))

def flushBatches (human : FocusWindows) (minute : Nat) : List (String × List AgentQuestion) :=
  s.selectDeferred
    |>.map (fun (owner, batch) => (owner, batch.filter (!inFocus human ·.to minute) |>.filter s.stillRelevant))
    |>.filter (·.2 ≠ [])

def deliverDigest (posted logged mint owner : String) (batch : List AgentQuestion) : ProjectState :=
  s.withQuestions (releaseBatch owner batch s.questions)
    |>.postChatIn mint posted "SM" (digestMessage owner batch) agentsChannel []
    |>.logActivity logged "SM" s!"flushed {batch.length} queued question(s) to @{owner}" none

-- The digests are made of the state before the first of them is delivered.
def flushFocusDigests (now mint : Nat → String) (human : FocusWindows) (minute : Nat) : ProjectState :=
  (s.flushBatches human minute).zipIdx.foldl (fun s ((owner, batch), n) =>
    s.deliverDigest (now (2 * n)) (now (2 * n + 1)) (mint n) owner batch) s

@[simp]
theorem questions_deliverDigest {posted logged mint owner : String} {batch : List AgentQuestion} :
    (s.deliverDigest posted logged mint owner batch).questions = releaseBatch owner batch s.questions := by
  rw [deliverDigest, logActivity, postChatIn, withQuestions]

end ProjectState
