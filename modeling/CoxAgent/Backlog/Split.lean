import CoxAgent.Backlog.AddTicket
import CoxAgent.Lib.Json
import CoxAgent.State.Edit

-- One part of a ticket that is too large, as the architect proposes it.
structure ProposedSubtask where
  title              : String
  description        : String
  acceptanceCriteria : List String := []
  complexity         : String      := ""
  serviceTag         : String      := ""
deriving DecidableEq, Repr

section Parse

open Serde

def ProposedSubtask.ofJson (j : Json) : Option ProposedSubtask := do
  match ← fields ["title", "description", "acceptance_criteria", "complexity", "service_tag"] j with
  | [title, description, criteria, complexity, tag] =>
    return {
      title              := ← required text title
      description        := ← required text description
      acceptanceCriteria := ← defaulted [] (list text) criteria
      complexity         := ← defaulted "" text complexity
      serviceTag         := ← defaulted "" text tag
    }
  | _ => none

def ProposedSubtask.isUsable (sub : ProposedSubtask) : Bool :=
  Text.trim sub.title ≠ "" && Text.trim sub.description ≠ ""

-- The subtasks of a reply: what stands between its first and its last bracket, if that is more than one.
def parseSubtasks (raw : String) : Option (List ProposedSubtask) := do
  let span := (Text.trim raw).toList.dropWhile (· ≠ '[') |>.rdropWhile (· ≠ ']')
  let subs ← Json.read .none span >>= list ProposedSubtask.ofJson
  let subs := subs.filter (·.isUsable) |>.take 3
  if subs.length < 2 then none else some subs

end Parse

def ProjectState.postChat (s : ProjectState) (id now user body : String) : ProjectState :=
  s.postChatIn id now user body generalChannel []

namespace Split

-- What the children take over from the ticket that is split.
structure Parent where
  type       : TicketType
  id         : TicketId
  priority   : Priority
  serviceTag : Option String

def parentOf (t : Ticket) : Parent where
  type       := t.kind
  id         := t.id
  priority   := t.priority
  serviceTag := t.serviceTag

-- The board while the children are filed, with the child before and the ids so far.
structure Filing where
  state    : ProjectState
  prev     : Option TicketId := none
  childIds : List TicketId   := []

def complexityOf (sub : ProposedSubtask) : Complexity :=
  if sub.complexity.toLower = "small" then .small else .medium

-- The tag of the subtask wins over that of the parent.
def tagOf (p : Parent) (sub : ProposedSubtask) : Option String :=
  if Text.trim sub.serviceTag = "" then p.serviceTag else some (Text.trim sub.serviceTag)

-- The child with everything that is set on it. What is not permitted is left out.
def dress (p : Parent) (prev : Option TicketId) (now : String) (sub : ProposedSubtask) (child : Ticket) : Ticket :=
  let child := (child.stampCreatedAt now).setAcceptanceCriteria sub.acceptanceCriteria
  let child := match tagOf p sub with
    | some tag => TicketOp.step child (.setServiceTag .sa tag)
    | none     => child
  let child := TicketOp.step child (.setParent .sa p.id)
  match prev with
  | some prev => TicketOp.step child (.addDependency .sa prev)
  | none      => child

variable (now : Nat → String) (p : Parent) (title : String) (total : Nat)

-- File one child. It is left out if there is no id for it or its title is blank.
def fileChild (f : Filing) (sub : ProposedSubtask) : Filing :=
  match mintId p.type f.state with
  | .error _ => f
  | .ok cid  =>
    let name := s!"{sub.title} [{f.childIds.length + 1}/{total}]"
    let text := s!"Subtask of {p.id.asStr} (\x22{title}\x22). {sub.description}"
    match Ticket.new cid p.type name text p.priority (complexityOf sub) false with
    | .error _  => f
    | .ok child => {
        state    := { f.state with
          tickets := f.state.tickets ++ [dress p f.prev (now f.childIds.length) sub child] }
        prev     := some cid
        childIds := f.childIds ++ [cid]
      }

def joined (childIds : List TicketId) : String :=
  ", ".intercalate (childIds.map (·.asStr))

-- What the chat is told about a split.
def announcement (vi : Bool) (id : String) (childIds : List TicketId) : String :=
  if vi then
    s!"🪓 SM→SA: {id} chết 2 lần ở trần vòng lặp — đã CHẺ thành {joined childIds}: một " ++
      "chuỗi subtask nhỏ, cha tạm giữ tới khi con xong."
  else
    s!"🪓 SM→SA: {id} died twice at the loop cap — SPLIT into {joined childIds}: a " ++
      "chain of small subtasks; the parent holds until they land."

-- The parent is put aside, its failures are forgotten and the split is announced. Whether the parent may be put
-- aside is not looked at.
def announce (vi : Bool) (chatId chatNow id : String) (childIds : List TicketId) (s : ProjectState) : ProjectState :=
  let s := s.modifyTicket ⟨id⟩ (TicketOp.step · (.transitionTo .system .onHold))
  let s := { s with ticketFailAttempts := s.ticketFailAttempts.remove id }
  let s := s.journalNote id s!"split into subtasks: {joined childIds}"
  s.postChat chatId chatNow "SM" (announcement vi id childIds)

-- What a split writes once the subtasks are there.
def commit (vi : Bool) (chatId chatNow id : String) (subs : List ProposedSubtask) (s : ProjectState) : ProjectState :=
  match s.tickets.find? (·.id.asStr = id) with
  | none        => s
  | some parent =>
    let f := subs.foldl (fileChild now (parentOf parent) title subs.length) { state := s }
    if f.childIds = [] then s else announce vi chatId chatNow id f.childIds f.state

end Split
