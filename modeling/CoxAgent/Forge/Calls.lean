import CoxAgent.Forge.Policy
import CoxAgent.Json.Store
import CoxAgent.State.Basic
import CoxAgent.State.Edit

-- The stored state with what has been done to the outside, the errors of the report and how often the
-- state has been edited.
structure PortRun (α : Type) where
  state   : ProjectState
  actions : List α      := []
  errors  : List String := []
  edits   : Nat         := 0

-- The time and the id that an edit of the state gets, and whether the store takes it.
structure EditIo where
  now   : String := ""
  mint  : String := ""
  fails : Bool   := false
deriving DecidableEq, Repr

namespace PortRun

variable {α : Type}

def act (o : PortRun α) (a : α) : PortRun α :=
  { o with actions := o.actions ++ [a] }

def fail (o : PortRun α) (e : String) : PortRun α :=
  { o with errors := o.errors ++ [e] }

def edit (o : PortRun α) (e : EditIo) (f : ProjectState → ProjectState) : PortRun α :=
  { o with
    state := if e.fails then o.state else f o.state
    edits := o.edits + 1
  }

variable {o : PortRun α} {a : α} {e : EditIo} {f : ProjectState → ProjectState} {msg : String}

@[simp]
theorem actions_act : (o.act a).actions = o.actions ++ [a] :=
  rfl

@[simp]
theorem state_act : (o.act a).state = o.state :=
  rfl

@[simp]
theorem actions_fail : (o.fail msg).actions = o.actions :=
  rfl

@[simp]
theorem state_fail : (o.fail msg).state = o.state :=
  rfl

@[simp]
theorem actions_edit : (o.edit e f).actions = o.actions :=
  rfl

theorem state_edit : (o.edit e f).state = if e.fails then o.state else f o.state :=
  rfl

end PortRun

-- What is asked of the forge and of the other ports, with the answers that matter later on, and what is
-- decided about a hold.
inductive ForgeCall
  | prDiff (number : Nat) (answer : Except PortError String)
  | mergePr (number : Nat) (answer : Except PortError Unit)
  | closePr (number : Nat) (answer : Except PortError Unit)
  | commentPr (number : Nat) (body : String)
  | requestChanges (number : Nat) (comment : String)
  | verifyMergedResult (number : Nat) (answer : Except String Unit)
  | reportReview (number : Nat) (decision summary headSha : String)
  | reportHold (number : Nat) (reason : String)
  | notify (kind message : String)
  | runEngine (prompt : String)
  | checkoutBase
  | claimStage (key stage : String)
  | holdRound (number : Nat) (decision : HoldExpiry)
  | report (role activity : String)

abbrev ForgeRun := PortRun ForgeCall

namespace PortRun

def logGit (o : ForgeRun) (e : EditIo) (action : String) : ForgeRun :=
  o.edit e fun s => s.logActivity e.now "GIT" action none

def say (o : ForgeRun) (e : EditIo) (author msg : String) : ForgeRun :=
  o.edit e fun s => s.postChatIn e.mint e.now author msg agentsChannel []

end PortRun
