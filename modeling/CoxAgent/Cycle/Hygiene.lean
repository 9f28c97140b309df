import CoxAgent.Forge.Policy
import CoxAgent.Lib.BTreeMap
import CoxAgent.Lib.Git
import CoxAgent.Lib.OsPath
import CoxAgent.State.Basic

open Git

-- Which of the commands of a pass succeed, and what those print or bring that do not only read the
-- repository. A `status` that fails may have printed something.
structure HygieneIo (C : Type) where
  isRepo   : Bool                := true
  branch   : Bool                := true
  status   : Option String       := none
  stash    : Bool                := true
  checkout : Bool                := true
  detach   : Bool                := true
  fetch    : Option C
  revList  : Bool                := true
  backup   : Bool                := true
  current  : Bool                := true
  reset    : Bool                := true
  wipRefs  : Bool × String       := (true, "")
  tickets  : Option (List Ticket) := some []
  deletes  : String → Bool       := fun _ => true

-- The repository with what the hygiene has logged.
structure HygieneRun (C Δ : Type) where
  repo : Repo C Δ
  log  : List String := []

variable {C Δ : Type} [DecidableEq C] (objects : Objects C Δ)

-- Whether a command succeeds, and what it leaves behind. One that fails leaves everything as it is.
def attempt (succeeds : Bool) (command : Repo C Δ → Option (Repo C Δ)) (r : Repo C Δ) : Bool × Repo C Δ :=
  match (if succeeds then command r else none) with
  | some r' => (true, r')
  | none    => (false, r)

namespace HygieneRun

def logGit (msg : String) (o : HygieneRun C Δ) : HygieneRun C Δ :=
  { o with log := o.log ++ [msg] }

def run (succeeds : Bool) (command : Repo C Δ → Option (Repo C Δ)) (msg : Option String)
    (o : HygieneRun C Δ) : HygieneRun C Δ :=
  match attempt succeeds command o.repo, msg with
  | (true, repo), some msg => { o with repo }.logGit msg
  | (_, repo), _           => { o with repo }

end HygieneRun

variable (io : HygieneIo C) (base branch : String)

def seesDirt (r : Repo C Δ) : Bool :=
  match io.status with
  | none     => !r.tree.isClean
  | some out => Text.trim out ≠ ""

-- What is not committed goes to the stash, be it on another branch or on the base.
def stashOrphans (o : HygieneRun C Δ) : HygieneRun C Δ :=
  let dirty := seesDirt io o.repo
  if dirty && branch ≠ "" && branch ≠ base then
    o.run io.stash (·.stashPush s!"hygiene: orphan WIP on {branch} (engine died mid-run)")
      (some s!"hygiene: stashed orphan WIP from {branch} — recover with `git stash list`")
  else if dirty && branch = base then
    o.run io.stash (·.stashPush s!"hygiene: untracked/dirty residue on {base}")
      (some s!"hygiene: stashed residue blocking checkouts on {base} — `git stash list`")
  else
    o

-- A base that is checked out elsewhere is taken without its branch.
def returnToBase (o : HygieneRun C Δ) : HygieneRun C Δ :=
  if branch ≠ "" && branch ≠ base && branch ≠ "HEAD" then
    match attempt io.checkout (·.checkout base) o.repo with
    | (true, repo)  => { o with repo }
    | (false, repo) => { o with repo }.run io.detach (·.checkoutDetached (.remote base)) none
  else
    o

def fetchBase (o : HygieneRun C Δ) : HygieneRun C Δ :=
  match io.fetch with
  | some tip => { o with repo := o.repo.setRef (.remote base) tip }
  | none     => o

def commitsAhead (r : Repo C Δ) : Nat :=
  if io.revList then (r.ahead objects base).getD 0 else 0

def currentBranch (succeeds : Bool) (r : Repo C Δ) : String :=
  if succeeds then r.currentBranch.getD "" else ""

def backupBranch : String :=
  s!"backup/{base}-hygiene"

-- A base with commits that its remote lacks is kept on the backup branch and reset to the remote.
def resetBase (o : HygieneRun C Δ) : HygieneRun C Δ :=
  let ahead := commitsAhead objects io base o.repo
  if ahead > 0 then
    let o := o.run io.backup (·.forceBranch (backupBranch base) (.branch base)) none
    if currentBranch io.current o.repo = base then
      o.run io.reset (·.resetHard objects (.remote base))
        (some (s!"hygiene: local {base} had {ahead} commit(s) origin lacks — kept on {backupBranch base}, " ++
          s!"reset to origin/{base}"))
    else
      o
  else
    o

def treeHygieneLeader (o : HygieneRun C Δ) : HygieneRun C Δ :=
  o |> stashOrphans io base branch |> returnToBase io base branch |> fetchBase io base |>
    resetBase objects io base

def wipRefPrefix : String := "refs/coxagent/wip/"

def maxKeptUnattributed : Nat := 3

def wipRefFor (id : TicketId) : String :=
  wipRefPrefix ++ id.asStr

def compactInstant (rfc3339 : String) : String :=
  .ofList (rfc3339.toList.filter (·.isAlphanum))

def unattributedWipRef (workDir : OsPath) (rfc3339Now : String) : String :=
  let slot := workDir.fileName.elim "unknown-slot" fun name => .ofList (name.toStringLossy.toList.take 60)
  wipRefPrefix ++ s!"unattributed-{compactInstant rfc3339Now}-{slot}"

def Status.isClosed : Status → Bool
  | .done | .documented | .verified | .rejected => true
  | _                                           => false

-- The checkpoints of tickets that are closed or gone, and all but the newest ones of no ticket. The names
-- of the latter begin with the time.
def staleWipRefs (refNames : List String) (tickets : BTreeMap String Bool) (keepUnattributed : Nat) :
    List String :=
  let wip := refNames.filterMap fun n => (Text.stripPrefix n wipRefPrefix).map fun leaf => (n, leaf)
  let (unattributed, attributed) := wip.partition fun n => Text.startsWith n.2 "unattributed-"
  (attributed.filter fun n => (tickets.get? n.2).getD true).map Prod.fst ++
    ((unattributed.map Prod.fst).mergeSort (· ≤ ·)).reverse.drop keepUnattributed

-- The checkpoints that a pass deletes.
def prunedWipRefs : List String :=
  let refs := (Text.lines io.wipRefs.2).filter (Text.trim · ≠ "")
  if !io.wipRefs.1 || refs.isEmpty then
    []
  else
    match io.tickets with
    | none         => []
    | some tickets =>
      let closed := tickets.foldl (fun m t => m.insert t.id.asStr t.status.isClosed) ∅
      (staleWipRefs refs closed maxKeptUnattributed).filter io.deletes

def pruneTicketWipRefs (r : Repo C Δ) : Repo C Δ :=
  (prunedWipRefs io).foldl (fun r n => r.deleteRef (.other n)) r

-- The hygiene of the checkout that the leader works in.
def treeHygiene (config : GitConfig) (r : Repo C Δ) : HygieneRun C Δ :=
  if !config.enabled || !io.isRepo then
    { repo := r }
  else
    let o := treeHygieneLeader objects io config.flowBase (currentBranch io.branch r) { repo := r }
    let o := { o with repo := pruneTicketWipRefs io o.repo }
    let pruned := prunedWipRefs io
    let names := ", ".intercalate pruned
    if pruned.isEmpty then
      o
    else
      o.logGit s!"hygiene: pruned {pruned.length} spent WIP checkpoint ref(s): {names}"

-- The repository with the work that was there before the passes so far, on the base and in the tree.
structure HygieneState (C Δ : Type) where
  repo : Repo C Δ
  owed : List (Work C Δ) := []

-- A pass of the hygiene, or the work of others on the repository between two passes.
inductive HygieneEvent (C Δ : Type)
  | pass (io : HygieneIo C)
  | others (repo : Repo C Δ)

def workOf (r : Repo C Δ) : List (Work C Δ) :=
  ((r.refs (.branch base)).elim [] objects.history).map .commit ++ r.tree.changes.map .change

def hygieneStep (config : GitConfig) (s : HygieneState C Δ) : HygieneEvent C Δ → HygieneState C Δ
  | .pass io     => {
      repo := (treeHygiene objects io config s.repo).repo
      owed := s.owed ++ workOf objects config.flowBase s.repo
    }
  | .others repo => { s with repo }
