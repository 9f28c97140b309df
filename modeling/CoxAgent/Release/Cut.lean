import CoxAgent.Cycle.Evict
import CoxAgent.Forge.Calls
import CoxAgent.Lib.Replace
import CoxAgent.Release.Manifest
import CoxAgent.Sprint.Milestones

-- The release cut, the only place where the version of the product moves.

inductive Bump where
  | major
  | minor
  | patch
deriving DecidableEq, Repr

namespace SemVer

def bumped (v : SemVer) : Bump → SemVer
  | .major => { major := v.major + 1 }
  | .minor => { major := v.major, minor := v.minor + 1 }
  | .patch => { major := v.major, minor := v.minor, patch := v.patch + 1 }

def display (v : SemVer) : String :=
  s!"{v.major}.{v.minor}.{v.patch}" ++ (if v.pre = "" then "" else "-" ++ v.pre) ++
    if v.build = "" then "" else "+" ++ v.build

end SemVer

structure ReleasesConfig where
  enabled         : Bool := false
  cutEveryDays    : Nat  := 0
  cutOnlyVerified : Bool := true
deriving DecidableEq, Repr

-- The ports that a cut needs, and what they answer: whether the state loads, whether the forge lists the
-- open pull requests and git the subjects, the version of the manifest in the tree, whether the release
-- branch is pushed, and the number of the pull request.
structure CutIo where
  today  : String
  ports  : Bool           := true
  loads  : Bool           := true
  lists  : Bool           := true
  logs   : Bool           := true
  cargo  : Option SemVer
  pushed : Bool           := true
  opened : Option Nat
  edit   : EditIo         := {}
deriving DecidableEq, Repr

-- What a commit subject says that it is about.
def commitKind (subject : String) : String :=
  .ofList <| subject.toList.takeWhile (· ∉ [':', '(', '!'])

-- A feature makes a minor version and any other releasable change a patch. No subject makes a major one.
def classifyBump (patch : Bool) : List String → Option Bump
  | []           => if patch then some .patch else none
  | s :: subjects =>
    let s := Text.trim s
    if Text.startsWith s "Merge " || Text.startsWith s "release:" then
      classifyBump patch subjects
    else if commitKind s = "feat" then
      some .minor
    else
      classifyBump (patch || commitKind s ∈ ["fix", "chore", "docs", "refactor", "perf", "test"]) subjects

def changelogPart (title : String) (subjects : List String) : String :=
  if subjects = [] then "" else title ++ "\n" ++ String.join (subjects.map fun s => "- " ++ s ++ "\n")

-- The body of the release's pull request, in the groups that a person reads.
def changelog (next : String) (subjects : List String) : String :=
  let subjects := subjects.map Text.trim |>.filter fun s =>
    !(Text.startsWith s "Merge " || Text.startsWith s "release:" || s = "")
  let feat (s : String) := Text.startsWith s "feat"
  let fix (s : String)  := !feat s && Text.startsWith s "fix"
  "## v" ++ next ++ "\n" ++ changelogPart "### Features" (subjects.filter feat) ++
    changelogPart "### Fixes" (subjects.filter fix) ++
    changelogPart "### Other" (subjects.filter fun s => !feat s && !fix s) ++
    "\nMerging this PR IS the release: the merged-PR sync tags it.\n"

-- A pull request for a release, with the subjects that it carries and the line on its manifest.
structure ReleasePr where
  number   : Nat
  cur      : SemVer
  next     : SemVer
  included : List String
  line     : Option String
deriving DecidableEq, Repr

namespace ReleasePr

def title (pr : ReleasePr) : String :=
  "release: v" ++ pr.next.display

def body (pr : ReleasePr) : String :=
  changelog pr.next.display pr.included

def chat (pr : ReleasePr) : String :=
  "🏷️ Release PR opened: v" ++ pr.cur.display ++ " → v" ++ pr.next.display ++ s!" (#{pr.number}) — lands " ++
    "from the Inbox (Cargo.toml is human-gated); the merge tags v" ++ pr.next.display ++ "." ++
    pr.line.elim "" ("\n📋 " ++ ·)

end ReleasePr

-- The subjects that a release carries, and the line on what it leaves out.
def releaseManifest (c : ReleasesConfig) (s : ProjectState) (subjects : List String) :
    List String × Option String :=
  if c.cutOnlyVerified then
    let outcome := ReleaseCandidates.filterIncluded subjects (ReleaseCandidates.verifiedCompleteIds s)
    (outcome.included, some (ReleaseCandidates.manifestSummary outcome))
  else
    (subjects, none)

-- One consideration of a release, of the subjects since the last tag. The dates are those of a calendar.
def maybeCutRelease (days : String → String → Nat) (c : ReleasesConfig) (gitEnabled : Bool) (io : CutIo)
    (s : ProjectState) (openPrs subjects : List String) : Option ReleasePr :=
  if !c.enabled || c.cutEveryDays = 0 || !gitEnabled || !io.ports || !io.loads then
    none
  else if (s.dailyJobs.get? "release_cut").any (days · io.today < c.cutEveryDays) then
    none
  else if io.lists && openPrs.any (Text.startsWith · "release: v") then
    none
  else if !io.logs then
    none
  else
    let (included, line) := releaseManifest c s subjects
    match classifyBump false included, io.cargo with
    | some bump, some cur =>
      if io.pushed then
        io.opened.map fun number => { number, cur, next := cur.bumped bump, included, line }
      else
        none
    | _, _                => none

-- The date of the cut and the audit line, if the store takes them.
def ProjectState.recordCut (s : ProjectState) (io : CutIo) (pr : ReleasePr) : ProjectState :=
  if io.edit.fails then
    s
  else
    { s with dailyJobs := s.dailyJobs.insert "release_cut" io.today }.postChatIn io.edit.mint io.edit.now
      "SM" pr.chat agentsChannel []

-- A release that was cut: the commits that it considered, the tickets of the project at that time and the
-- subjects that it carries.
structure ReleaseCut where
  since    : Nat
  upto     : Nat
  tickets  : List Ticket
  included : List String
deriving DecidableEq, Repr

-- The board and the cold store, the subjects on the base branch from the oldest one, how many of them the
-- last tag covers, the open pull request of a release and the releases that were cut.
structure ReleaseLine where
  project : ProjectState
  archive : List Ticket      := []
  commits : List String      := []
  tagged  : Nat              := 0
  pending : Option String    := none
  cuts    : List ReleaseCut  := []

-- What happens to the board and to the base branch. A merge is that of the release that is open.
inductive ReleaseEvent where
  | commit (subject : String)
  | mint (t : Ticket)
  | move (id : TicketId) (role : Role) (dst : Status)
  | evict (confirmed : String → Bool)
  | cut (io : CutIo)
  | merge (subject : String)

-- Some gates refuse a move.
def Ticket.tryTransition (t : Ticket) (role : Role) (dst : Status) : Ticket :=
  match t.transitionTo role dst with
  | .ok t'   => t'
  | .error _ => t

namespace ReleaseLine

variable (w : ReleaseLine)

-- The tickets of the project, on the board or in the cold store.
def tickets : List Ticket :=
  w.project.tickets ++ w.archive

-- What git logs since the last tag, from the newest commit.
def subjectsSinceLastTag : List String :=
  (w.commits.drop w.tagged).reverse

-- The sweep moves at most fifty tickets, those that the cold store has taken.
def sweep (confirmed : String → Bool) : ReleaseLine :=
  let archived := (evictionCandidates w.project).take 50 |>.filter confirmed
  { w with
    project := evict archived w.project
    archive := w.archive ++ w.project.tickets.filter (·.id.asStr ∈ archived) }

-- A cut that opens a pull request.
def record (io : CutIo) (pr : ReleasePr) : ReleaseLine := { w with
  project := w.project.recordCut io pr
  pending := some pr.title
  cuts    := w.cuts ++
    [{ since := w.tagged, upto := w.commits.length, tickets := w.tickets, included := pr.included }]
}

-- The merge of a release tags the head of the base branch.
def land (subject : String) : ReleaseLine := { w with
  commits := w.commits ++ [subject]
  tagged  := w.commits.length + 1
  pending := none
}

def step (days : String → String → Nat) (c : ReleasesConfig) (w : ReleaseLine) :
    ReleaseEvent → ReleaseLine
  | .commit subject   => { w with commits := w.commits ++ [subject] }
  | .mint t           => { w with project := { w.project with tickets := w.project.tickets ++ [t] } }
  | .move id role dst => { w with project := w.project.modifyTicket id (·.tryTransition role dst) }
  | .evict confirmed  => w.sweep confirmed
  | .cut io           =>
    match maybeCutRelease days c true io w.project w.pending.toList w.subjectsSinceLastTag with
    | none    => w
    | some pr => w.record io pr
  | .merge subject    => if w.pending.isSome then w.land subject else w

end ReleaseLine

-- The commit of a release. The files are those of the base branch, the text of the manifest is the leader's.

-- The version that a line of the manifest sets.
def cargoLineVersion (lib : SemverLib) (line : String) : Option String := do
  let rest ← Text.stripPrefix (Text.trim line) "version"
  let rhs  ← Text.stripPrefix (Text.trimStart rest) "="
  let v := Text.trim (Text.trimQuotes (Text.trim rhs))
  if (lib.parse v).isSome then some v else none
