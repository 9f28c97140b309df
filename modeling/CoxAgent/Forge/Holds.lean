import CoxAgent.Domain.Kinds
import CoxAgent.Forge.Calls
import CoxAgent.Lib.Lists
import CoxAgent.State.Basic

-- What the ports answer when a pull request is asked about whose ticket is merged elsewhere or settled.
-- There may be no git to read its head.
structure HoldIo where
  lsRemote        : Option (Bool × String)
  diffElsewhere   : Except PortError String
  onMainElsewhere : String → Option String   := fun _ => none
  closeElsewhere  : Except PortError Unit    := .ok ()
  holdLoads       : Bool                     := true
  mergeExpired    : Except PortError Unit    := .ok ()
  settledLoads    : Bool                     := true
  diffSettled     : Except PortError String
  onMainSettled   : String → Option String   := fun _ => none
  diffLand        : Except PortError String
  mergeSettled    : Except PortError Unit    := .ok ()
  closeSettled    : Except PortError Unit    := .ok ()
  settledHold     : Bool                     := true

-- A phase of the review of a pull request ends the review, or lets it go on.
abbrev ReviewPhase := ForgeRun × Bool

def ReviewPhase.andThen (p : ReviewPhase) (f : ForgeRun → ReviewPhase) : ReviewPhase :=
  if p.2 then f p.1 else p

variable (config : GitConfig) (edits : Nat → EditIo) (merged : List (Nat × String)) (pr : PullRequest)

namespace PortRun

-- The edits of a pass are answered one after the other.
def save (o : ForgeRun) (f : EditIo → ProjectState → ProjectState) : ForgeRun :=
  o.edit (edits o.edits) (f (edits o.edits))

def log (action : String) (o : ForgeRun) : ForgeRun :=
  o.logGit (edits o.edits) action

def announcePrClose (number : Nat) (title why : String) (o : ForgeRun) : ForgeRun :=
  let msg := s!"🗑️ auto-closed PR #{number} (\"{title}\") — {why}"
  let o := o.save edits fun e s =>
    let s := s.postChatIn e.mint e.now "SA" msg agentsChannel []
    { s with
      seenClosedPrs := s.seenClosedPrs.insert number ()
      prOpenHolds   := s.prOpenHolds.remove number
    }
  o.act (.notify "pr_closed" msg)

-- The pull request is closed with a note. If the forge closes it then it is announced.
def closePr (answer : Except PortError Unit) (note why action : String) (o : ForgeRun) : ForgeRun :=
  let o := o.act (.commentPr pr.number note) |>.act (.closePr pr.number answer)
  match answer with
  | .ok _    => o.announcePrClose edits pr.number pr.title why |>.log edits action
  | .error _ => o

end PortRun

-- No text if the head cannot be read.
def prHeadSha (lsRemote : Option (Bool × String)) : String :=
  match lsRemote with
  | none           => ""
  | some (ok, out) => if ok then (Text.words out).headD "" else ""

def holdAttribution (rounds : Nat) : String :=
  if config.holdMaxRounds = 0 then "" else s!" (hold {rounds}/{config.holdMaxRounds})"

-- The chain of a hold goes on if reason and head are the same, or the head cannot be read.
def continuedHold (prior : Option PrOpenHold) (reason headSha : String) : Option PrOpenHold :=
  prior.filter fun p => p.reason = reason ∧ (headSha = "" ∨ p.headSha = headSha)

def priorHold (loads : Bool) (s : ProjectState) : Option PrOpenHold :=
  if config.holdMaxRounds = 0 || !loads then none else s.prOpenHolds.get? pr.number

-- A round that expires clears the slot of the pull request.
def recordRound (prior : Option PrOpenHold) (reason headSha : String) (decision : HoldExpiry)
    (e : EditIo) (s : ProjectState) : ProjectState :=
  match decision with
  | .keep rounds       =>
    let chain := continuedHold prior reason headSha
    { s with
      prOpenHolds := s.prOpenHolds.insert pr.number {
        reason, rounds
        headSha := if headSha = "" then chain.elim "" (·.headSha) else headSha
        firstAt := chain.elim e.now (·.firstAt)
        lastAt  := e.now
      }
    }
  | .land _ | .close _ => { s with prOpenHolds := s.prOpenHolds.remove pr.number }

-- One more round of a hold.
def openHoldRound (loads : Bool) (reason headSha : String) (landable : Bool) (o : ForgeRun) :
    ForgeRun × HoldExpiry :=
  let prior := priorHold config pr loads o.state
  let decision := openHoldExpiry prior reason headSha landable config.holdMaxRounds
  let o := o.act (.holdRound pr.number decision)
  if config.holdMaxRounds = 0 then
    (o, decision)
  else
    (o.save edits (recordRound pr prior reason headSha decision), decision)

variable (io : HoldIo) (tid headSha : String)

-- Another pull request for the ticket is merged. The diff is on the main branch, or the pull request is
-- held open.
def reviewElsewhere (o : ForgeRun) : ReviewPhase :=
  let mergedTickets := merged.filterMap fun m => ticketIdIn m.2
  if !(mergedTickets.contains tid && !merged.any (·.1 = pr.number)) then
    (o, true)
  else
    let o := o.act (.prDiff pr.number io.diffElsewhere)
    let diff := io.diffElsewhere.toOption
    if diff.any (diffLandedOnMain · io.onMainElsewhere) then
      (o.closePr edits pr io.closeElsewhere
        (s!"Closing: a pull request for {tid} is already merged and this diff's content is present on " ++
          "main — this branch rebuilds what main has.")
        s!"{tid} already merged elsewhere and this diff is on main"
        s!"review: closed PR #{pr.number} — {tid} already merged elsewhere", false)
    else
      let landable := diff.any fun d =>
        pr.mergeable && !diffHasConflictMarkers d && (commitsScratch d).isNone
      let reason := s!"{tid} merged elsewhere but this diff is NOT on main"
      let (o, decision) := openHoldRound config edits pr io.holdLoads reason headSha landable o
      match decision with
      | .keep rounds  =>
        (o.log edits (s!"review: PR #{pr.number} kept OPEN{holdAttribution config rounds} — {tid} merged " ++
          "elsewhere but this diff is NOT on main; letting review land it"), true)
      | .land rounds  =>
        let o := o.act (.mergePr pr.number io.mergeExpired)
        match io.mergeExpired with
        | .ok _    =>
          let o := o.act (.commentPr pr.number
            (s!"Merged after {rounds} rounds held open on the same hold: {tid} is already merged " ++
              "elsewhere, review never landed this diff, and it is mergeable, conflict-marker- and " ++
              "scratch-free. Forcing the terminal decision instead of re-logging the hold."))
          (o.log edits (s!"review: merged PR #{pr.number} — held {rounds} rounds on the " ++
            "merged-elsewhere hold; landed at expiry"), false)
        | .error _ => (o, true)
      | .close rounds =>
        (o.closePr edits pr io.closeElsewhere
          (s!"Closing after {rounds} rounds held open on the same hold: {tid} is already merged " ++
            s!"elsewhere and this diff is not on main. Closing in favor of the merge that carried {tid}; " ++
            "reopen a fresh branch off current main if any of this work is still wanted.")
          s!"{rounds} rounds on the same hold: {tid} merged elsewhere — closed in its favor"
          (s!"review: closed PR #{pr.number} — {tid} merged elsewhere, hold expired after {rounds} " ++
            "rounds"), false)

def Status.settled : Status → Bool
  | .verified | .done | .documented | .rejected => true
  | _                                           => false

-- The diff of a settled ticket is safe to land.
def safeToLand (diff : Except PortError String) : Bool :=
  diff.toOption.any fun d => !diffHasConflictMarkers d && (commitsScratch d).isNone

-- A settled ticket whose diff is not on the main branch is held open, if it cannot be landed at once.
def holdSettled (o : ForgeRun) : ReviewPhase :=
  let reason := s!"{tid} is settled but the diff is NOT on main"
  let (o, decision) := openHoldRound config edits pr io.settledHold reason headSha false o
  match decision with
  | .close rounds               =>
    (o.closePr edits pr io.closeSettled
      (s!"Closing after {rounds} rounds held open on the same hold: {tid} is settled, this diff is not " ++
        "on main, and it cannot land (conflicts or unsafe). The ticket's accepted work stays; reopen " ++
        "a fresh branch off current main if anything here is still missing.")
      s!"{rounds} rounds on the same hold: {tid} settled, diff unlandable — terminal close"
      s!"review: closed PR #{pr.number} — {tid} settled, hold expired after {rounds} rounds", false)
  | .keep rounds | .land rounds =>
    (o.log edits (s!"review: PR #{pr.number} kept OPEN{holdAttribution config rounds} — {tid} is settled " ++
      "but the diff is NOT on main; letting review land it"), true)

-- What a settled ticket was accepted for is landed without a review.
def landSettled (o : ForgeRun) : ReviewPhase :=
  if !pr.mergeable then
    (o, true)
  else
    let o := o.act (.prDiff pr.number io.diffLand)
    if !safeToLand io.diffLand then
      (o, true)
    else
      let o := o.act (.mergePr pr.number io.mergeSettled)
      match io.mergeSettled with
      | .error _ => (o, true)
      | .ok _    =>
        let o := o.act (.commentPr pr.number
          (s!"Merged: {tid} is already settled — the dev flow's own gates accepted this work — and the " ++
            "diff was not yet on main. Landing it directly instead of waiting on a review round that " ++
            "keeps failing to happen."))
        let o := o.save edits fun _ s => { s with prOpenHolds := s.prOpenHolds.remove pr.number }
        (o.log edits (s!"review: merged PR #{pr.number} — {tid} settled, diff not on main, mergeable and " ++
          "marker/scratch-free"), false)

def settledStatus (s : ProjectState) : Option Status :=
  (s.tickets.find? (·.id.asStr = tid)).map (·.status) |>.filter (·.settled)

def reviewSettled (o : ForgeRun) : ReviewPhase :=
  match (if io.settledLoads then settledStatus tid o.state else none) with
  | none        => (o, true)
  | some status =>
    let o := o.act (.prDiff pr.number io.diffSettled)
    if io.diffSettled.toOption.any (diffLandedOnMain · io.onMainSettled) then
      (o.closePr edits pr io.closeSettled
        (s!"Closing: {tid} is already {status.debug} and this diff's content is present on main — " ++
          "superseded. The branch stays in git if any of it is ever wanted.")
        s!"{tid} is settled and this diff is on main"
        s!"review: closed PR #{pr.number} — {tid} settled and landed", false)
    else
      (landSettled edits pr io tid o).andThen (holdSettled config edits pr io tid headSha)

-- The two holds of a pull request that names a ticket.
def reviewHolds (o : ForgeRun) : ReviewPhase :=
  match ticketIdIn pr.title with
  | none     => (o, true)
  | some tid =>
    (reviewElsewhere config edits merged pr io tid headSha o).andThen
      (reviewSettled config edits pr io tid headSha)

-- What the hub mirrors of the forge's open pull requests, and the holds that people put on them.

def maxOpenPrs : Nat := 50

namespace ProjectState

variable (s : ProjectState)

-- The oldest entries go when the list is too long.
def upsertOpenPr (pr : PrOpen) : ProjectState :=
  let prs := (Lists.updateFirst (·.number = pr.number) (fun _ => pr) s.openPrs).getD (s.openPrs ++ [pr])
  { s with openPrs := prs.drop (prs.length - maxOpenPrs) }

-- A hold on a pull request that is no longer open is stale.
def setOpenPrs (prs : List PrOpen) : ProjectState :=
  { s with
    openPrs    := prs.take maxOpenPrs
    humanHolds := s.humanHolds.retain fun n => (prs.take maxOpenPrs).any (·.number = n)
  }

def holdPr (number : Nat) (reason : String) : ProjectState :=
  { s with humanHolds := s.humanHolds.insert number reason }

end ProjectState

inductive MirrorCall
  | setOpenPrs (prs : List PrOpen)
  | upsertOpenPr (pr : PrOpen)
  | hold (number : Nat) (reason : String)
deriving DecidableEq, Repr

def ProjectState.onMirror (s : ProjectState) : MirrorCall → ProjectState
  | .setOpenPrs prs     => s.setOpenPrs prs
  | .upsertOpenPr pr    => s.upsertOpenPr pr
  | .hold number reason => s.holdPr number reason
