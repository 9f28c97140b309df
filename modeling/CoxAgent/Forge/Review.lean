import CoxAgent.Forge.Calls
import CoxAgent.Forge.Holds
import CoxAgent.Ops.Rollback

-- What git and the test runner answer when a merged result is built and tested. There may be none.
structure VerifyIo where
  wired    : Bool                                := true
  fetch    : Bool                                := true
  worktree : Except PortError Unit               := .ok ()
  merge    : Bool                                := true
  tests    : Except PortError DeployReport
  names    : Bool × String                       := (true, "")
  e2e      : Except PortError DeployReport

def clip (s : String) : String :=
  .ofList (s.toList.take 300)

def touchesUi (names : Bool × String) : Bool :=
  names.1 && (Text.lines names.2).any fun l =>
    Text.startsWith l "crates/presentation/src/web/" || Text.startsWith l "e2e/"

-- The head merged into the target, in a worktree of its own. Without git or without a test runner there
-- is nothing to verify.
def verifyMergedResult (io : VerifyIo) (head target : String) : Except String Unit :=
  if !io.wired then
    .ok ()
  else if !io.fetch then
    .error s!"could not fetch {head} and {target}"
  else
    match io.worktree with
    | .error e => .error s!"worktree for {target}: {e.display}"
    | .ok _    =>
      if !io.merge then
        .error s!"merging {head} into {target} does not apply cleanly"
      else
        match io.tests with
        | .error e => .error s!"could not run the suite on the merged tree: {e.display}"
        | .ok r    =>
          if !(r.success || !r.deployed) then
            .error s!"tests fail on the merged tree: {clip r.summary}"
          else if touchesUi io.names then
            match io.e2e with
            | .error e => .error s!"could not run the e2e suite: {e.display}"
            | .ok r    =>
              if r.success || !r.deployed then
                .ok ()
              else
                .error s!"browser e2e fails on the merged tree: {clip r.summary}"
          else
            .ok ()

structure PrReview where
  number   : Nat
  decision : String
  headSha  : String := ""
deriving DecidableEq, Repr

-- What the ports answer when a pull request is reviewed: the holds first, then the reviews that the hub
-- knows at three times, the lease, the diffs, and what the agent says if it says something.
structure ReviewIo extends HoldIo where
  diffScratch    : Except PortError String
  closeScratch   : Except PortError Unit   := .ok ()
  reviewed       : List PrReview           := []
  parked         : List PrReview           := []
  claimed        : Except PortError Bool   := .ok true
  diff           : Except PortError String
  otherDiff      : Except PortError String
  closeCompeting : Except PortError Unit   := .ok ()
  anyReview      : List PrReview           := []
  prAge          : Option Nat              := some 0
  lastMergeLoads : Bool                    := true
  mergeAge       : String → Option Nat     := fun _ => none
  verify         : VerifyIo
  merge          : Except PortError Unit   := .ok ()
  verdict        : Option (Bool × String)
  skipsLoad      : Bool                    := true

variable (config : GitConfig) (edits : Nat → EditIo) (prs : List PullRequest) (io : ReviewIo)
variable (pr : PullRequest) (headSha : String)

-- The reviewer asks for changes. The hub keeps the verdict with the head.
def holdBack (reason action : String) (o : ForgeRun) : ForgeRun :=
  o.act (.requestChanges pr.number reason)
    |>.act (.reportReview pr.number "request_changes" reason headSha)
    |>.log edits action

-- No review round fixes a branch that commits scratch.
def reviewScratch (o : ForgeRun) : ReviewPhase :=
  let o := o.act (.prDiff pr.number io.diffScratch)
  match io.diffScratch.toOption >>= commitsScratch with
  | none      => (o, true)
  | some path =>
    (o.closePr edits pr io.closeScratch
      (s!"Closing: this branch commits `{path}` — agent scratch, not product code. No review round " ++
        "fixes that. The ticket returns to the queue to be redone on a fresh branch off current main.")
      s!"commits agent scratch ({path}); ticket returns to the queue"
      s!"review: closed PR #{pr.number} — commits scratch ({path})", false)

def decidedAt (reviews : List PrReview) (decision : String) : Bool :=
  headSha ≠ "" && reviews.any fun r =>
    r.number = pr.number && r.decision = decision && r.headSha = headSha

-- A head that was judged or parked already waits for a push, and one that another runner reviews for that
-- one's lease. A lease that cannot be asked for is taken.
def reviewClaim (o : ForgeRun) : ReviewPhase :=
  if decidedAt pr headSha io.reviewed "request_changes" then
    (o, false)
  else if decidedAt pr headSha io.parked "parked_no_verdict" then
    (o, false)
  else
    (o.act (.claimStage s!"PR-{pr.number}" "review"), io.claimed.toOption.getD true)

def reviewGate (o : ForgeRun) : ReviewPhase :=
  if config.requireCi && pr.ci = "pending" then
    (o, false)
  else
    let blocked :=
      if config.requireCi && pr.ci = "failing" then
        some "CI is failing — fix the build/tests."
      else if !pr.mergeable then
        some "The branch has merge conflicts — rebase on the base branch."
      else
        none
    match blocked with
    | some reason =>
      (holdBack edits pr headSha reason s!"SA requested changes on PR #{pr.number} ({reason})" o, false)
    | none        => (o, true)

def candidate (n : Nat) (d : String) : CompeteCandidate where
  number       := n
  files        := some (changedFiles d)
  unsafeChange := (needsHumanEyes d config.maxChangedLines).isSome || (commitsScratch d).isSome

def openMergeable (n : Nat) : Bool :=
  ((prs.reverse.find? (·.number = n)).map (·.mergeable)).getD false

-- The duplicate is closed once the other one can land.
def closeDuplicate (winner loser : Nat) (o : ForgeRun) : ReviewPhase :=
  let o := o.act (.commentPr loser
    (s!"Closing #{loser}: PR #{winner} already covers every file this touches — a duplicate fix for the " ++
      "same ticket. Nothing here is lost; the winner proceeds through review."))
  let o := o.act (.closePr loser io.closeCompeting)
  let o :=
    match io.closeCompeting with
    | .error _ => o
    | .ok _    => o.save edits fun _ s => { s with
        seenClosedPrs := s.seenClosedPrs.insert loser ()
        prOpenHolds   := s.prOpenHolds.remove loser
      }
  if loser = pr.number then
    (o.log edits s!"SA resolved competing PRs: closed #{loser} (duplicate), keeping #{winner}", false)
  else
    (o.log edits s!"SA resolved competing PRs: closed #{loser} (duplicate); reviewing #{winner}", true)

def reviewCompeting (diff : String) (o : ForgeRun) : ReviewPhase :=
  match competingPr pr.number pr.title (prs.map fun p => (p.number, p.title)) with
  | none       => (o, true)
  | some other =>
    let o := o.act (.prDiff other io.otherDiff)
    let competes := s!"SA held PR #{pr.number}: competes with #{other}"
    let openToo := s!"PR #{other} is open for the same ticket. "
    match io.otherDiff with
    | .error _     =>
      (holdBack edits pr headSha (openToo ++ "Could not read its diff to auto-resolve — close one or fold " ++
        "this into the other before either merges.") (competes ++ " (unreadable)") o, false)
    | .ok otherDiff =>
      match resolveCompeting (candidate config pr.number diff) (candidate config other otherDiff) with
      | .mergeClose winner loser    =>
        let winnerReady :=
          if winner = pr.number then
            pr.mergeable
          else
            !diffHasConflictMarkers otherDiff && openMergeable prs winner
        if winnerReady then
          closeDuplicate edits io pr winner loser o
        else
          (holdBack edits pr headSha (openToo ++ s!"The preferred fix #{winner} is not currently landable " ++
            "(conflict/CI), so this is left for a person rather than closing the only candidate.")
            competes o, false)
      | .proceed winner unsafeOther =>
        if winner ≠ pr.number then
          (holdBack edits pr headSha (openToo ++ "Holding for a person: the safe candidate is not this PR. " ++
            "Close one or fold this in.") competes o, false)
        else
          (o.log edits (s!"SA unblocked PR #{pr.number}: safe subset of load-bearing #{unsafeOther}; " ++
            "routing to normal review"), true)
      | .hold why                   =>
        (holdBack edits pr headSha (openToo ++ s!"Holding for a person: {why}. Close one or fold this into " ++
          "the other.") competes o, false)

-- A second pull request for a ticket of which one was merged within a day.
def fixOnFixHold (s : ProjectState) : Option String := do
  let tid ← ticketIdIn pr.title
  let at' ← if io.lastMergeLoads then s.ticketLastMerge.get? tid else none
  let age ← io.mergeAge at'
  if age < 24 * 3600 then
    some (s!"{tid} already merged a PR {age / 3600}h ago — a second layer this fast usually means the " ++
      "first fix missed the mechanism")
  else
    none

-- What a person must look at before a merge.
def personHold (diff : String) (s : ProjectState) : Option String :=
  (needsHumanEyes diff config.maxChangedLines).or (fixOnFixHold io pr s)

def verifyPr (o : ForgeRun) : ForgeRun × Except String Unit :=
  let answer := verifyMergedResult io.verify pr.head config.flowBase
  (o.act (.verifyMergedResult pr.number answer), answer)

def landOverdue (diff : String) (age : Nat) (o : ForgeRun) : ForgeRun :=
  match personHold config io pr diff o.state with
  | some why => o.log edits s!"PR #{pr.number} past review deadline but held for a human: {why}"
  | none     =>
    match verifyPr config io pr o with
    | (o, .error why) =>
      o.log edits s!"PR #{pr.number} past review deadline, merged result failed verification: {why}"
    | (o, .ok _)      =>
      let o := o.act (.mergePr pr.number io.merge)
      match io.merge with
      | .ok _    =>
        o.log edits s!"PR #{pr.number} auto-landed after {age / 3600}h with no review (deadline)"
          |>.act (.reportHold pr.number "landed via review-deadline (never reviewed)")
          |>.save edits fun _ s => { s with prOpenHolds := s.prOpenHolds.remove pr.number }
      | .error e => o.log edits s!"merge PR #{pr.number} failed: {e.display}"

def clearSkips (o : ForgeRun) : ForgeRun :=
  o.save edits fun _ s => { s with prReviewSkips := s.prReviewSkips.remove pr.number }

-- A pull request without a verdict for so many hours is landed without a review.
def reviewDeadline (diff : String) (o : ForgeRun) : ReviewPhase :=
  let hasReview := io.anyReview.any fun r => r.number = pr.number && r.decision ≠ "parked_no_verdict"
  if config.autoMerge && pr.mergeable && config.reviewDeadlineHours > 0 && !hasReview then
    match io.prAge with
    | none     => (o, true)
    | some age =>
      if age ≥ config.reviewDeadlineHours * 3600 then
        (clearSkips edits pr (landOverdue config edits io pr diff age o), false)
      else
        (o, true)
  else
    (o, true)

def landApproved (diff : String) (o : ForgeRun) : ForgeRun :=
  match personHold config io pr diff o.state with
  | some why =>
    o.act (.commentPr pr.number
        s!"Approved, but not auto-merging: {why}. Ask a human to land this.")
      |>.act (.reportHold pr.number why)
      |>.act (.notify "human_eyes" s!"PR #{pr.number} approved but held for a human: {why}")
      |>.log edits s!"PR #{pr.number} approved but held for a human: {why}"
  | none     =>
    match verifyPr config io pr o with
    | (o, .error why) =>
      holdBack edits pr headSha (s!"Approved, but the merged result does not build/test clean: {why}. " ++
        s!"Rebase on {config.flowBase} and fix it there — nothing lands red.")
        s!"PR #{pr.number} held: merged result failed verification" o
    | (o, .ok _)      =>
      let o := o.act (.mergePr pr.number io.merge)
      match io.merge with
      | .ok _    =>
        o.save edits (fun _ s => { s with prOpenHolds := s.prOpenHolds.remove pr.number })
          |>.log edits s!"SA approved & merged PR #{pr.number}"
      | .error e => o.log edits s!"merge PR #{pr.number} failed: {e.display}"

-- A reviewer that fails so many times in a row is reported, and the pull request parked at its head.
def reviewSkipped (o : ForgeRun) : ForgeRun :=
  if config.reviewMaxSkips = 0 then
    o
  else
    let o := o.save edits fun _ s => { s with
      prReviewSkips := s.prReviewSkips.insert pr.number ((s.prReviewSkips.get? pr.number).getD 0 + 1)
    }
    let skips := if io.skipsLoad then (o.state.prReviewSkips.get? pr.number).getD 0 else 0
    if skips ≥ config.reviewMaxSkips then
      o.act (.reportHold pr.number "SA keeps failing to review this PR")
        |>.act (.notify "human_eyes" (s!"PR #{pr.number} — the SA reviewer keeps failing to render a " ++
          "verdict; it may be stalled."))
        |>.log edits s!"PR #{pr.number} surfaced: SA failed to review {config.reviewMaxSkips}+ times in a row"
        |>.act (.reportReview pr.number "parked_no_verdict" ("SA kept failing to render a verdict — " ++
          "surfaced to a human and parked at this head until new commits.") headSha)
    else
      o.log edits s!"review of PR #{pr.number} yielded no verdict (skip)"

def reviewVerdict (diff : String) (o : ForgeRun) : ForgeRun :=
  match io.verdict with
  | some (true, summary)  =>
    let o := clearSkips edits pr o
    let o := o.act (.reportReview pr.number "approve" summary headSha)
    if config.autoMerge then
      landApproved config edits io pr headSha diff o
    else
      o.log edits s!"SA approved PR #{pr.number} — awaiting your merge"
  | some (false, comment) =>
    holdBack edits pr headSha comment s!"SA requested changes on PR #{pr.number}" (clearSkips edits pr o)
  | none                  => reviewSkipped config edits io pr headSha o

-- The diff is read, and judged if it has no conflict markers.
def reviewDiff (o : ForgeRun) : ForgeRun :=
  let o := o.act (.prDiff pr.number io.diff)
  match io.diff with
  | .error _ => o
  | .ok diff =>
    if diffHasConflictMarkers diff then
      holdBack edits pr headSha ("Committed git conflict markers found in the diff — the conflict was not " ++
        "actually resolved. Fix the affected files and push again.")
        s!"SA blocked PR #{pr.number}: committed conflict markers" o
    else
      let (o, goesOn) := (reviewCompeting config edits prs io pr headSha diff o).andThen
        (reviewDeadline config edits io pr diff)
      if goesOn then reviewVerdict config edits io pr headSha diff o else o

variable (merged : List (Nat × String))

def reviewPr (o : ForgeRun) : ForgeRun :=
  if pr.base ≠ config.flowBase then
    o
  else
    let headSha := prHeadSha io.lsRemote
    let (o, goesOn) := (reviewHolds config edits merged pr io.toHoldIo headSha o).andThen
      (reviewScratch edits io pr) |>.andThen
      (reviewClaim io pr headSha) |>.andThen
      (reviewGate config edits pr headSha)
    if goesOn then reviewDiff config edits prs io pr headSha o else o

-- What the ports answer to a pass over the pull requests that are open.
structure PassIo where
  forge          : Bool                                   := true
  openPrs        : Except PortError (List PullRequest)
  recentlyMerged : Except PortError (List (Nat × String)) := .ok []
  edits          : Nat → EditIo                           := fun _ => {}
  review         : Nat → ReviewIo

def reviewBatch : Nat :=
  if config.autoMerge then 12 else 3

-- The oldest of the pull requests are reviewed. The forge lists the newest first.
def reviewOpenPrs (pass : PassIo) (o : ForgeRun) : ForgeRun :=
  if !config.enabled || !(config.autoReview || config.autoMerge) || !pass.forge then
    o
  else
    match pass.openPrs with
    | .error e => o.log pass.edits s!"review: list PRs failed: {e.display}"
    | .ok prs  =>
      if prs.all (·.base ≠ config.flowBase) then
        o
      else
        let o := o.act (.report "SA" "reviewing PRs")
        let merged := pass.recentlyMerged.toOption.getD []
        (prs.reverse.take (reviewBatch config)).zipIdx.foldl
          (fun o at' => reviewPr config pass.edits prs (pass.review at'.2) at'.1 merged o) o

-- A pass over the pull requests, or the work of others on the state between two passes.
inductive ReviewEvent
  | pass (pass : PassIo)
  | others (s' : ProjectState)

def reviewStep (s : ProjectState) : ReviewEvent → ProjectState
  | .pass pass => (reviewOpenPrs config pass { state := s }).state
  | .others s' => s'

-- The hub keeps the last review of a pull request, and no more than the reviews of so many.
def keptReviews : Nat := 50

def upsertReview (r : PrReview) (reviews : List PrReview) : List PrReview :=
  let reviews :=
    match reviews.findIdx? (·.number = r.number) with
    | some k => reviews.set k r
    | none   => reviews ++ [r]
  reviews.drop (reviews.length - keptReviews)

-- What a call leaves at the hub. A report may get lost on its way.
def reported (lost : Nat → Bool) (reviews : List PrReview) (call : ForgeCall × Nat) : List PrReview :=
  match call.1 with
  | .reportReview number decision _ headSha =>
    if lost call.2 then reviews else upsertReview { number, decision, headSha } reviews
  | _                                       => reviews

def hubAfter (lost : Nat → Bool) (reviews : List PrReview) (calls : List ForgeCall) : List PrReview :=
  calls.zipIdx.foldl (reported lost) reviews

-- The board with the reviews that the hub keeps.
structure ReviewLane where
  state   : ProjectState
  reviews : List PrReview := []

-- A pass over the pull requests, a review that another runner reports, or the work of others on the board.
inductive LaneEvent
  | pass (pass : PassIo) (lost : Nat → Bool)
  | review (r : PrReview)
  | others (s' : ProjectState)

def laneStep (config : GitConfig) (l : ReviewLane) : LaneEvent → ReviewLane
  | .pass pass lost =>
    let o := reviewOpenPrs config pass { state := l.state }
    { state := o.state, reviews := hubAfter lost l.reviews o.actions }
  | .review r       => { l with reviews := upsertReview r l.reviews }
  | .others s'      => { l with state := s' }
