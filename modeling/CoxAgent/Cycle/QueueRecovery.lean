import CoxAgent.Forge.Holds

-- What the ports answer to a call. There may be no forge, and it is asked twice for its open pull requests.
-- The obsolete ones among the second answer are closed at their places in it.
structure QueueIo where
  edits     : Nat → EditIo                                := fun _ => {}
  forge     : Bool                                        := true
  prsStatus : Except PortError (List PullRequest)         := .ok []
  prsClose  : Except PortError (List PullRequest)         := .ok []
  close     : Nat → Except PortError Unit                 := fun _ => .ok ()

-- Recovery trips at twice the limit of the queue, which normal cycles can never drain.
def recoveryThreshold (maxOpenPrs : Nat) : Nat :=
  max (maxOpenPrs * 2) 8

variable (maxOpenPrs : Nat) (vi : Bool) (io : QueueIo)

namespace PortRun

-- Below the limit recovery is over.
def declareRecovered (opened : Nat) (o : ForgeRun) : ForgeRun :=
  let msg :=
    if vi then
      s!"✅ Queue đã hồi phục — còn {opened} PR mở (limit {maxOpenPrs}). Team quay lại làm việc bình thường."
    else
      s!"✅ Merge queue recovered — {opened} open PR(s) (limit {maxOpenPrs}). Back to normal work."
  o.save io.edits fun e s =>
    if s.queueRecovery then
      { s with queueRecovery := false }.postChatIn e.mint e.now "SM" msg agentsChannel []
    else
      s

-- The pull requests that are parked get another try.
def enterRecovery (opened : Nat) (o : ForgeRun) : ForgeRun :=
  let threshold := recoveryThreshold maxOpenPrs
  let msg :=
    if vi then
      s!"🚨 RECOVERY MODE: {opened} PR đang mở (ngưỡng {threshold}). Từ giờ mỗi cycle chỉ merge + gỡ " ++
        "conflict — không code mới, không file bug mới (bug cũ chưa merge thì test lại chỉ đẻ trùng). " ++
        s!"Đóng các PR 'resolve conflict' mồ côi. Queue về dưới {maxOpenPrs} là team chạy lại bình thường."
    else
      s!"🚨 RECOVERY MODE: {opened} open PRs (threshold {threshold}). Cycles now do merge/conflict work " ++
        "only — no new code, no new bug filing. Obsolete resolver-PRs get closed. Normal work resumes " ++
        s!"under {maxOpenPrs} open PRs."
  o.save io.edits fun e s =>
    if s.queueRecovery then
      s
    else
      let s := { s with queueRecovery := true, prFixAttempts := ∅ }
      let s := s.postComment e.mint e.now "SM" msg none
      s.postChatIn e.mint e.now "SM" msg agentsChannel []

def postDrainStatus (opened : Nat) (o : ForgeRun) : ForgeRun :=
  match (if io.forge then io.prsStatus.toOption else none) with
  | none     => o
  | some prs =>
    let conflicted := prs.countP (!·.mergeable)
    let status :=
      if vi then
        s!"🔧 Recovery: còn {opened} PR mở, {conflicted} dính conflict. Luật: xử hết conflict TRƯỚC rồi " ++
          "mới design/feature mới — DEV fix 8 conflict/cycle (cũ nhất trước), SA re-review và merge ngay " ++
          "khi xanh."
      else
        s!"🔧 Recovery: {opened} open PRs, {conflicted} conflicting. Law: conflicts are cleared BEFORE any " ++
          "new design/feature work — DEV fixes 8 per cycle (oldest first), SA re-reviews and merges as " ++
          "soon as they're green."
    o.save io.edits fun e s =>
      if s.queueRecovery then
        s.postChatIn e.mint e.now "SM" status agentsChannel []
      else
        s

def closeResolver (o : ForgeRun) (at' : PullRequest × Nat) : ForgeRun :=
  let (pr, i) := at'
  let o := o.act (.closePr pr.number (io.close i))
  match io.close i with
  | .error _ => o
  | .ok _    =>
    o.save io.edits (fun _ s => { s with seenClosedPrs := s.seenClosedPrs.insert pr.number () })
      |>.log io.edits s!"recovery: closed obsolete resolver PR #{pr.number} ({pr.title})"

-- Conflicts are resolved on the branch that has them, so pull requests of their own are only noise.
def closeResolvers (o : ForgeRun) : ForgeRun :=
  match (if io.forge then io.prsClose.toOption else none) with
  | none     => o
  | some prs =>
    prs.filter (fun p => Text.contains p.title "Resolve merge conflict on PR #")
      |>.zipIdx.foldl (closeResolver io) o

end PortRun

-- Whether the cycle does merge work only. Between the limit and the threshold it does not.
def runQueueRecovery (opened : Option Nat) (o : ForgeRun) : ForgeRun × Bool :=
  match opened with
  | none        => (o, false)
  | some opened =>
    if opened < recoveryThreshold maxOpenPrs then
      (if opened ≤ maxOpenPrs then o.declareRecovered maxOpenPrs vi io opened else o, false)
    else
      let o := o.enterRecovery maxOpenPrs vi io opened
      let o := o.act (.report "SM" s!"recovery: draining {opened} open PRs")
      (o.postDrainStatus vi io opened |>.closeResolvers io, true)

-- A call with the count it observes. Before it the others change the state, but not the mode.
structure QueueCall where
  opened : Option Nat
  io     : QueueIo
  others : ProjectState → ProjectState := id
  keeps  : ∀ s, (others s).queueRecovery = s.queueRecovery := by exact fun _ => rfl

namespace QueueCall

def run (s : ProjectState) (call : QueueCall) : ForgeRun × Bool :=
  runQueueRecovery maxOpenPrs vi call.io call.opened { state := call.others s }

def step (s : ProjectState) (call : QueueCall) : ProjectState :=
  (call.run maxOpenPrs vi s).1.state

def enters (call : QueueCall) : Bool :=
  call.opened.any (recoveryThreshold maxOpenPrs ≤ ·)

def leaves (call : QueueCall) : Bool :=
  call.opened.any (· ≤ maxOpenPrs)

end QueueCall
