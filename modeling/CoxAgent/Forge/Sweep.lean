import CoxAgent.Forge.Calls
import Mathlib.Data.List.Sort

section

-- What the ports answer to a merge that is forced.
structure ForceMergeIo where
  forge     : Bool                                     := true
  git       : Bool                                     := true
  openPrs   : Except PortError (List PullRequest)
  succeeded : Bool                                     := true
  diff      : Except PortError String
  polls     : Nat → Except PortError (List PullRequest)
  merge     : Except PortError Unit                    := .ok ()
  resolving : EditIo                                   := {}
  note      : EditIo                                   := {}

variable (io : ForceMergeIo)

def pollCount : Nat := 3

-- A pull request that is not open any more is done either way.
def pollSettles (num : Nat) : Except PortError (List PullRequest) → Bool
  | .ok prs  => (prs.find? (·.number = num)).all (·.mergeable)
  | .error _ => false

-- Whether a resolution of conflicts has worked. A diff that cannot be read does not speak against it.
def verifyConflictResolution (num : Nat) (o : ForgeRun) : ForgeRun × Except String Unit :=
  if !io.forge then
    (o, .ok ())
  else
    let o := o.act (.prDiff num io.diff)
    if io.diff.toOption.any diffHasConflictMarkers then
      (o, .error "the pushed diff still contains git conflict markers (<<<<<<< / >>>>>>>)")
    else if (List.range pollCount).any fun i => pollSettles num (io.polls i) then
      (o, .ok ())
    else
      (o, .error "GitHub still reports the branch conflicted after the fix")

def forceMergePrompt (num : Nat) (h b : String) : String :=
  s!"URGENT: a human ordered PR #{num} (branch `{h}`) force-merged. It has merge conflicts with `{b}`.\n" ++
    s!"1. `git fetch origin && git checkout {h} && git pull origin {h}`\n" ++
    s!"2. `git merge origin/{b}` and resolve EVERY conflict, preserving both this branch's fix and what " ++
    s!"already landed on {b}.\n3. Run the build/tests to make sure nothing broke.\n" ++
    s!"4. `git add -A && git commit -m \"fix: resolve conflicts for #{num}\"` then `git push origin {h}`."

variable (vi : Bool) (num : Nat) (requestedBy : String)

def sayAgents (e : EditIo) (viMsg enMsg : String) (o : ForgeRun) : ForgeRun :=
  PortRun.say o e "SA" (if vi then viMsg else enMsg)

-- The conflicts are resolved by an agent, and the resolution is verified.
def resolveConflictsForForceMerge (pr : PullRequest) (o : ForgeRun) : ForgeRun × Bool :=
  let o := sayAgents vi io.resolving
    s!"⚡ Force-merge #{num} ({requestedBy}): runner đang gỡ conflict trên `{pr.head}`…"
    s!"⚡ Force-merge #{num} ({requestedBy}): the runner is resolving conflicts on `{pr.head}`…" o
  let o := o.act (.runEngine (forceMergePrompt num pr.head pr.base))
  let o := if io.git then o.act .checkoutBase else o
  if !io.succeeded then
    (sayAgents vi io.note
      s!"⚡ Force-merge #{num}: gỡ conflict THẤT BẠI — cần xử lý tay: {pr.url}"
      s!"⚡ Force-merge #{num}: conflict resolution FAILED — needs a manual fix: {pr.url}" o, false)
  else
    match verifyConflictResolution io num o with
    | (o, .error why) => (sayAgents vi io.note
        s!"⚡ Force-merge #{num}: verification từ chối ({why}) — KHÔNG merge: {pr.url}"
        s!"⚡ Force-merge #{num}: verification refused ({why}) — NOT merging: {pr.url}" o, false)
    | (o, .ok _)      => (o, true)

-- Only the diff of a pull request with conflicts is looked at.
def forceMergeJob (o : ForgeRun) : ForgeRun :=
  if !io.forge then
    o
  else
    let o := o.act (.report "SA" s!"force-merging PR #{num} for {requestedBy}")
    match io.openPrs with
    | .error _ => o
    | .ok prs  =>
      match prs.find? (·.number = num) with
      | none    => sayAgents vi io.note
          s!"⚡ Force-merge #{num} ({requestedBy}): PR không còn mở — bỏ qua."
          s!"⚡ Force-merge #{num} ({requestedBy}): the PR is no longer open — skipping." o
      | some pr =>
        let (o, resolved) :=
          if pr.mergeable then
            (o, true)
          else
            resolveConflictsForForceMerge io vi num requestedBy pr o
        if !resolved then
          o
        else
          let o := o.act (.mergePr num io.merge)
          match io.merge with
          | .ok _    => sayAgents vi io.note
              s!"⚡ Force-merge #{num} ({requestedBy}): ✅ đã merge."
              s!"⚡ Force-merge #{num} ({requestedBy}): ✅ merged." o
          | .error e => sayAgents vi io.note
              s!"⚡ Force-merge #{num}: merge bị từ chối — {e.display}: {pr.url}"
              s!"⚡ Force-merge #{num}: the merge was refused — {e.display}: {pr.url}" o

end

-- What the ports answer to a sweep. The queue asks for one diff and one merge at each of its places.
structure SweepIo where
  openPrs : Except PortError (List PullRequest)
  loads   : Bool                               := true
  diff    : Nat → Except PortError String
  merge   : Nat → Except PortError Unit        := fun _ => .ok ()
  note    : EditIo                             := {}

structure SweepOutcome where
  merged  : List Nat            := []
  skipped : List (Nat × String) := []
deriving DecidableEq, Repr

def sweepBatch : Nat := 12

-- The oldest ones first.
def sweepQueue (target : String) (prs : List PullRequest) : List PullRequest :=
  (prs.filter (·.base = target)).insertionSort (fun a b => a.created ≤ b.created) |>.take sweepBatch

-- Why a pull request is not merged.
def sweepSkips (holds : BTreeMap Nat String) (requireCi : Bool) (pr : PullRequest) : Option String :=
  match holds.get? pr.number with
  | some reason => some s!"human hold: {reason}"
  | none        =>
    if !pr.mergeable then
      some "merge conflict"
    else if requireCi && pr.ci = "failing" then
      some "CI failing"
    else if requireCi && pr.ci = "pending" then
      some "CI pending"
    else
      none

variable (io : SweepIo) (holds : BTreeMap Nat String) (requireCi : Bool)

-- A diff that cannot be read does not keep a pull request from being merged.
def sweepPr (acc : ForgeRun × SweepOutcome) (at' : PullRequest × Nat) : ForgeRun × SweepOutcome :=
  let (o, out) := acc
  let (pr, i) := at'
  match sweepSkips holds requireCi pr with
  | some why => (o, { out with skipped := out.skipped ++ [(pr.number, why)] })
  | none     =>
    let o := o.act (.prDiff pr.number (io.diff i))
    if (io.diff i).toOption.any diffHasConflictMarkers then
      (o, { out with skipped := out.skipped ++ [(pr.number, "committed conflict markers in diff")] })
    else
      let o := o.act (.mergePr pr.number (io.merge i))
      match io.merge i with
      | .ok _    => (o, { out with merged := out.merged ++ [pr.number] })
      | .error e => (o, { out with
          skipped := out.skipped ++ [(pr.number, s!"merge refused: {e.display}")]
        })

def sweepMessage (vi : Bool) (out : SweepOutcome) : String :=
  let list := " ".intercalate (out.merged.map fun n => s!"#{n}")
  let msg :=
    if vi then
      if out.merged = [] then
        "🔀 SA merge sweep: không có PR nào đủ điều kiện merge ngay."
      else
        s!"🔀 SA merge sweep: đã merge {list}."
    else if out.merged = [] then
      "🔀 SA merge sweep: nothing was green enough to merge right now."
    else
      s!"🔀 SA merge sweep: merged {list}."
  if out.skipped = [] then
    msg
  else
    let parts := out.skipped.map fun (n, r) => s!"#{n} ({r})"
    msg ++ (if vi then " Còn lại: " else " Remaining: ") ++ ", ".intercalate parts ++
      if vi then " — conflict sẽ được DEV gỡ ở cycle tới." else " — conflicts get fixed by DEV next cycle."

-- A store that does not load is taken for one without holds.
def mergeSweep (target : String) (vi : Bool) (o : ForgeRun) : ForgeRun × SweepOutcome :=
  match io.openPrs with
  | .error _ => (o, {})
  | .ok prs  =>
    let holds := if io.loads then o.state.humanHolds else ∅
    let queue := (sweepQueue target prs).zipIdx
    let (o, out) := queue.foldl (sweepPr io holds requireCi) (o, {})
    (PortRun.say o io.note "SM" (sweepMessage vi out), out)
