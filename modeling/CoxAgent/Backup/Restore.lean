import CoxAgent.Backup.Capture
import CoxAgent.Lib.BTreeMap

structure RestoreRequest where
  hubDir      : OsPath
  secretsRoot : OsPath
  force       : Bool := false
  dryRun      : Bool := false

-- One planned write.
structure RestoreTarget where
  file  : ArchiveFile
  abs   : OsPath
  bytes : List UInt8
deriving DecidableEq, Repr

inductive RestoreError
  | load (e : String)
  | invalid (e : ArchiveError)
  | malformedHex (path : String)
  | running (lock : OsPath)
  | notEmpty (dir : OsPath) (existing : Nat)
  | snapshot (path : OsPath)
  | write (path snapshotDir : OsPath)
deriving DecidableEq, Repr

-- The restore is refused before it starts to write.
def RestoreError.isRefusal : RestoreError → Bool
  | load _ | invalid _ | malformedHex _ | running _ | notEmpty .. => true
  | snapshot _ | write ..                                        => false

-- A restored project whose codebase is not there.
structure RecloneHint where
  id       : String
  repo     : String
  codebase : OsPath
deriving DecidableEq, Repr

-- The numbers that the summary reports.
inductive RestoreSummary
  | dryRun (planned existing : Nat)
  | restored (planned overwritten secretsOverwritten : Nat)
deriving DecidableEq, Repr

structure RestoreOutcome where
  restored        : List String
  secretsRestored : List String
  snapshotDir     : Option OsPath
  hints           : List RecloneHint
  summary         : RestoreSummary
deriving DecidableEq, Repr

-- How a write fails. A file that is opened is emptied before it is written.
inductive WriteFault
  | refused
  | torn (written : Nat)
deriving DecidableEq, Repr

-- The machine before the call, with its directories and the files that other processes have locked.
structure RestoreHost where
  files          : FsWorkspaceFiles
  dirs           : List (List OsStr)
  held           : List OsStr → Bool := fun _ => false
  closed         : ∀ d ∈ dirs, ∀ d' ∈ d.inits, d' ∈ dirs
  above          : ∀ e ∈ files.disk.entries, ∀ d ∈ e.1.dropLast.inits, d ∈ dirs
  not_dir        : ∀ e ∈ files.disk.entries, e.1 ∉ dirs
  exists_of_held : ∀ {p}, held p → (files.disk.get p).isSome := by simp

-- The files during the call, and how many times one of them was to be written.
structure RestoreIo where
  disk   : FileTree OsStr (List UInt8)
  writes : Nat := 0

def pathStamp (rfc3339 : String) : String :=
  .ofList (rfc3339.toList.filter fun c => c.isAlphanum)

def stateLock : String := ".state.lock"

namespace RestoreWorkspace

def target (req : RestoreRequest) (f : ArchiveFile) : OsPath :=
  match f.root with
  | .workspace => req.hubDir.join f.path
  | .secrets   => req.secretsRoot.join f.path

def planTarget (req : RestoreRequest) (f : ArchiveFile) : Except RestoreError RestoreTarget :=
  match hexDecode f.bytesHex with
  | none       => .error (.malformedHex f.path)
  | some bytes => .ok { file := f, abs := target req f, bytes }

def planTargets (req : RestoreRequest) (archive : WorkspaceArchive) : Except RestoreError (List RestoreTarget) :=
  archive.files.mapM (planTarget req)

-- The locks of the directories named `state` above a file.
def locksAbove (abs : OsPath) : List OsPath :=
  (abs.ancestors.filter (·.fileName = some (.ofString "state"))).map (·.join stateLock)

def locks (plan : List RestoreTarget) : BTreeSet OsPath :=
  (plan.filter (·.file.root = .workspace)).foldl
    (fun set t => (locksAbove t.abs).foldl (fun set lock => set.insert lock ()) set) ∅

-- `git.repo` of a configuration that parses, the hash function, the time of the call, the machine and
-- the writes that fail.
variable (gitRepo : String → Option String) (sha256 : ByteArray → Digest) (now : String)
variable (host : RestoreHost) (faults : Nat → Option WriteFault)

def filesOn (disk : FileTree OsStr (List UInt8)) : FsWorkspaceFiles :=
  { host.files with disk }

-- The lock file is created if its directory is there. A lock file that is new is not locked.
def probeLocked (disk : FileTree OsStr (List UInt8)) (lock : OsPath) : Bool × FileTree OsStr (List UInt8) :=
  let place := lock.place host.files.cwd
  if place ∈ host.dirs then
    (false, disk)
  else if (disk.get place).isSome then
    (host.held place, disk)
  else if place.dropLast ∈ host.dirs then
    (false, (disk.put place []).getD disk)
  else
    (false, disk)

def refuseRunningHub (disk : FileTree OsStr (List UInt8)) :
    List OsPath → Except RestoreError Unit × FileTree OsStr (List UInt8)
  | []           => (.ok (), disk)
  | lock :: rest =>
    if (probeLocked host disk lock).1 then
      (.error (.running lock), (probeLocked host disk lock).2)
    else
      refuseRunningHub (probeLocked host disk lock).2 rest

-- What the list excludes does not count.
def existingTargets (files : FsWorkspaceFiles) (hubDir : OsPath) : List String :=
  ((files.listRecursive hubDir).map (relFrom hubDir)).filter fun rel => !rel.isEmpty && !isExcluded rel

-- A file cannot take the place of a directory.
def land (io : RestoreIo) (abs : OsPath) (bytes : List UInt8) : Option (FileTree OsStr (List UInt8)) :=
  if abs.place host.files.cwd ∈ host.dirs then none else io.disk.put (abs.place host.files.cwd) bytes

def writeBytes (io : RestoreIo) (abs : OsPath) (bytes : List UInt8) : Bool × RestoreIo :=
  let done (disk : Option (FileTree OsStr (List UInt8))) : RestoreIo := ⟨disk.getD io.disk, io.writes + 1⟩
  match faults io.writes with
  | none           => ((land host io abs bytes).isSome, done (land host io abs bytes))
  | some .refused  => (false, done none)
  | some (.torn n) => (false, done (land host io abs (bytes.take n)))

structure Overwritten where
  snapshotted : Nat := 0
  secrets     : Nat := 0

def snapshotPath (snapshotDir : OsPath) (f : ArchiveFile) : OsPath :=
  (snapshotDir.join f.root.tag).join f.path

-- Secrets are counted, but no copy of them is made.
def snapshotOverwritten (snapshotDir : OsPath) (n : Overwritten) (io : RestoreIo) :
    List RestoreTarget → Except RestoreError Overwritten × RestoreIo
  | []        => (.ok n, io)
  | t :: rest =>
    match (filesOn host io.disk).readBytes t.abs with
    | none     => snapshotOverwritten snapshotDir n io rest
    | some old =>
      if t.file.root = .secrets then
        snapshotOverwritten snapshotDir { n with secrets := n.secrets + 1 } io rest
      else
        let written := writeBytes host faults io (snapshotPath snapshotDir t.file) old
        if written.1 then
          snapshotOverwritten snapshotDir { n with snapshotted := n.snapshotted + 1 } written.2 rest
        else
          (.error (.snapshot (snapshotPath snapshotDir t.file)), written.2)

def writePlan (snapshotDir : OsPath) (io : RestoreIo) :
    List RestoreTarget → Except RestoreError Unit × RestoreIo
  | []        => (.ok (), io)
  | t :: rest =>
    let written := writeBytes host faults io t.abs t.bytes
    if written.1 then
      writePlan snapshotDir written.2 rest
    else
      (.error (.write t.abs snapshotDir), written.2)

def recloneHint (disk : FileTree OsStr (List UInt8)) (t : RestoreTarget) : Option RecloneHint := do
  guard (t.file.root = .workspace ∧ "/coxagent.json".toList.isSuffixOf t.file.path.toList)
  let text ← String.fromUTF8? ⟨t.bytes.toArray⟩
  let repo ← gitRepo text
  guard (!repo.isEmpty)
  let dir : OsPath := t.abs.dropLast
  let codebase := dir.join "codebase"
  guard ((filesOn host disk).listRecursive codebase).isEmpty
  return { id := (dir.fileName.map OsStr.toStringLossy).getD "", repo, codebase }

def recloneHints (disk : FileTree OsStr (List UInt8)) (plan : List RestoreTarget) : List RecloneHint :=
  plan.filterMap (recloneHint gitRepo host disk)

-- The paths of the plan with their root.
def restoredTo (root : ArchiveRoot) (plan : List RestoreTarget) : List String :=
  (plan.filter (·.file.root = root)).map fun t => root.tag ++ "/" ++ t.file.path

def snapshotDirOf (req : RestoreRequest) : OsPath :=
  req.hubDir.join (".pre-restore-" ++ pathStamp now)

-- The part that writes.
def overwrite (req : RestoreRequest) (plan : List RestoreTarget) (disk : FileTree OsStr (List UInt8)) :
    Except RestoreError RestoreOutcome × FileTree OsStr (List UInt8) :=
  let snapshotDir := snapshotDirOf now req
  let snapshot := snapshotOverwritten host faults snapshotDir {} { disk } plan
  match snapshot.1 with
  | .error e => (.error e, snapshot.2.disk)
  | .ok n    =>
    let written := writePlan host faults snapshotDir snapshot.2 plan
    match written.1 with
    | .error e => (.error e, written.2.disk)
    | .ok ()   =>
      (.ok {
        restored        := restoredTo .workspace plan
        secretsRestored := restoredTo .secrets plan
        snapshotDir     := if n.snapshotted > 0 then some snapshotDir else none
        hints           := recloneHints gitRepo host written.2.disk plan
        summary         := .restored plan.length n.snapshotted n.secrets }, written.2.disk)

-- The checks of a plan, and then the part that writes.
def run (req : RestoreRequest) (plan : List RestoreTarget) :
    Except RestoreError RestoreOutcome × FileTree OsStr (List UInt8) :=
  let probed := refuseRunningHub host host.files.disk (locks plan).keys
  match probed.1 with
  | .error e => (.error e, probed.2)
  | .ok ()   =>
    let existing := existingTargets (filesOn host probed.2) req.hubDir
    if !existing.isEmpty && !req.force then
      (.error (.notEmpty req.hubDir existing.length), probed.2)
    else if req.dryRun then
      (.ok {
        restored        := []
        secretsRestored := []
        snapshotDir     := none
        hints           := recloneHints gitRepo host probed.2 plan
        summary         := .dryRun plan.length existing.length }, probed.2)
    else
      overwrite gitRepo now host faults req plan probed.2

-- The plan for an archive that passes the checks that come first.
def checked (req : RestoreRequest) (load : Except String WorkspaceArchive) :
    Except RestoreError (List RestoreTarget) := do
  let archive ← load.mapError .load
  (validateArchive sha256 archive).mapError .invalid
  planTargets req archive

def execute (req : RestoreRequest) (load : Except String WorkspaceArchive) :
    Except RestoreError RestoreOutcome × FileTree OsStr (List UInt8) :=
  match checked sha256 req load with
  | .error e => (.error e, host.files.disk)
  | .ok plan => run gitRepo now host faults req plan

end RestoreWorkspace
