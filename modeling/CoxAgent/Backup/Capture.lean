import CoxAgent.Backup.Archive
import CoxAgent.Lib.FileTree
import CoxAgent.Lib.OsPath
import Mathlib.Data.List.Sort
import Mathlib.Data.String.Basic

-- `serde_json::Value`.
inductive Value
  | null
  | bool (b : Bool)
  | number (text : String)
  | string (text : String)
  | array (items : List Value)
  | object (fields : List (String × Value))

namespace Value

def get (v : Value) (key : String) : Option Value :=
  match v with
  | object fields => fields.lookup key
  | _             => none

def asStr : Value → Option String
  | string text => some text
  | _           => none

end Value

-- The files of a machine with the bytes that they hold. Some may be there and yet not be readable, and a listing
-- of a directory may not get as far as one of its entries.
structure FsWorkspaceFiles where
  cwd    : List OsStr
  disk   : FileTree OsStr (List UInt8)
  denied : List OsStr → Bool         := fun _ => false
  listed : List OsStr → OsStr → Bool := fun _ _ => true

namespace FsWorkspaceFiles

def readBytes (w : FsWorkspaceFiles) (path : OsPath) : Option (List UInt8) :=
  if w.denied (path.place w.cwd) then none else w.disk.get (path.place w.cwd)

def read (w : FsWorkspaceFiles) (path : OsPath) : Option String := do
  let bytes ← w.readBytes path
  String.fromUTF8? ⟨bytes.toArray⟩

-- Every listing on the way from a directory gets to the next name.
def reaches (w : FsWorkspaceFiles) (dir : List OsStr) : List OsStr → Bool
  | []            => true
  | name :: names => w.listed dir name && w.reaches (dir ++ [name]) names

-- A directory that cannot be opened is skipped, and so is the rest of one whose listing breaks off.
def listRecursive (w : FsWorkspaceFiles) (dir : OsPath) : List OsPath :=
  ((w.disk.below (dir.place w.cwd)).filter (w.reaches (dir.place w.cwd))).map fun names => dir ++ names.map .normal

theorem get_of_readBytes {w : FsWorkspaceFiles} {path : OsPath} {bytes : List UInt8}
    (h : w.readBytes path = some bytes) : w.disk.get (path.place w.cwd) = some bytes := by
  unfold readBytes at h
  split at h
  case isTrue  => contradiction
  case isFalse => exact h

theorem mem_listRecursive {w : FsWorkspaceFiles} {dir abs : OsPath} :
    abs ∈ w.listRecursive dir ↔
      ∃ names, names ≠ [] ∧ (w.disk.get (dir.place w.cwd ++ names)).isSome ∧
        w.reaches (dir.place w.cwd) names ∧ abs = dir ++ names.map .normal := by
  simp only [listRecursive, List.mem_map, List.mem_filter, FileTree.mem_below, and_assoc]
  simp only [eq_comm]

end FsWorkspaceFiles

-- One path as forward-slash text relative to `root`. A path that is not below has the empty text.
def relFrom (root path : OsPath) : String :=
  match path.stripPrefix root with
  | none   => ""
  | some p => .ofList (['/'].intercalate (p.map (·.asOsStr.toStringLossy.toList)))

-- The list decides what a backup skips and what the check for an empty target ignores.
def isExcluded (rel : String) : Bool :=
  let segments := rel.toList.splitOn '/'
  let name := segments.getLast?.getD []
  name == "sessions.json".toList ||
  name == "operator.token".toList ||
  name == ".state.lock".toList ||
  ".state.tmp.".toList.isPrefixOf name ||
  ".hubarchive.json".toList.isSuffixOf name ||
  segments.contains ".backups".toList ||
  segments.any fun s => ".pre-restore-".toList.isPrefixOf s || s == "backups".toList

-- An entry of the registry of the hub.
structure HubProject where
  id   : String
  path : String
deriving DecidableEq, Repr

inductive RegistryError
  | json (e : String)
  | noSequence
  | noId
  | noPath (id : String)
deriving DecidableEq, Repr

inductive BackupError
  | noRegistry (path : OsPath)
  | badRegistry (e : RegistryError)
  | tornJson (path : OsPath)
  | unreadable (path : OsPath)
  | save (e : String)
deriving DecidableEq, Repr

structure BackupRequest where
  hubDir      : OsPath
  out         : OsPath
  secretsRoot : Option OsPath := none

-- A project that is skipped.
structure BackupWarning where
  id   : String
  path : String
deriving DecidableEq, Repr

structure BackupOutcome where
  archivePath     : OsPath
  manifest        : ArchiveManifest
  captured        : List String
  secretStatement : String
  warnings        : List BackupWarning

-- A file as it is captured, by its path in the archive.
abbrev CapturedFile := String × List UInt8

def secretStatement (deploySecrets : SecretChoice) : String :=
  let secrets := match deploySecrets with
    | .excluded => "EXCLUDED (pass --include-secrets to capture them)"
    | .included => "INCLUDED (plaintext; the archive file is owner-only 0600)"
  "secret policy: session tokens EXCLUDED (sessions.json and operator.token are never " ++
  "archived — live bearer material); auth.json included (salted credential hashes only); " ++
  "coordination.json included verbatim (may carry DSN credentials — prefer $\x7bVAR\x7d " ++
  "placeholders); deploy secrets " ++ secrets

-- A project has a place in the archive only when it lives under the hub directory.
def projectRelDir (hubDir project : OsPath) : Option String :=
  let rel := relFrom hubDir project
  if rel.isEmpty then none else some rel

def parseRegistry.entry (e : Value) : Except RegistryError HubProject :=
  match (e.get "id").bind Value.asStr with
  | none    => .error .noId
  | some id =>
    match (e.get "path").bind Value.asStr with
    | none      => .error (.noPath id)
    | some path => .ok { id, path }

namespace BackupWorkspace

-- `serde_json::from_slice`, the files as they are read at first and as they are when one is read
-- again, the archive store, the hash function and the time.
variable (fromSlice : List UInt8 → Except String Value) (files later : FsWorkspaceFiles)
variable (save : WorkspaceArchive → OsPath → Except String Unit) (sha256 : ByteArray → Digest) (now : String)

def parseRegistry (text : String) : Except RegistryError (List HubProject) :=
  match fromSlice text.toUTF8.data.toList with
  | .error e             => .error (.json e)
  | .ok (.array entries) => entries.mapM parseRegistry.entry
  | .ok _                => .error .noSequence

-- A file that does not parse is read a second time.
def captureJson (abs : OsPath) : Except BackupError (Option (List UInt8)) :=
  match files.readBytes abs with
  | none       => .ok none
  | some bytes =>
    if (fromSlice bytes).isOk then
      .ok (some bytes)
    else
      match (later.readBytes abs).filter fun bytes => (fromSlice bytes).isOk with
      | some bytes => .ok (some bytes)
      | none       => .error (.tornJson abs)

def captureFile (abs : OsPath) : Except BackupError (List UInt8) :=
  match files.readBytes abs with
  | some bytes => .ok bytes
  | none       => .error (.unreadable abs)

structure Registry where
  file     : CapturedFile
  projects : List HubProject

def readRegistry (hubDir : OsPath) : Except BackupError Registry :=
  match files.read (hubDir.join "registry.json") with
  | none      => .error (.noRegistry (hubDir.join "registry.json"))
  | some text =>
    match parseRegistry fromSlice text with
    | .error e     => .error (.badRegistry e)
    | .ok projects => .ok { file := ("registry.json", text.toUTF8.data.toList), projects }

-- The files of a tree that the list does not exclude.
def captureTree (root : OsPath) : List OsPath → Except BackupError (List CapturedFile)
  | []          => .ok []
  | abs :: rest =>
    if isExcluded (relFrom root abs) then
      captureTree root rest
    else do
      let bytes ← captureFile files abs
      let captured ← captureTree root rest
      return (relFrom root abs, bytes) :: captured

def hubFiles : List String :=
  ["coordination.json", "auth.json", "system_chat.json", "workspace.json"]

-- A file that is captured under the given path if it is there.
def captureAs (rel : String) (abs : OsPath) : Except BackupError (List CapturedFile) := do
  let bytes ← captureJson fromSlice files later abs
  return bytes.toList.map (rel, ·)

def captureHubFiles (hubDir : OsPath) : List String → Except BackupError (List CapturedFile)
  | []           => .ok []
  | name :: rest => do
    let file ← captureAs fromSlice files later name (hubDir.join name)
    let captured ← captureHubFiles hubDir rest
    return file ++ captured

-- The configuration of a project and the tree of its state.
def captureProject (hubDir : OsPath) (relDir : String) (project : HubProject) :
    Except BackupError (List CapturedFile) := do
  let path := OsPath.ofString project.path
  let config ← captureAs fromSlice files later (relDir ++ "/coxagent.json") (path.join "coxagent.json")
  let state ← captureTree files hubDir (files.listRecursive (path.join "state"))
  return config ++ state

def captureRegistered (hubDir : OsPath) (project : HubProject) : Except BackupError (List CapturedFile) :=
  match projectRelDir hubDir (.ofString project.path) with
  | none        => .ok []
  | some relDir => captureProject fromSlice files later hubDir relDir project

def captureProjects (hubDir : OsPath) : List HubProject → Except BackupError (List CapturedFile)
  | []              => .ok []
  | project :: rest => do
    let captured ← captureRegistered fromSlice files later hubDir project
    let captured' ← captureProjects hubDir rest
    return captured ++ captured'

def warnings (hubDir : OsPath) (projects : List HubProject) : List BackupWarning :=
  (projects.filter fun p => (projectRelDir hubDir (.ofString p.path)).isNone).map fun p => ⟨p.id, p.path⟩

def captureSecrets : Option OsPath → Except BackupError (List CapturedFile)
  | none      => .ok []
  | some root => captureTree files root (files.listRecursive root)

def sealFile (root : ArchiveRoot) (f : CapturedFile) : ArchiveFile where
  root     := root
  path     := f.1
  bytesHex := hexEncode f.2
  sha256   := sha256Hex sha256 f.2

-- The order of the archive.
def FileLe (a b : ArchiveFile) : Prop :=
  a.root.tag < b.root.tag ∨ a.root.tag = b.root.tag ∧ a.path ≤ b.path

instance : DecidableRel FileLe := fun a b =>
  inferInstanceAs (Decidable (a.root.tag < b.root.tag ∨ a.root.tag = b.root.tag ∧ a.path ≤ b.path))

def archiveOf (workspace secrets : List CapturedFile) : WorkspaceArchive :=
  let sealed := workspace.map (sealFile sha256 .workspace) ++ secrets.map (sealFile sha256 .secrets)
  let files := sealed.insertionSort FileLe
  { files
    manifest := {
      archiveSchema := archiveSchemaVersion
      createdAt     := now
      fileCount     := files.length
      totalBytes    := files.foldl (fun n f => n + f.bytesHex.utf8ByteSize / 2) 0
      sha256        := archiveSha256 sha256 files
      sessionTokens := .excluded
      deploySecrets := if secrets.isEmpty then .excluded else .included } }

def execute (req : BackupRequest) : Except BackupError (WorkspaceArchive × BackupOutcome) := do
  let registry ← readRegistry fromSlice files req.hubDir
  let hub ← captureHubFiles fromSlice files later req.hubDir hubFiles
  let projects ← captureProjects fromSlice files later req.hubDir registry.projects
  let blobs ← captureTree files req.hubDir (files.listRecursive (req.hubDir.join "blobs"))
  let secrets ← captureSecrets files req.secretsRoot
  let archive := archiveOf sha256 now (registry.file :: (hub ++ projects ++ blobs)) secrets
  (save archive req.out).mapError .save
  return (archive, {
    archivePath     := req.out
    manifest        := archive.manifest
    captured        := archive.files.map fun f => f.root.tag ++ "/" ++ f.path
    secretStatement := secretStatement archive.manifest.deploySecrets
    warnings        := warnings req.hubDir registry.projects })

end BackupWorkspace
