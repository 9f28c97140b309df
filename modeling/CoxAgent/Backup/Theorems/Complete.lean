import CoxAgent.Backup.Theorems.Capture
import CoxAgent.Lib.Sha256

namespace BackupWorkspace

variable {fromSlice : List UInt8 → Except String Value} {files later : FsWorkspaceFiles}
variable {save : WorkspaceArchive → OsPath → Except String Unit} {sha256 : ByteArray → Digest} {now : String}
variable {req : BackupRequest} {archive : WorkspaceArchive} {outcome : BackupOutcome}

-- What a backup may leave out of the state of a project, by its path below the state directory: the
-- tokens, lock and temporary files, the rolling backups and archives.
def isTransient (rel : String) : Bool :=
  let segments := rel.toList.splitOn '/'
  let name := segments.getLast?.getD []
  name == "sessions.json".toList ||
  name == "operator.token".toList ||
  name == ".state.lock".toList ||
  ".state.tmp.".toList.isPrefixOf name ||
  ".hubarchive.json".toList.isSuffixOf name ||
  segments.contains ".backups".toList

def isJson (path : String) : Bool :=
  ".json".toList.isSuffixOf path.toList

-- The archive holds the bytes under the path.
def Holds (archive : WorkspaceArchive) (path : String) (bytes : List UInt8) : Prop :=
  ∃ f ∈ archive.files, f.root = .workspace ∧ f.path = path ∧ hexDecode f.bytesHex = some bytes

def stateDir (project : HubProject) : OsPath :=
  (OsPath.ofString project.path).join "state"

-- A file below the state directory of a project, by its names from there.
def stateFile (project : HubProject) (names : List OsStr) : OsPath :=
  stateDir project ++ names.map .normal

-- The files on the disk below the state directory of a project that must not get lost.
structure Kept (files : FsWorkspaceFiles) (project : HubProject) (names : List OsStr) (bytes : List UInt8) : Prop where
  below   : names ≠ []
  content : files.disk.get ((stateDir project).place files.cwd ++ names) = some bytes
  lasting : ¬isTransient (relFrom (stateDir project) (stateFile project names))

-- Nothing is lost without a warning.
def Complete (fromSlice : List UInt8 → Except String Value) (files : FsWorkspaceFiles) (req : BackupRequest)
    (archive : WorkspaceArchive) (outcome : BackupOutcome) : Prop :=
  ∀ project ∈ projects fromSlice files req.hubDir,
    ⟨project.id, project.path⟩ ∈ outcome.warnings ∨
    ∀ names bytes, Kept files project names bytes →
      Holds archive (relFrom req.hubDir (stateFile project names)) bytes

-- The walk through the state directory gets to the file, and the list does not exclude it.
def Reached (files : FsWorkspaceFiles) (req : BackupRequest) (project : HubProject) (names : List OsStr) : Prop :=
  files.reaches ((stateDir project).place files.cwd) names ∧ ¬isExcluded (relFrom req.hubDir (stateFile project names))

-- The bytes are captured under the same path for another reason: they are those of a configuration, or of a file that
-- is another one or in another tree.
inductive Elsewhere (fromSlice : List UInt8 → Except String Value) (files later : FsWorkspaceFiles)
    (req : BackupRequest) (project : HubProject) (names : List OsStr) (bytes : List UInt8) : Prop
  | config :
    Config fromSlice files later req (relFrom req.hubDir (stateFile project names)) bytes →
    Elsewhere fromSlice files later req project names bytes
  | tree {root dir abs} :
    Tree fromSlice files req .workspace root dir →
    InTree files root dir (relFrom req.hubDir (stateFile project names)) bytes abs →
    dir ≠ stateDir project ∨ abs ≠ stateFile project names →
    Elsewhere fromSlice files later req project names bytes

-- Nothing is archived that is torn.
def Whole (fromSlice : List UInt8 → Except String Value) (archive : WorkspaceArchive) : Prop :=
  ∀ f ∈ archive.files, isJson f.path → ∀ bytes, hexDecode f.bytesHex = some bytes → (fromSlice bytes).isOk

theorem Saved.holds_iff (h : Saved fromSlice files later sha256 req archive outcome) {path : String}
    {bytes : List UInt8} :
    Holds archive path bytes ↔ Source fromSlice files later req .workspace path bytes := by
  constructor
  case mp =>
    rintro ⟨f, hf, hr, rfl, hb⟩
    obtain ⟨root, path, bytes', hs, rfl⟩ := h.mem.mp hf
    cases hr
    cases (hexDecode_hexEncode bytes').symm.trans hb
    exact hs
  case mpr =>
    intro hs
    exact ⟨_, h.mem.mpr ⟨_, _, _, hs, rfl⟩, rfl, rfl, hexDecode_hexEncode bytes⟩

theorem Saved.not_warned (h : Saved fromSlice files later sha256 req archive outcome) {project : HubProject}
    {relDir : String} (hp : Portable fromSlice files req.hubDir project relDir) :
    ⟨project.id, project.path⟩ ∉ outcome.warnings := by
  rw [h.warnings]
  intro hw
  obtain ⟨project', hm, he⟩ := List.mem_map.mp hw
  have hn := (List.mem_filter.mp hm).2
  have hpath : project'.path = project.path := congrArg BackupWarning.path he
  rw [hpath, hp.2] at hn
  contradiction

theorem Saved.warned (h : Saved fromSlice files later sha256 req archive outcome) {project : HubProject}
    (hp : project ∈ projects fromSlice files req.hubDir)
    (hr : projectRelDir req.hubDir (.ofString project.path) = none) :
    ⟨project.id, project.path⟩ ∈ outcome.warnings := by
  rw [h.warnings]
  exact List.mem_map.mpr ⟨project, List.mem_filter.mpr ⟨hp, by simp [hr]⟩, rfl⟩

-- Only a configuration is archived although the list excludes it.
theorem Source.config_of_isExcluded {path : String} {bytes : List UInt8}
    (h : Source fromSlice files later req .workspace path bytes) (hx : isExcluded path) :
    Config fromSlice files later req path bytes := by
  cases h
  case registry =>
    have : ¬isExcluded "registry.json" := by decide +kernel
    contradiction
  case hubFile hn _ =>
    have : ∀ name ∈ hubFiles, ¬isExcluded name := by decide +kernel
    exact absurd hx (this path hn)
  case config hc => exact hc
  case tree hi   => exact absurd hx hi.included

theorem Kept.listed {project : HubProject} {names : List OsStr} {bytes : List UInt8}
    (h : Kept files project names bytes) :
    stateFile project names ∈ files.listRecursive (stateDir project) ↔
      files.reaches ((stateDir project).place files.cwd) names := by
  rw [FsWorkspaceFiles.mem_listRecursive]
  constructor
  case mp  =>
    rintro ⟨names', -, -, hr, he⟩
    have hinj : Function.Injective (List.map Component.normal) :=
      List.map_injective_iff.mpr fun _ _ => Component.normal.inj
    rwa [hinj (List.append_cancel_left he)]
  case mpr => exact fun hr => ⟨names, h.below, by simp [h.content], hr, rfl⟩

theorem Kept.readable {project : HubProject} {names : List OsStr} {bytes bytes' : List UInt8}
    (h : Kept files project names bytes)
    (hb : files.readBytes (stateFile project names) = some bytes') : bytes' = bytes := by
  have hg := FsWorkspaceFiles.get_of_readBytes hb
  rw [stateFile, OsPath.place_names, h.content] at hg
  exact (Option.some.inj hg).symm

theorem stateDir_eq {project : HubProject} (hp : OsPath.ofString project.path ≠ []) :
    stateDir project = OsPath.ofString project.path ++ [.normal (.ofString "state")] := by
  have hbody : OsPath.body "state" = [.normal (.ofString "state")] := by decide +kernel
  rw [stateDir, OsPath.join, if_neg (by simp [hp]), hbody]

theorem slash_mem_intercalate {part : List Char} {parts : List (List Char)} (h : parts ≠ []) :
    '/' ∈ ['/'].intercalate (part :: parts) := by
  rw [List.intercalate_cons_of_ne_nil h]
  simp

-- A file of the state of a project is in the archive under a path of several names.
theorem Portable.slash {hubDir : OsPath} {project : HubProject} {relDir : String} {names : List OsStr}
    (hp : Portable fromSlice files hubDir project relDir) (hn : names ≠ []) :
    '/' ∈ (relFrom hubDir (stateFile project names)).toList := by
  have hrel : ¬(relFrom hubDir (.ofString project.path)).isEmpty := by
    intro he
    have h := hp.right
    rw [projectRelDir, he] at h
    contradiction
  obtain ⟨k, hk⟩ : hubDir <+: OsPath.ofString project.path := by
    unfold relFrom OsPath.stripPrefix at hrel
    split at hrel
    case h_1 h   => exact absurd rfl hrel
    case h_2 p h =>
      split at h
      case isTrue hpre => exact hpre
      case isFalse     => contradiction
  have hpath : OsPath.ofString project.path ≠ [] := by
    intro hnil
    rw [← hk, List.append_eq_nil_iff] at hnil
    rw [← hk, relFrom, OsPath.stripPrefix_append, hnil.right] at hrel
    exact hrel rfl
  obtain ⟨name, names, rfl⟩ := List.exists_cons_of_ne_nil hn
  rw [stateFile, stateDir_eq hpath, ← hk, List.append_assoc, List.append_assoc, relFrom, OsPath.stripPrefix_append,
    String.toList_ofList]
  cases k <;> exact slash_mem_intercalate (by simp)

theorem Saved.complete_iff (h : Saved fromSlice files later sha256 req archive outcome) :
    Complete fromSlice files req archive outcome ↔
      ∀ project relDir, Portable fromSlice files req.hubDir project relDir →
        ∀ names bytes, Kept files project names bytes → Reached files req project names ∨
          Elsewhere fromSlice files later req project names bytes := by
  constructor
  case mp =>
    intro hc project relDir hp names bytes hk
    have hs := h.holds_iff.mp ((hc project hp.left).resolve_left (h.not_warned hp) names bytes hk)
    have hslash := hp.slash hk.below
    generalize hpath : relFrom req.hubDir (stateFile project names) = path at hs hslash
    cases hs
    case registry       => exact absurd hslash (by decide +kernel)
    case hubFile hn _   =>
      have hnames : ∀ name ∈ hubFiles, '/' ∉ name.toList := by decide +kernel
      exact absurd hslash (hnames path hn)
    case config hc      => exact .inr (.config (hpath ▸ hc))
    case tree root dir abs htree hin =>
      subst hpath
      by_cases hown : dir = stateDir project ∧ abs = stateFile project names
      case neg => exact .inr (.tree htree hin (not_and_or.mp hown))
      case pos =>
        obtain ⟨rfl, rfl⟩ := hown
        exact .inl ⟨hk.listed.mp hin.listed, hin.included⟩
  case mpr =>
    intro hk project hp
    cases hr : projectRelDir req.hubDir (.ofString project.path)
    case none        => exact .inl (h.warned hp hr)
    case some relDir =>
      refine .inr fun names bytes hkept => h.holds_iff.mpr ?_
      cases hk project relDir ⟨hp, hr⟩ names bytes hkept
      case inl hreached   =>
        have hlisted := hkept.listed.mpr hreached.left
        obtain ⟨bytes', hb⟩ := Option.isSome_iff_exists.mp (h.readable ⟨hp, hr⟩ hlisted hreached.right)
        cases hkept.readable hb
        exact .tree (.state ⟨hp, hr⟩) ⟨hlisted, rfl, hreached.right, hb⟩
      case inr helsewhere =>
        cases helsewhere
        case config hc        => exact .config hc
        case tree htree hin _ => exact .tree htree hin

theorem Saved.whole_iff (h : Saved fromSlice files later sha256 req archive outcome) :
    Whole fromSlice archive ↔
      ∀ tag root dir path bytes abs, Tree fromSlice files req tag root dir → InTree files root dir path bytes abs →
        isJson path → (fromSlice bytes).isOk := by
  constructor
  case mp =>
    intro hw tag root dir path bytes abs ht hi hj
    exact hw _ (h.mem.mpr ⟨_, _, _, .tree ht hi, rfl⟩) hj _ (hexDecode_hexEncode bytes)
  case mpr =>
    intro ht f hf hj bytes hb
    obtain ⟨root, path, bytes', hs, rfl⟩ := h.mem.mp hf
    cases (hexDecode_hexEncode bytes').symm.trans hb
    cases hs
    case registry hr   => exact h.parsed hr
    case hubFile hc    => exact isOk_of_captureJson hc
    case config hc     =>
      obtain ⟨_, _, _, _, hc⟩ := hc
      exact isOk_of_captureJson hc
    case tree htree hi => exact ht _ _ _ _ _ _ htree hi hj

-- A backup that succeeds has lost nothing and archived nothing torn iff the walks through the state directories get
-- to every file, no file of the state of a project is on the list of exclusions because of the directories it is in,
-- and every JSON file of the trees parses, which are captured unread.
theorem backup_whole_iff (h : execute fromSlice files later save sha256 now req = .ok (archive, outcome)) :
    Complete fromSlice files req archive outcome ∧ Whole fromSlice archive ↔
      (∀ project relDir, Portable fromSlice files req.hubDir project relDir →
        ∀ names bytes, Kept files project names bytes → Reached files req project names ∨
          Elsewhere fromSlice files later req project names bytes) ∧
      ∀ tag root dir path bytes abs, Tree fromSlice files req tag root dir → InTree files root dir path bytes abs →
        isJson path → (fromSlice bytes).isOk := by
  have hs := Saved.of_execute h
  rw [hs.complete_iff, hs.whole_iff]

section Hubs

def utf8 (s : String) : List UInt8 :=
  s.toUTF8.data.toList

def fileAt (path content : String) : List OsStr × List UInt8 :=
  (OsPath.place [] (.ofString path), utf8 content)

def registryText : String := "[\x7b\"id\":\"cxa\",\"path\":\"/hub/cxa\"\x7d]"

-- What the parser makes of the files below.
def parsed (bytes : List UInt8) : Except String Value :=
  if bytes = utf8 registryText then
    .ok (.array [.object [("id", .string "cxa"), ("path", .string "/hub/cxa")]])
  else if bytes = utf8 "\x7b\x7d" then
    .ok (.object [])
  else
    .error "EOF while parsing an object at line 1 column 1"

def hubRequest : BackupRequest where
  hubDir := .ofString "/hub"
  out    := .ofString "/hub/backups/a.hubarchive.json"

def intactHub : FsWorkspaceFiles where
  cwd  := []
  disk := {
    entries := [
      fileAt "/hub/registry.json" registryText,
      fileAt "/hub/cxa/state/state.json" "\x7b\x7d",
      fileAt "/hub/cxa/state/.state.lock" ""]
    apart   := by decide +kernel }

-- The state was written halfway, and one of its directories is called like that of the archives.
def tornHub : FsWorkspaceFiles where
  cwd  := []
  disk := {
    entries := [
      fileAt "/hub/registry.json" registryText,
      fileAt "/hub/cxa/state/state.json" "\x7b",
      fileAt "/hub/cxa/state/backups/notes.md" "notes"]
    apart   := by decide +kernel }

def backupOf (hub : FsWorkspaceFiles) : Except BackupError (WorkspaceArchive × BackupOutcome) :=
  execute parsed hub hub (fun _ _ => .ok ()) Sha256.digest "2026-09-01T00:00:00Z" hubRequest

theorem exists_of_isOk {ε α : Type} {x : Except ε α} (h : x.isOk) : ∃ a, x = .ok a := by
  cases x
  case error => contradiction
  case ok a  => exact ⟨a, rfl⟩

theorem portable_cxa {hub : FsWorkspaceFiles} {project : HubProject} {relDir : String}
    (hr : projects parsed hub hubRequest.hubDir = [⟨"cxa", "/hub/cxa"⟩])
    (h : Portable parsed hub hubRequest.hubDir project relDir) :
    project = ⟨"cxa", "/hub/cxa"⟩ ∧ relDir = "cxa" := by
  have hp : project = ⟨"cxa", "/hub/cxa"⟩ := by simpa [hr] using h.1
  have hd : projectRelDir hubRequest.hubDir (.ofString "/hub/cxa") = some "cxa" := by decide +kernel
  cases hp
  exact ⟨rfl, Option.some.inj (h.2.symm.trans hd)⟩

theorem reaches_of_listed {dir names : List OsStr} (h : ∀ dir name, files.listed dir name) :
    files.reaches dir names := by
  induction names generalizing dir
  case nil                => rfl
  case cons name names hi => exact Bool.and_eq_true_iff.mpr ⟨h dir name, hi⟩

theorem backup_whole_intactHub :
    ∃ archive outcome, backupOf intactHub = .ok (archive, outcome) ∧
      Complete parsed intactHub hubRequest archive outcome ∧ Whole parsed archive := by
  have hok : (backupOf intactHub).isOk := by decide +kernel
  obtain ⟨⟨archive, outcome⟩, h⟩ := exists_of_isOk hok
  have hr : projects parsed intactHub hubRequest.hubDir = [⟨"cxa", "/hub/cxa"⟩] := by decide +kernel
  refine ⟨archive, outcome, h, (backup_whole_iff h).mpr ⟨?_, ?_⟩⟩
  · intro project relDir hp names bytes hk
    cases (portable_cxa hr hp).1
    have hreach : intactHub.reaches ((stateDir ⟨"cxa", "/hub/cxa"⟩).place intactHub.cwd) names :=
      reaches_of_listed (fun _ _ => rfl)
    have hl : ∀ abs ∈ intactHub.listRecursive (stateDir ⟨"cxa", "/hub/cxa"⟩),
        isTransient (relFrom (stateDir ⟨"cxa", "/hub/cxa"⟩) abs) ∨
        ¬isExcluded (relFrom hubRequest.hubDir abs) := by decide +kernel
    exact .inl ⟨hreach, (hl _ (hk.listed.mpr hreach)).resolve_left hk.lasting⟩
  · intro tag root dir path bytes abs ht hi _
    cases ht
    case state project relDir hp =>
      cases (portable_cxa hr hp).1
      have hl : ∀ abs ∈ intactHub.listRecursive ((OsPath.ofString "/hub/cxa").join "state"),
          isExcluded (relFrom hubRequest.hubDir abs) ∨
          (intactHub.readBytes abs).all fun bytes => (parsed bytes).isOk := by decide +kernel
      have hb := (hl abs hi.listed).resolve_left (hi.path_eq ▸ hi.included)
      simpa [hi.bytes] using hb
    case blobs =>
      have hl : intactHub.listRecursive (hubRequest.hubDir.join "blobs") = [] := by decide +kernel
      have := hi.listed
      simp [hl] at this
    case secrets hs => cases hs

-- The file in the directory is lost, and the torn one is archived.
theorem backup_not_whole :
    ∃ archive outcome, backupOf tornHub = .ok (archive, outcome) ∧
      ¬Complete parsed tornHub hubRequest archive outcome ∧ ¬Whole parsed archive := by
  have hok : (backupOf tornHub).isOk := by decide +kernel
  obtain ⟨⟨archive, outcome⟩, h⟩ := exists_of_isOk hok
  have hs := Saved.of_execute h
  have hr : projects parsed tornHub hubRequest.hubDir = [⟨"cxa", "/hub/cxa"⟩] := by decide +kernel
  have hp : Portable parsed tornHub hubRequest.hubDir ⟨"cxa", "/hub/cxa"⟩ "cxa" :=
    ⟨by simp [hr], by decide +kernel⟩
  refine ⟨archive, outcome, h, fun hc => ?_, fun hw => ?_⟩
  · have hk : Kept tornHub ⟨"cxa", "/hub/cxa"⟩ [.ofString "backups", .ofString "notes.md"] (utf8 "notes") :=
      ⟨by simp, by decide +kernel, by decide +kernel⟩
    have hpath : relFrom hubRequest.hubDir
        (stateFile ⟨"cxa", "/hub/cxa"⟩ [.ofString "backups", .ofString "notes.md"]) = "cxa/state/backups/notes.md" := by
      decide +kernel
    have hex : isExcluded "cxa/state/backups/notes.md" := by decide +kernel
    rcases hs.complete_iff.mp hc _ _ hp _ _ hk with hx | hx
    · exact absurd (hpath ▸ hex) hx.right
    · cases hx
      case config hconfig =>
        obtain ⟨project, relDir, hp', he, _⟩ := hconfig
        cases (portable_cxa hr hp').2
        exact absurd (hpath.symm.trans he) (by decide +kernel)
      case tree hin _     => exact absurd (hpath ▸ hex) hin.included
  · have hi : InTree tornHub hubRequest.hubDir ((OsPath.ofString "/hub/cxa").join "state")
        "cxa/state/state.json" (utf8 "\x7b") (.ofString "/hub/cxa/state/state.json") :=
      ⟨by decide +kernel, by decide +kernel, by decide +kernel, by decide +kernel⟩
    have := hs.whole_iff.mp hw _ _ _ _ _ _ (.state hp) hi (by decide +kernel)
    exact absurd this (by decide +kernel)

end Hubs

end BackupWorkspace
