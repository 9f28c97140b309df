import CoxAgent.Backup.Capture
import CoxAgent.Lib.Except

namespace BackupWorkspace

variable {fromSlice : List UInt8 → Except String Value} {files later : FsWorkspaceFiles}
variable {save : WorkspaceArchive → OsPath → Except String Unit} {sha256 : ByteArray → Digest} {now : String}

section Defs

variable (fromSlice) (files later)

def projects (hubDir : OsPath) : List HubProject :=
  match readRegistry fromSlice files hubDir with
  | .ok registry => registry.projects
  | .error _     => []

-- The project has a place in the archive.
def Portable (hubDir : OsPath) (project : HubProject) (relDir : String) : Prop :=
  project ∈ projects fromSlice files hubDir ∧ projectRelDir hubDir (.ofString project.path) = some relDir

-- The trees that are captured, and the directories that the paths of their files are relative to.
inductive Tree (req : BackupRequest) : ArchiveRoot → OsPath → OsPath → Prop
  | state {project relDir} :
    Portable fromSlice files req.hubDir project relDir →
    Tree req .workspace req.hubDir ((OsPath.ofString project.path).join "state")
  | blobs : Tree req .workspace req.hubDir (req.hubDir.join "blobs")
  | secrets {dir} : req.secretsRoot = some dir → Tree req .secrets dir dir

-- A file of a tree that is captured.
structure InTree (root dir : OsPath) (path : String) (bytes : List UInt8) (abs : OsPath) : Prop where
  listed   : abs ∈ files.listRecursive dir
  path_eq  : path = relFrom root abs
  included : ¬isExcluded path
  bytes    : files.readBytes abs = some bytes

-- The configuration of a project with a place in the archive.
def Config (req : BackupRequest) (path : String) (bytes : List UInt8) : Prop :=
  ∃ project relDir, Portable fromSlice files req.hubDir project relDir ∧ path = relDir ++ "/coxagent.json" ∧
    captureJson fromSlice files later ((OsPath.ofString project.path).join "coxagent.json") = .ok (some bytes)

-- The files of the machine that a backup captures, by their paths in the archive.
inductive Source (req : BackupRequest) : ArchiveRoot → String → List UInt8 → Prop
  | registry {text} :
    files.read (req.hubDir.join "registry.json") = some text →
    Source req .workspace "registry.json" text.toUTF8.data.toList
  | hubFile {name bytes} :
    name ∈ hubFiles →
    captureJson fromSlice files later (req.hubDir.join name) = .ok (some bytes) →
    Source req .workspace name bytes
  | config {path bytes} :
    Config fromSlice files later req path bytes →
    Source req .workspace path bytes
  | tree {tag root dir path bytes abs} :
    Tree fromSlice files req tag root dir →
    InTree files root dir path bytes abs →
    Source req tag path bytes

end Defs

theorem captureFile_ok {abs : OsPath} {bytes : List UInt8} :
    captureFile files abs = .ok bytes ↔ files.readBytes abs = some bytes := by
  unfold captureFile
  split
  case h_1 h => simp [h]
  case h_2 h => simp [h]

-- What passes has been parsed.
theorem isOk_of_captureJson {abs : OsPath} {bytes : List UInt8}
    (h : captureJson fromSlice files later abs = .ok (some bytes)) : (fromSlice bytes).isOk := by
  unfold captureJson at h
  split at h
  case h_1 => cases h
  case h_2 =>
    split at h
    case isTrue hp =>
      cases h
      exact hp
    case isFalse =>
      split at h
      case h_1 hf =>
        cases h
        exact (Option.filter_eq_some_iff.mp hf).2
      case h_2 => cases h

theorem mem_captureTree_paths {root : OsPath} {paths : List OsPath} {out : List CapturedFile}
    {f : CapturedFile} (h : captureTree files root paths = .ok out) :
    f ∈ out ↔ ∃ abs ∈ paths, f.1 = relFrom root abs ∧ ¬isExcluded f.1 ∧ files.readBytes abs = some f.2 := by
  induction paths generalizing out
  case nil =>
    cases h
    simp
  case cons abs rest hi =>
    unfold captureTree at h
    split at h
    case isTrue he =>
      simp only [List.mem_cons, exists_eq_or_imp, hi h]
      refine (or_iff_right ?_).symm
      rintro ⟨hp, hx, _⟩
      rw [hp] at hx
      contradiction
    case isFalse he =>
      obtain ⟨bytes, hb, h⟩ := Except.bind_eq_ok.mp h
      obtain ⟨captured, hc, h⟩ := Except.bind_eq_ok.mp h
      cases h
      have hb := captureFile_ok.mp hb
      simp only [List.mem_cons, exists_eq_or_imp, hi hc]
      apply or_congr_left
      constructor
      case mp =>
        rintro rfl
        exact ⟨rfl, he, hb⟩
      case mpr =>
        rintro ⟨hp, _, hf⟩
        exact Prod.ext hp (Option.some.inj (hf.symm.trans hb))

-- A file that cannot be read fails the capture.
theorem readable_of_captureTree {root abs : OsPath} {paths : List OsPath} {out : List CapturedFile}
    (h : captureTree files root paths = .ok out) (hm : abs ∈ paths) (hx : ¬isExcluded (relFrom root abs)) :
    (files.readBytes abs).isSome := by
  induction paths generalizing out
  case nil => contradiction
  case cons abs' rest hi =>
    unfold captureTree at h
    split at h
    case isTrue he =>
      rcases List.mem_cons.mp hm with rfl | hm
      · contradiction
      · exact hi h hm
    case isFalse he =>
      obtain ⟨bytes, hb, h⟩ := Except.bind_eq_ok.mp h
      obtain ⟨captured, hc, h⟩ := Except.bind_eq_ok.mp h
      rcases List.mem_cons.mp hm with rfl | hm
      · rw [captureFile_ok.mp hb]
        rfl
      · exact hi hc hm

theorem readable_of_captureProjects {hubDir abs : OsPath} {projects : List HubProject} {project : HubProject}
    {relDir : String} {out : List CapturedFile}
    (h : captureProjects fromSlice files later hubDir projects = .ok out) (hp : project ∈ projects)
    (hr : projectRelDir hubDir (.ofString project.path) = some relDir)
    (hm : abs ∈ files.listRecursive ((OsPath.ofString project.path).join "state"))
    (hx : ¬isExcluded (relFrom hubDir abs)) : (files.readBytes abs).isSome := by
  induction projects generalizing out
  case nil => contradiction
  case cons project' rest hi =>
    obtain ⟨captured, hc, h⟩ := Except.bind_eq_ok.mp h
    obtain ⟨captured', hc', h⟩ := Except.bind_eq_ok.mp h
    rcases List.mem_cons.mp hp with rfl | hp
    · simp only [captureRegistered, hr] at hc
      obtain ⟨_, _, hc⟩ := Except.bind_eq_ok.mp hc
      obtain ⟨_, hs, _⟩ := Except.bind_eq_ok.mp hc
      exact readable_of_captureTree hs hm hx
    · exact hi hc' hp

theorem mem_captureTree {root dir : OsPath} {out : List CapturedFile} {f : CapturedFile}
    (h : captureTree files root (files.listRecursive dir) = .ok out) :
    f ∈ out ↔ ∃ abs, InTree files root dir f.1 f.2 abs := by
  rw [mem_captureTree_paths h]
  constructor
  case mp =>
    rintro ⟨abs, hm, hp, hx, hb⟩
    exact ⟨abs, hm, hp, hx, hb⟩
  case mpr =>
    rintro ⟨abs, hm, hp, hx, hb⟩
    exact ⟨abs, hm, hp, hx, hb⟩

theorem mem_captureAs {rel : String} {abs : OsPath} {out : List CapturedFile} {f : CapturedFile}
    (h : captureAs fromSlice files later rel abs = .ok out) :
    f ∈ out ↔ f.1 = rel ∧ captureJson fromSlice files later abs = .ok (some f.2) := by
  obtain ⟨bytes, hb, h⟩ := Except.bind_eq_ok.mp h
  cases h
  rw [hb]
  cases bytes
  case none => simp
  case some bytes =>
    simp only [Option.toList_some, List.map_cons, List.map_nil, List.mem_singleton, Except.ok.injEq,
      Option.some.injEq]
    constructor
    case mp =>
      rintro rfl
      exact ⟨rfl, rfl⟩
    case mpr =>
      rintro ⟨hp, hb⟩
      exact Prod.ext hp hb.symm

theorem mem_captureHubFiles {hubDir : OsPath} {names : List String} {out : List CapturedFile} {f : CapturedFile}
    (h : captureHubFiles fromSlice files later hubDir names = .ok out) :
    f ∈ out ↔ f.1 ∈ names ∧ captureJson fromSlice files later (hubDir.join f.1) = .ok (some f.2) := by
  induction names generalizing out
  case nil =>
    cases h
    simp
  case cons name rest hi =>
    obtain ⟨file, hf, h⟩ := Except.bind_eq_ok.mp h
    obtain ⟨captured, hc, h⟩ := Except.bind_eq_ok.mp h
    cases h
    rw [List.mem_append, mem_captureAs hf, hi hc, List.mem_cons]
    constructor
    case mp =>
      rintro (⟨rfl, hb⟩ | ⟨hm, hb⟩)
      · exact ⟨.inl rfl, hb⟩
      · exact ⟨.inr hm, hb⟩
    case mpr =>
      rintro ⟨hp | hm, hb⟩
      · exact .inl ⟨hp, hp ▸ hb⟩
      · exact .inr ⟨hm, hb⟩

-- What is captured of one project.
def OfProject (fromSlice : List UInt8 → Except String Value) (files later : FsWorkspaceFiles)
    (hubDir : OsPath) (relDir : String) (project : HubProject) (f : CapturedFile) : Prop :=
  (f.1 = relDir ++ "/coxagent.json" ∧
    captureJson fromSlice files later ((OsPath.ofString project.path).join "coxagent.json") = .ok (some f.2)) ∨
  ∃ abs, InTree files hubDir ((OsPath.ofString project.path).join "state") f.1 f.2 abs

theorem mem_captureProject {hubDir : OsPath} {relDir : String} {project : HubProject}
    {out : List CapturedFile} {f : CapturedFile}
    (h : captureProject fromSlice files later hubDir relDir project = .ok out) :
    f ∈ out ↔ OfProject fromSlice files later hubDir relDir project f := by
  obtain ⟨config, hc, h⟩ := Except.bind_eq_ok.mp h
  obtain ⟨state, hs, h⟩ := Except.bind_eq_ok.mp h
  cases h
  rw [List.mem_append, mem_captureAs hc, mem_captureTree hs]
  rfl

theorem mem_captureProjects {hubDir : OsPath} {projects : List HubProject} {out : List CapturedFile}
    {f : CapturedFile} (h : captureProjects fromSlice files later hubDir projects = .ok out) :
    f ∈ out ↔ ∃ project ∈ projects, ∃ relDir, projectRelDir hubDir (.ofString project.path) = some relDir ∧
      OfProject fromSlice files later hubDir relDir project f := by
  induction projects generalizing out
  case nil =>
    cases h
    simp
  case cons project rest hi =>
    obtain ⟨captured, hc, h⟩ := Except.bind_eq_ok.mp h
    obtain ⟨captured', hc', h⟩ := Except.bind_eq_ok.mp h
    cases h
    simp only [List.mem_append, List.mem_cons, exists_eq_or_imp, hi hc']
    apply or_congr_left
    unfold captureRegistered at hc
    split at hc
    case h_1 hr =>
      cases hc
      simp [hr]
    case h_2 relDir hr =>
      rw [mem_captureProject hc]
      simp [hr]

theorem mem_archiveOf {workspace secrets : List CapturedFile} {f : ArchiveFile} :
    f ∈ (archiveOf sha256 now workspace secrets).files ↔
      (∃ c ∈ workspace, f = sealFile sha256 .workspace c) ∨ ∃ c ∈ secrets, f = sealFile sha256 .secrets c := by
  simp only [archiveOf, List.mem_insertionSort, List.mem_append, List.mem_map]
  simp only [eq_comm]

-- The seals match, so that only the paths can be refused.
theorem validate_archiveOf {workspace secrets : List CapturedFile} :
    validateArchive sha256 (archiveOf sha256 now workspace secrets) = .ok () ↔
      ∀ f ∈ (archiveOf sha256 now workspace secrets).files, isSafeArchivePath f.path := by
  rw [validateArchive_ok]
  constructor
  case mp =>
    rintro ⟨_, _, hi⟩ f hf
    obtain ⟨_, hi⟩ := hi f hf
    exact hi.path
  case mpr =>
    intro hsafe
    refine ⟨le_rfl, rfl, fun f hf => ?_⟩
    have hs : ∃ root c, f = sealFile sha256 root c := by
      rcases mem_archiveOf.mp hf with ⟨c, _, hc⟩ | ⟨c, _, hc⟩
      · exact ⟨_, c, hc⟩
      · exact ⟨_, c, hc⟩
    obtain ⟨root, c, rfl⟩ := hs
    exact ⟨c.2, hsafe _ hf, hexDecode_hexEncode c.2, rfl⟩

theorem readRegistry_ok {hubDir : OsPath} {registry : Registry}
    (h : readRegistry fromSlice files hubDir = .ok registry) :
    projects fromSlice files hubDir = registry.projects ∧
    ∃ text, files.read (hubDir.join "registry.json") = some text ∧
      registry.file = ("registry.json", text.toUTF8.data.toList) ∧ (fromSlice text.toUTF8.data.toList).isOk := by
  refine ⟨by simp [projects, h], ?_⟩
  unfold readRegistry at h
  split at h
  case h_1 => cases h
  case h_2 text ht =>
    split at h
    case h_1 => cases h
    case h_2 hp =>
      cases h
      refine ⟨text, ht, rfl, ?_⟩
      unfold parseRegistry at hp
      split at hp
      case h_1 => cases hp
      case h_2 he =>
        rw [he]
        rfl
      case h_3 => cases hp

-- A backup that succeeds has saved the archive of its sources.
structure Saved (fromSlice : List UInt8 → Except String Value) (files later : FsWorkspaceFiles)
    (sha256 : ByteArray → Digest) (req : BackupRequest) (archive : WorkspaceArchive) (outcome : BackupOutcome) :
    Prop where
  made     : ∃ now workspace secrets, archive = archiveOf sha256 now workspace secrets
  mem      : ∀ {f}, f ∈ archive.files ↔
    ∃ root path bytes, Source fromSlice files later req root path bytes ∧ f = sealFile sha256 root (path, bytes)
  registry : ∃ bytes, Source fromSlice files later req .workspace "registry.json" bytes
  warnings : outcome.warnings = warnings req.hubDir (projects fromSlice files req.hubDir)
  readable : ∀ {project relDir abs}, Portable fromSlice files req.hubDir project relDir →
    abs ∈ files.listRecursive ((OsPath.ofString project.path).join "state") →
    ¬isExcluded (relFrom req.hubDir abs) → (files.readBytes abs).isSome
  parsed   : ∀ {text}, files.read (req.hubDir.join "registry.json") = some text →
    (fromSlice text.toUTF8.data.toList).isOk

theorem mem_captureSecrets {req : BackupRequest} {out : List CapturedFile} {f : CapturedFile}
    (h : captureSecrets files req.secretsRoot = .ok out) :
    f ∈ out ↔ Source fromSlice files later req .secrets f.1 f.2 := by
  have trees {root dir : OsPath} (ht : Tree fromSlice files req .secrets root dir) :
      req.secretsRoot = some dir ∧ root = dir := by
    cases ht
    case secrets hs => exact ⟨hs, rfl⟩
  cases hr : req.secretsRoot
  case none =>
    rw [hr] at h
    cases h
    constructor
    case mp => simp
    case mpr =>
      rintro (_ | _ | _ | ⟨ht, _⟩)
      have hs := (trees ht).1
      rw [hr] at hs
      contradiction
  case some dir =>
    rw [hr] at h
    rw [mem_captureTree h]
    constructor
    case mp =>
      rintro ⟨abs, hi⟩
      exact .tree (.secrets hr) hi
    case mpr =>
      rintro (_ | _ | _ | ⟨ht, hi⟩)
      have hs := (trees ht).1
      rw [hr] at hs
      cases hs
      cases (trees ht).2
      exact ⟨_, hi⟩

-- The files of the workspace, as they come together in the archive.
theorem mem_captureWorkspace {req : BackupRequest} {registry : Registry} {hub captured blobs : List CapturedFile}
    (hr : readRegistry fromSlice files req.hubDir = .ok registry)
    (hh : captureHubFiles fromSlice files later req.hubDir hubFiles = .ok hub)
    (hp : captureProjects fromSlice files later req.hubDir registry.projects = .ok captured)
    (hb : captureTree files req.hubDir (files.listRecursive (req.hubDir.join "blobs")) = .ok blobs) {c : CapturedFile} :
    c ∈ registry.file :: (hub ++ captured ++ blobs) ↔ Source fromSlice files later req .workspace c.1 c.2 := by
  obtain ⟨hpr, text, ht, hf, _⟩ := readRegistry_ok hr
  simp only [List.mem_cons, List.mem_append, mem_captureHubFiles hh, mem_captureProjects hp, mem_captureTree hb]
  constructor
  case mp =>
    rintro (rfl | (⟨hn, hj⟩ | ⟨project, hm, relDir, hrel, hof⟩) | ⟨abs, hi⟩)
    · rw [hf]
      exact .registry ht
    · exact .hubFile hn hj
    · have hport : Portable fromSlice files req.hubDir project relDir := ⟨hpr ▸ hm, hrel⟩
      rcases hof with ⟨hp, hj⟩ | ⟨abs, hi⟩
      · rw [hp]
        exact .config ⟨_, _, hport, rfl, hj⟩
      · exact .tree (.state hport) hi
    · exact .tree .blobs hi
  case mpr =>
    rcases c with ⟨path, bytes⟩
    intro hsrc
    cases hsrc
    case registry text' ht' =>
      rw [ht] at ht'
      cases ht'
      exact .inl hf.symm
    case hubFile hn hj => exact .inr (.inl (.inl ⟨hn, hj⟩))
    case config hc =>
      obtain ⟨project, relDir, hport, rfl, hj⟩ := hc
      exact .inr (.inl (.inr ⟨project, hpr ▸ hport.1, relDir, hport.2, .inl ⟨rfl, hj⟩⟩))
    case tree root dir abs htree hi =>
      cases htree
      case state project relDir hport =>
        exact .inr (.inl (.inr ⟨project, hpr ▸ hport.1, relDir, hport.2, .inr ⟨abs, hi⟩⟩))
      case blobs => exact .inr (.inr ⟨abs, hi⟩)

theorem Saved.of_execute {req : BackupRequest} {archive : WorkspaceArchive} {outcome : BackupOutcome}
    (h : execute fromSlice files later save sha256 now req = .ok (archive, outcome)) :
    Saved fromSlice files later sha256 req archive outcome := by
  obtain ⟨registry, hr, h⟩ := Except.bind_eq_ok.mp h
  obtain ⟨hub, hh, h⟩ := Except.bind_eq_ok.mp h
  obtain ⟨captured, hp, h⟩ := Except.bind_eq_ok.mp h
  obtain ⟨blobs, hb, h⟩ := Except.bind_eq_ok.mp h
  obtain ⟨secrets, hs, h⟩ := Except.bind_eq_ok.mp h
  obtain ⟨_, _, h⟩ := Except.bind_eq_ok.mp h
  cases h
  obtain ⟨hpr, text, ht, _, hok⟩ := readRegistry_ok hr
  have hsec {c : CapturedFile} : c ∈ secrets ↔ Source fromSlice files later req .secrets c.1 c.2 :=
    mem_captureSecrets hs
  have hws {c : CapturedFile} :
      c ∈ registry.file :: (hub ++ captured ++ blobs) ↔ Source fromSlice files later req .workspace c.1 c.2 :=
    mem_captureWorkspace hr hh hp hb
  constructor
  case made => exact ⟨_, _, _, rfl⟩
  case mem =>
    intro f
    rw [mem_archiveOf]
    constructor
    case mp =>
      rintro (⟨c, hc, rfl⟩ | ⟨c, hc, rfl⟩)
      · exact ⟨_, _, _, hws.mp hc, rfl⟩
      · exact ⟨_, _, _, hsec.mp hc, rfl⟩
    case mpr =>
      rintro ⟨root, path, bytes, hsrc, rfl⟩
      cases root
      case workspace => exact .inl ⟨(path, bytes), hws.mpr hsrc, rfl⟩
      case secrets   => exact .inr ⟨(path, bytes), hsec.mpr hsrc, rfl⟩
  case registry => exact ⟨_, .registry ht⟩
  case warnings => rw [hpr]
  case readable =>
    intro project relDir abs hport hm hx
    exact readable_of_captureProjects hp (hpr ▸ hport.1) hport.2 hm hx
  case parsed =>
    intro text' ht'
    rw [ht] at ht'
    cases ht'
    exact hok

end BackupWorkspace
