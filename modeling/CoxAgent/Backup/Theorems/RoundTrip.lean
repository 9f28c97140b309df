import CoxAgent.Backup.Theorems.Harmless

namespace BackupWorkspace

open RestoreWorkspace

variable {fromSlice : List UInt8 → Except String Value} {files later : FsWorkspaceFiles}
variable {save : WorkspaceArchive → OsPath → Except String Unit} {sha256 : ByteArray → Digest} {now : String}
variable {req : BackupRequest} {archive : WorkspaceArchive} {outcome : BackupOutcome}
variable {gitRepo : String → Option String} {host : RestoreHost} {r : RestoreRequest} {plan : List RestoreTarget}

section Archive

theorem Saved.validate_iff (h : Saved fromSlice files later sha256 req archive outcome) :
    validateArchive sha256 archive = .ok () ↔
      ∀ root path bytes, Source fromSlice files later req root path bytes → isSafeArchivePath path := by
  obtain ⟨now, workspace, secrets, rfl⟩ := h.made
  rw [validate_archiveOf]
  constructor
  case mp =>
    intro hs root path bytes hsrc
    exact hs (sealFile sha256 root (path, bytes)) (h.mem.mpr ⟨root, path, bytes, hsrc, rfl⟩)
  case mpr =>
    intro hs f hf
    obtain ⟨root, path, bytes, hsrc, rfl⟩ := h.mem.mp hf
    exact hs root path bytes hsrc

-- The order of the archive puts the secrets first.
theorem FileLe.secrets {a b : ArchiveFile} (h : FileLe a b) (hb : b.root = .secrets) : a.root = .secrets := by
  cases ha : a.root
  case secrets => rfl
  case workspace =>
    have hlt : ¬"workspace" < "secrets" := by
      rw [String.lt_iff_toList_lt]
      decide
    rw [FileLe, ha, hb] at h
    rcases h with h | h
    · contradiction
    · exact absurd h.1 (by decide)

instance : Std.Total FileLe where
  total a b := by
    rcases lt_trichotomy a.root.tag b.root.tag with h | h | h
    · exact .inl (.inl h)
    · rcases le_total a.path b.path with hp | hp
      · exact .inl (.inr ⟨h, hp⟩)
      · exact .inr (.inr ⟨h.symm, hp⟩)
    · exact .inr (.inl h)

instance : IsTrans ArchiveFile FileLe where
  trans a b c := by
    rintro (h | ⟨h, hp⟩) (h' | ⟨h', hp'⟩)
    · exact .inl (h.trans h')
    · exact .inl (h' ▸ h)
    · exact .inl (h ▸ h')
    · exact .inr ⟨h.trans h', hp.trans hp'⟩

theorem Saved.pairwise (h : Saved fromSlice files later sha256 req archive outcome) :
    archive.files.Pairwise FileLe := by
  obtain ⟨now, workspace, secrets, ha⟩ := h.made
  rw [ha]
  exact List.pairwise_insertionSort _ _

end Archive

section Plan

-- The plan writes the sources of the backup.
theorem Saved.mem_plan (h : Saved fromSlice files later sha256 req archive outcome)
    (hf : plan.map (·.file) = archive.files) (hp : ∀ t ∈ plan, Planned r t) {root : ArchiveRoot} {path : String}
    {bytes : List UInt8} :
    (∃ t ∈ plan, t.file.root = root ∧ t.file.path = path ∧ t.bytes = bytes) ↔
      Source fromSlice files later req root path bytes := by
  constructor
  case mp =>
    rintro ⟨t, ht, rfl, rfl, rfl⟩
    obtain ⟨root, path, bytes, hs, he⟩ := h.mem.mp (hf ▸ List.mem_map_of_mem ht)
    have hb := (hp t ht).bytes
    rw [he] at hb ⊢
    cases (hexDecode_hexEncode bytes).symm.trans hb
    exact hs
  case mpr =>
    intro hs
    have hm := h.mem.mpr ⟨root, path, bytes, hs, rfl⟩
    rw [← hf] at hm
    obtain ⟨t, ht, he⟩ := List.mem_map.mp hm
    have hb := (hp t ht).bytes
    rw [he] at hb
    cases (hexDecode_hexEncode bytes).symm.trans hb
    exact ⟨t, ht, by rw [he]; rfl, by rw [he]; rfl, rfl⟩

-- A lock file is never captured.
theorem Source.getLast?_ne_stateLock {path : String} {bytes : List UInt8}
    (h : Source fromSlice files later req .workspace path bytes) :
    (OsPath.segments path).getLast? ≠ some (.ofString stateLock) := by
  intro he
  rw [OsPath.segments, List.getLast?_map, Option.map_eq_some_iff] at he
  obtain ⟨seg, hs, hseg⟩ := he
  have hseg : seg = stateLock.toList := String.ofList_eq.mp (OsStr.ofString_inj hseg)
  rw [hseg] at hs
  obtain ⟨_, relDir, _, rfl, _⟩ := h.config_of_isExcluded (isExcluded_of_getLast? hs)
  have hsplit : (relDir ++ "/coxagent.json").toList = relDir.toList ++ '/' :: "coxagent.json".toList := by
    rw [String.toList_append]
    rfl
  have hname : "coxagent.json".toList.splitOn '/' = ["coxagent.json".toList] := by decide
  rw [hsplit, List.splitOn_append_cons_self, hname, List.getLast?_concat] at hs
  exact absurd (Option.some.inj hs) (by decide)

end Plan

end BackupWorkspace

namespace RestoreWorkspace

open BackupWorkspace

variable {fromSlice : List UInt8 → Except String Value} {files later : FsWorkspaceFiles}
variable {sha256 : ByteArray → Digest} {now : String} {req : BackupRequest} {archive : WorkspaceArchive}
variable {outcome : BackupOutcome} {gitRepo : String → Option String} {host : RestoreHost} {r : RestoreRequest}
variable {plan : List RestoreTarget} {q : List OsStr}

section Target

-- Nothing is below the hub directory.
structure EmptyHub (host : RestoreHost) (r : RestoreRequest) : Prop where
  files : ∀ q, rootPlace host r .workspace <+: q → host.files.disk.get q = none
  dirs  : ∀ q, rootPlace host r .workspace <+: q → q ≠ rootPlace host r .workspace → q ∉ host.dirs

-- The lock of a directory named `state` that is the hub directory or above it.
def LockAt (host : RestoreHost) (r : RestoreRequest) (q : List OsStr) : Prop :=
  ∃ dir : OsPath, dir <+: r.hubDir ∧ dir.fileName = some (.ofString "state") ∧
    q = dir.place host.files.cwd ++ [.ofString stateLock]

theorem EmptyHub.existing (h : EmptyHub host r) : existingTargets host.files r.hubDir = [] := by
  rw [existingTargets, List.filter_eq_nil_iff, List.forall_mem_map]
  intro abs hm
  obtain ⟨names, _, hg, _⟩ := FsWorkspaceFiles.mem_listRecursive.mp hm
  have := h.files (r.hubDir.place host.files.cwd ++ names) (List.prefix_append _ _)
  simp [this] at hg

theorem Planned.abs_eq {t : RestoreTarget} (h : Planned r t) (hw : t.file.root = .workspace) :
    t.abs = r.hubDir ++ (OsPath.segments t.file.path).map .normal := by
  rw [h.abs, target, hw]
  exact join_of_isSafeArchivePath h.safe

-- The directories that do not exist have no locks.
theorem EmptyHub.lockAt (h : EmptyHub host r) {t : RestoreTarget} (hp : Planned r t)
    (hw : t.file.root = .workspace) {lock : OsPath} (hl : lock ∈ locksAbove t.abs) :
    LockAt host r (lock.place host.files.cwd) ∨
    ¬Missing host (lock.place host.files.cwd) ∧ ¬Held host (lock.place host.files.cwd) := by
  obtain ⟨dir, hd, hn, hq⟩ := place_lock host hl
  have habs : t.abs.dropLast = r.hubDir ++ (OsPath.segments t.file.path).dropLast.map .normal := by
    rw [hp.abs_eq hw, List.dropLast_append_of_ne_nil (by simp [OsPath.segments_ne_nil]), List.map_dropLast]
  have hpre : dir <+: r.hubDir ++ (OsPath.segments t.file.path).dropLast.map .normal := by
    rw [← habs]
    exact (List.mem_inits _ _).mp hd
  rcases List.prefix_or_prefix_of_prefix hpre (List.prefix_append _ _) with hin | hout
  · exact .inl ⟨dir, hin, hn, hq⟩
  · obtain ⟨k, rfl⟩ := hout
    have hk := List.prefix_iff_eq_take.mp ((List.prefix_append_right_inj _).mp hpre)
    rw [← List.map_take] at hk
    generalize (OsPath.segments t.file.path).dropLast.take k.length = names at hk
    subst hk
    by_cases he : names = []
    case pos => exact .inl ⟨r.hubDir, List.prefix_refl _, by simpa [he] using hn, by simpa [he] using hq⟩
    case neg =>
      right
      rw [hq, OsPath.place_names]
      constructor
      case left =>
        intro hm
        have := hm.2.2
        rw [List.dropLast_concat] at this
        exact h.dirs _ (List.prefix_append _ _) (by simpa [rootPlace] using he) this
      case right =>
        intro hh
        have hg := host.exists_of_held hh.2
        have hn := h.files (r.hubDir.place host.files.cwd ++ (names ++ [.ofString stateLock])) (List.prefix_append _ _)
        rw [List.append_assoc, hn] at hg
        contradiction

-- The plan has at least the registry, and with it the locks of the hub directory itself.
theorem LockAt.exists_lock {q : List OsStr} (h : LockAt host r q) {t : RestoreTarget} (ht : t ∈ plan)
    (hp : Planned r t) (hw : t.file.root = .workspace) :
    ∃ lock ∈ (locks plan).keys, lock.place host.files.cwd = q := by
  obtain ⟨dir, hd, hn, rfl⟩ := h
  refine ⟨dir.join stateLock, mem_locks.mpr ⟨t, ht, hw, ?_⟩, ?_⟩
  · refine List.mem_map.mpr ⟨dir, List.mem_filter.mpr ⟨?_, by simpa using hn⟩, rfl⟩
    refine (List.mem_inits _ _).mpr (hd.trans ?_)
    rw [hp.abs_eq hw, List.dropLast_append_of_ne_nil (by simp [OsPath.segments_ne_nil])]
    exact List.prefix_append _ _
  · rw [place_join stateLock_safe.1, stateLock_safe.2]

theorem EmptyHub.created_iff (h : EmptyHub host r) {q : List OsStr} (hp : ∀ t ∈ plan, Planned r t)
    (hw : ∃ t ∈ plan, t.file.root = .workspace) (hr : ¬Running host plan) :
    Created host plan q ↔ LockAt host r q ∧ Missing host q := by
  have ht : tried host (locks plan).keys = (locks plan).keys := tried_of_not_held fun lock hl hh => hr ⟨lock, hl, hh⟩
  rw [Created, ht]
  constructor
  case mp =>
    rintro ⟨hm, lock, hl, rfl⟩
    obtain ⟨t, ht, hw, hl⟩ := mem_locks.mp hl
    rcases h.lockAt (hp t ht) hw hl with hat | hn
    · exact ⟨hat, hm⟩
    · exact absurd hm hn.1
  case mpr =>
    rintro ⟨hat, hm⟩
    obtain ⟨t, ht, hw⟩ := hw
    exact ⟨hm, hat.exists_lock ht (hp t ht) hw⟩

theorem EmptyHub.running_iff (h : EmptyHub host r) (hp : ∀ t ∈ plan, Planned r t)
    (hw : ∃ t ∈ plan, t.file.root = .workspace) : Running host plan ↔ ∃ q, LockAt host r q ∧ Held host q := by
  constructor
  case mp =>
    rintro ⟨lock, hl, hh⟩
    obtain ⟨t, ht, hw, hl⟩ := mem_locks.mp hl
    rcases h.lockAt (hp t ht) hw hl with hat | hn
    · exact ⟨_, hat, hh⟩
    · exact absurd hh hn.2
  case mpr =>
    rintro ⟨q, hat, hh⟩
    obtain ⟨t, ht, hw⟩ := hw
    obtain ⟨lock, hl, rfl⟩ := hat.exists_lock ht (hp t ht) hw
    exact ⟨lock, hl, hh⟩

end Target

section Written

variable {d₀ : FileTree OsStr (List UInt8)}

-- Onto a workspace without any of the files, the part that writes is the plan.
theorem overwrite_of_absent (gitRepo : String → Option String) (now : String)
    (h : ∀ t ∈ plan, t.file.root = .workspace → d₀.get (t.abs.place host.files.cwd) = none) :
    ((∃ out, (overwrite gitRepo now host (fun _ => none) r plan d₀).1 = .ok out) ↔
      (writePlan host (fun _ => none) (snapshotDirOf now r) { disk := d₀ } plan).1 = .ok ()) ∧
    (overwrite gitRepo now host (fun _ => none) r plan d₀).2 =
      (writePlan host (fun _ => none) (snapshotDirOf now r) { disk := d₀ } plan).2.disk := by
  have hskip : ∃ n, snapshotOverwritten host (fun _ => none) (snapshotDirOf now r) {} { disk := d₀ } plan =
      (.ok n, { disk := d₀ }) := by
    refine snapshot_skip fun t ht hw => ?_
    simp [FsWorkspaceFiles.readBytes, filesOn, h t ht hw]
  obtain ⟨n, hn⟩ := hskip
  simp only [overwrite, hn]
  split
  case h_1 e he => simp [he]
  case h_2 hok  => simp [hok]

-- The workspace comes last, so that its files stay as they are written.
theorem plan_split (hf : plan.map (·.file) = archive.files) (hs : archive.files.Pairwise FileLe) :
    plan = plan.filter (·.file.root = .secrets) ++ plan.filter (·.file.root = .workspace) := by
  have hp : plan.Pairwise fun t u => FileLe t.file u.file := by
    rw [← hf, List.pairwise_map] at hs
    exact hs
  clear hf hs
  induction plan
  case nil => rfl
  case cons t rest hi =>
    rw [List.pairwise_cons] at hp
    cases ht : t.file.root
    case secrets =>
      have hne : ¬ArchiveRoot.secrets = .workspace := by decide
      simp only [List.filter_cons, ht, decide_true, if_true, hne, decide_false, Bool.false_eq_true, if_false,
        List.cons_append, ← hi hp.2]
    case workspace =>
      have hne : ¬ArchiveRoot.workspace = .secrets := by decide
      have hw : ∀ u ∈ rest, u.file.root = .workspace := fun u hu => by
        cases hr : u.file.root
        case workspace => rfl
        case secrets   => exact absurd ((hp.1 u hu).secrets hr) (by simp [ht])
      have hsec : rest.filter (·.file.root = .secrets) = [] := by
        rw [List.filter_eq_nil_iff]
        intro u hu
        simp [hw u hu]
      have hws : rest.filter (·.file.root = .workspace) = rest := by
        rw [List.filter_eq_self]
        intro u hu
        simp [hw u hu]
      simp only [List.filter_cons, ht, hne, decide_false, Bool.false_eq_true, if_false, hsec, List.nil_append,
        decide_true, if_true, hws]

end Written

section Fits

variable {d₀ : FileTree OsStr (List UInt8)}

-- Where a file of the archive goes.
def goesTo (host : RestoreHost) (r : RestoreRequest) (root : ArchiveRoot) (path : String) : List OsStr :=
  rootPlace host r root ++ OsPath.segments path

variable (Src : ArchiveRoot → String → List UInt8 → Prop)

-- The files that are captured can be told apart on the machine that they are restored onto, and nothing
-- is in their way there.
structure Fits (host : RestoreHost) (r : RestoreRequest) : Prop where
  safe  : ∀ root path bytes, Src root path bytes → isSafeArchivePath path
  same  : ∀ path bytes bytes', Src .workspace path bytes → Src .workspace path bytes' → bytes = bytes'
  apart : ∀ root path bytes, Src root path bytes → ∀ root' path' bytes', Src root' path' bytes' →
    ¬Nested (goesTo host r root path) (goesTo host r root' path')
  room  : ∀ root path bytes, Src root path bytes → goesTo host r root path ∉ host.dirs ∧
    ∀ q, (host.files.disk.get q).isSome ∨ LockAt host r q ∧ Missing host q → ¬Nested q (goesTo host r root path)
  locks : ∀ q, LockAt host r q → ¬Held host q ∧ ¬(Missing host q ∧ rootPlace host r .workspace <+: q)
  own   : ∀ path bytes, Src .secrets path bytes → rootPlace host r .workspace <+: goesTo host r .secrets path →
    ∃ path' bytes', Src .workspace path' bytes' ∧ goesTo host r .secrets path = goesTo host r .workspace path'

-- The restore succeeds and leaves exactly the files of the archive in the hub directory.
structure Restored (host : RestoreHost) (r : RestoreRequest) (archive : WorkspaceArchive)
    (result : Except RestoreError RestoreOutcome × FileTree OsStr (List UInt8)) : Prop where
  ok    : ∃ out, result.1 = .ok out
  files : ∀ names bytes, result.2.get (rootPlace host r .workspace ++ names) = some bytes ↔
    ∃ path, Holds archive path bytes ∧ OsPath.segments path = names

-- The plan writes what was captured.
structure Carries (r : RestoreRequest) (plan : List RestoreTarget) : Prop where
  planned  : ∀ t ∈ plan, Planned r t
  mem      : ∀ {root path bytes},
    (∃ t ∈ plan, t.file.root = root ∧ t.file.path = path ∧ t.bytes = bytes) ↔ Src root path bytes
  split    : plan = plan.filter (·.file.root = .secrets) ++ plan.filter (·.file.root = .workspace)
  registry : ∃ t ∈ plan, t.file.root = .workspace
  lasting  : ∀ path bytes, Src .workspace path bytes → (OsPath.segments path).getLast? ≠ some (.ofString stateLock)

variable {Src} {bytes : List UInt8} {path : String}

theorem Planned.place {t : RestoreTarget} (h : Planned r t) :
    t.abs.place host.files.cwd = goesTo host r t.file.root t.file.path := by
  rw [h.abs, place_target h.safe]
  rfl

theorem Carries.forall_iff (h : Carries Src r plan) (host : RestoreHost) {P : List OsStr → Prop} :
    (∀ t ∈ plan, P (t.abs.place host.files.cwd)) ↔
      ∀ root path bytes, Src root path bytes → P (goesTo host r root path) := by
  constructor
  case mp =>
    intro hp root path bytes hs
    obtain ⟨t, ht, rfl, rfl, rfl⟩ := h.mem.mpr hs
    exact (h.planned t ht).place ▸ hp t ht
  case mpr =>
    intro hp t ht
    rw [(h.planned t ht).place]
    exact hp _ _ _ (h.mem.mp ⟨t, ht, rfl, rfl, rfl⟩)

-- The files when the locks have been probed, none of which is held.
theorem Carries.isSome_probedDisk (h : Carries Src r plan) (he : EmptyHub host r) (hr : ¬Running host plan) :
    ((probedDisk host plan).get q).isSome ↔
      (host.files.disk.get q).isSome ∨ LockAt host r q ∧ Missing host q := by
  rw [← he.created_iff h.planned h.registry hr]
  constructor
  case mp =>
    intro hq
    rcases get_probedDisk host plan q with hg | ⟨_, hc⟩
    · exact .inl (hg ▸ hq)
    · exact .inr hc
  case mpr =>
    rintro (hq | hc)
    · obtain ⟨bytes, hb⟩ := Option.isSome_iff_exists.mp hq
      simp [(probed host plan).get_of_some hb]
    · exact Created.get_isSome hc

-- No file of the workspace is there yet, not even as a lock.
theorem Carries.absent (h : Carries Src r plan) (he : EmptyHub host r) (hr : ¬Running host plan) {t : RestoreTarget}
    (ht : t ∈ plan) (hw : t.file.root = .workspace) :
    (probedDisk host plan).get (t.abs.place host.files.cwd) = none := by
  rw [← Option.not_isSome_iff_eq_none, h.isSome_probedDisk he hr, (h.planned t ht).place, goesTo, hw]
  rintro (hq | ⟨⟨dir, _, _, hd⟩, _⟩)
  · rw [he.files _ (List.prefix_append _ _)] at hq
    contradiction
  · have hl := congrArg List.getLast? hd
    rw [List.getLast?_append_of_ne_nil _ OsPath.segments_ne_nil, List.getLast?_concat] at hl
    exact h.lasting _ t.bytes (h.mem.mp ⟨t, ht, hw, rfl, rfl⟩) hl

theorem Carries.writePlan_ok (h : Carries Src r plan) (he : EmptyHub host r) (hr : ¬Running host plan)
    (dir : OsPath) :
    (writePlan host (fun _ => none) dir { disk := probedDisk host plan } plan).1 = .ok () ↔
      (∀ root path bytes, Src root path bytes → goesTo host r root path ∉ host.dirs ∧
        ∀ q, (host.files.disk.get q).isSome ∨ LockAt host r q ∧ Missing host q →
          ¬Nested q (goesTo host r root path)) ∧
      ∀ root path bytes, Src root path bytes → ∀ root' path' bytes', Src root' path' bytes' →
        ¬Nested (goesTo host r root path) (goesTo host r root' path') := by
  rw [RestoreWorkspace.writePlan_ok, FileTree.putAll_isSome]
  simp only [writesOf, List.forall_mem_map, h.isSome_probedDisk he hr]
  rw [← and_assoc, ← forall₂_and, ← h.forall_iff host (P := fun p => p ∉ host.dirs ∧ ∀ q,
    (host.files.disk.get q).isSome ∨ LockAt host r q ∧ Missing host q → ¬Nested q p)]
  apply and_congr_right'
  rw [← h.forall_iff host (P := fun p => ∀ root' path' bytes', Src root' path' bytes' →
    ¬Nested p (goesTo host r root' path'))]
  refine forall₂_congr fun t _ => ?_
  exact h.forall_iff host (P := fun p => ¬Nested (t.abs.place host.files.cwd) p)

variable {d : FileTree OsStr (List UInt8)}

theorem goesTo_inj {path' : String} {root : ArchiveRoot} (h : goesTo host r root path = goesTo host r root path') :
    path = path' :=
  OsPath.segments_inj (List.append_cancel_left h)

theorem Carries.mem_writesOf (h : Carries Src r plan) {root : ArchiveRoot} (hs : Src root path bytes) :
    (goesTo host r root path, bytes) ∈ writesOf host plan := by
  obtain ⟨t, ht, rfl, rfl, rfl⟩ := h.mem.mpr hs
  exact List.mem_map.mpr ⟨t, ht, Prod.ext (h.planned t ht).place rfl⟩

-- A file of the workspace ends up with the bytes that were captured.
theorem Carries.get_workspace (h : Carries Src r plan) (hd : d₀.putAll (writesOf host plan) = some d)
    (hsame : ∀ path bytes bytes', Src .workspace path bytes → Src .workspace path bytes' → bytes = bytes')
    (hs : Src .workspace path bytes) : d.get (goesTo host r .workspace path) = some bytes := by
  rw [h.split, writesOf, List.map_append, FileTree.putAll_append, Option.bind_eq_some_iff] at hd
  obtain ⟨d₁, _, hd⟩ := hd
  refine FileTree.get_putAll_mem hd ?_ ?_
  · obtain ⟨t, ht, hr, rfl, rfl⟩ := h.mem.mpr hs
    refine List.mem_map.mpr ⟨t, List.mem_filter.mpr ⟨ht, by simp [hr]⟩, Prod.ext ?_ rfl⟩
    rw [(h.planned t ht).place, hr]
  · intro f hf hp
    obtain ⟨t, ht, rfl⟩ := List.mem_map.mp hf
    have ht := List.mem_filter.mp ht
    have hr : t.file.root = .workspace := by simpa using ht.2
    rw [(h.planned t ht.1).place, hr] at hp
    exact hsame path t.bytes bytes (h.mem.mp ⟨t, ht.1, hr, goesTo_inj hp, rfl⟩) hs

-- Nothing else ends up in the hub directory.
theorem Carries.source_of_get (h : Carries Src r plan) (he : EmptyHub host r) (hr : ¬Running host plan)
    (hfit : Fits Src host r) (hd : (probedDisk host plan).putAll (writesOf host plan) = some d) {names : List OsStr}
    (hg : d.get (rootPlace host r .workspace ++ names) = some bytes) :
    ∃ path, Src .workspace path bytes ∧ OsPath.segments path = names := by
  have source {path' : String} {bytes' : List UInt8} (hs : Src .workspace path' bytes')
      (hp : goesTo host r .workspace path' = rootPlace host r .workspace ++ names) :
      ∃ path, Src .workspace path bytes ∧ OsPath.segments path = names := by
    have hb := h.get_workspace hd hfit.same hs
    rw [hp, hg] at hb
    cases hb
    exact ⟨path', hs, List.append_cancel_left hp⟩
  by_cases hm : ∃ f ∈ writesOf host plan, f.1 = rootPlace host r .workspace ++ names
  case pos =>
    obtain ⟨f, hf, hp⟩ := hm
    obtain ⟨t, ht, rfl⟩ := List.mem_map.mp hf
    have hs := h.mem.mp ⟨t, ht, rfl, rfl, rfl⟩
    rw [(h.planned t ht).place] at hp
    cases hroot : t.file.root
    case workspace =>
      rw [hroot] at hs hp
      exact source hs hp
    case secrets =>
      rw [hroot] at hs hp
      have hp : goesTo host r .secrets t.file.path = rootPlace host r .workspace ++ names := hp
      obtain ⟨path', bytes', hs', heq⟩ := hfit.own _ _ hs (hp ▸ List.prefix_append _ _)
      exact source hs' (heq.symm.trans hp)
  case neg =>
    have hn := FileTree.get_putAll_notMem hd fun f hf hp => hm ⟨f, hf, hp⟩
    rw [hg] at hn
    rcases (h.isSome_probedDisk he hr).mp (Option.isSome_of_eq_some hn.symm) with hq | ⟨hat, hmiss⟩
    · rw [he.files _ (List.prefix_append _ _)] at hq
      contradiction
    · exact absurd ⟨hmiss, List.prefix_append _ _⟩ (hfit.locks _ hat).2

-- What is left in the hub directory is what was captured, so that nothing else can have been put there.
theorem Restored.fits {result : Except RestoreError RestoreOutcome × FileTree OsStr (List UInt8)}
    (hres : Restored host r archive result) (h : Carries Src r plan)
    (hd : d₀.putAll (writesOf host plan) = some result.2)
    (hsafe : ∀ root path bytes, Src root path bytes → isSafeArchivePath path)
    (hold : ∀ path bytes, Holds archive path bytes ↔ Src .workspace path bytes)
    (hroom : ∀ root path bytes, Src root path bytes → goesTo host r root path ∉ host.dirs ∧
      ∀ q, (host.files.disk.get q).isSome ∨ LockAt host r q ∧ Missing host q → ¬Nested q (goesTo host r root path))
    (hapart : ∀ root path bytes, Src root path bytes → ∀ root' path' bytes', Src root' path' bytes' →
      ¬Nested (goesTo host r root path) (goesTo host r root' path'))
    (hfree : ∀ q, LockAt host r q → ¬Held host q)
    (hlock : ∀ q, LockAt host r q → Missing host q → (d₀.get q).isSome) : Fits Src host r := by
  -- Every file below the hub directory is one of the archive.
  have source {names : List OsStr} (hg : (result.2.get (rootPlace host r .workspace ++ names)).isSome) :
      ∃ path bytes, Src .workspace path bytes ∧ OsPath.segments path = names := by
    obtain ⟨bytes, hb⟩ := Option.isSome_iff_exists.mp hg
    obtain ⟨path, hh, hn⟩ := (hres.files names bytes).mp hb
    exact ⟨path, bytes, (hold path bytes).mp hh, hn⟩
  constructor
  case safe  => exact hsafe
  case apart => exact hapart
  case room  => exact hroom
  case same =>
    intro path bytes bytes' hs hs'
    have hb := (hres.files _ _).mpr ⟨path, (hold path bytes).mpr hs, rfl⟩
    have hb' := (hres.files _ _).mpr ⟨path, (hold path bytes').mpr hs', rfl⟩
    exact Option.some.inj (hb.symm.trans hb')
  case locks =>
    intro q hat
    refine ⟨hfree q hat, ?_⟩
    rintro ⟨hm, names, rfl⟩
    obtain ⟨path, bytes, hs, rfl⟩ := source (FileTree.get_isSome_putAll hd (hlock _ hat hm))
    obtain ⟨dir, _, _, hq⟩ := hat
    have hl := congrArg List.getLast? hq
    rw [List.getLast?_append_of_ne_nil _ OsPath.segments_ne_nil, List.getLast?_concat] at hl
    exact h.lasting path bytes hs hl
  case own =>
    rintro path bytes hs ⟨names, hq⟩
    have hg := FileTree.get_isSome_putAll_mem hd (h.mem_writesOf hs)
    rw [← hq] at hg
    obtain ⟨path', bytes', hs', rfl⟩ := source hg
    exact ⟨path', bytes', hs', hq.symm⟩

-- What is captured can be restored iff it fits.
theorem Carries.restored_iff (h : Carries Src r plan) (he : EmptyHub host r) (hdry : ¬r.dryRun)
    (hsafe : ∀ root path bytes, Src root path bytes → isSafeArchivePath path)
    (hold : ∀ path bytes, Holds archive path bytes ↔ Src .workspace path bytes) :
    Restored host r archive (run gitRepo now host (fun _ => none) r plan) ↔ Fits Src host r := by
  have hrun := he.running_iff h.planned h.registry
  rcases run_cases gitRepo now host (fun _ => none) r plan with ⟨hn, _, hstop⟩ | ⟨hp, hover⟩
  · -- A lock is held.
    have hr : Running host plan := by
      by_contra hr
      exact hn ⟨hdry, hr, .inr he.existing⟩
    obtain ⟨e, herr, _⟩ := hstop.resolve_left hdry
    constructor
    case mp =>
      rintro ⟨⟨out, hok⟩, _⟩
      rw [herr] at hok
      cases hok
    case mpr =>
      intro hfit
      obtain ⟨q, hat, hh⟩ := hrun.mp hr
      exact absurd hh (hfit.locks q hat).1
  · have hr := hp.2.1
    have hfree (q : List OsStr) (hat : LockAt host r q) : ¬Held host q := fun hh => hr (hrun.mpr ⟨q, hat, hh⟩)
    obtain ⟨hok, hdisk⟩ := overwrite_of_absent gitRepo now fun t ht hw => h.absent he hr ht hw
    rw [hover]
    constructor
    case mp =>
      intro hres
      have hw := hok.mp hres.ok
      have hd := writePlan_disk hw
      rw [← hdisk] at hd
      obtain ⟨hroom, hapart⟩ := (h.writePlan_ok he hr _).mp hw
      exact hres.fits h hd hsafe hold hroom hapart hfree fun q hat hm =>
        (h.isSome_probedDisk he hr).mpr (.inr ⟨hat, hm⟩)
    case mpr =>
      intro hfit
      have hw := (h.writePlan_ok he hr (snapshotDirOf now r)).mpr ⟨hfit.room, hfit.apart⟩
      have hd := writePlan_disk hw
      rw [← hdisk] at hd
      refine ⟨hok.mpr hw, fun names bytes => ⟨fun hg => ?_, ?_⟩⟩
      · obtain ⟨path, hs, hn⟩ := h.source_of_get he hr hfit hd hg
        exact ⟨path, (hold path bytes).mpr hs, hn⟩
      · rintro ⟨path, hs, rfl⟩
        exact h.get_workspace hd hfit.same ((hold path bytes).mp hs)

theorem carries_of_saved (h : Saved fromSlice files later sha256 req archive outcome)
    (hf : plan.map (·.file) = archive.files) (hp : ∀ t ∈ plan, Planned r t) :
    Carries (Source fromSlice files later req) r plan where
  planned  := hp
  mem      := h.mem_plan hf hp
  split    := plan_split hf h.pairwise
  registry := by
    obtain ⟨bytes, hs⟩ := h.registry
    obtain ⟨t, ht, hr, _⟩ := (h.mem_plan hf hp).mpr hs
    exact ⟨t, ht, hr⟩
  lasting _ _ hs := hs.getLast?_ne_stateLock

-- A backup that succeeds can be restored into an empty hub directory iff its paths are safe, no two
-- files get in each other's way and none is in theirs on the machine. Nothing of it is checked when the
-- backup is made.
theorem backup_restorable_iff {save : WorkspaceArchive → OsPath → Except String Unit} {now' : String}
    (hb : BackupWorkspace.execute fromSlice files later save sha256 now' req = .ok (archive, outcome))
    (he : EmptyHub host r) (hdry : ¬r.dryRun) :
    validateArchive sha256 archive = .ok () ∧
      Restored host r archive (execute gitRepo sha256 now host (fun _ => none) r (.ok archive)) ↔
    Fits (Source fromSlice files later req) host r := by
  have hs := Saved.of_execute hb
  constructor
  case mp =>
    rintro ⟨hv, hres⟩
    have hc := checked_of_validate (r := r) hv
    obtain ⟨_, hl, _, hf, hp⟩ := checked_ok hc
    cases hl
    rw [execute, hc] at hres
    exact ((carries_of_saved hs hf hp).restored_iff he hdry (hs.validate_iff.mp hv) fun _ _ => hs.holds_iff).mp hres
  case mpr =>
    intro hfit
    have hv := hs.validate_iff.mpr hfit.safe
    have hc := checked_of_validate (r := r) hv
    obtain ⟨_, hl, _, hf, hp⟩ := checked_ok hc
    cases hl
    refine ⟨hv, ?_⟩
    rw [execute, hc]
    exact ((carries_of_saved hs hf hp).restored_iff he hdry hfit.safe fun _ _ => hs.holds_iff).mpr hfit

section Machines

-- A machine without any files, with the empty hub directory.
def fresh : RestoreHost where
  files            := { cwd := [], disk := { entries := [], apart := .nil } }
  dirs             := [[.ofString "hub"], []]
  closed           := by decide +kernel
  above _ h        := absurd h List.not_mem_nil
  not_dir _ h      := absurd h List.not_mem_nil
  exists_of_held h := absurd h Bool.false_ne_true

def unforced : RestoreRequest where
  hubDir      := .ofString "/hub"
  secretsRoot := .ofString "/secrets"

theorem emptyHub_fresh : EmptyHub fresh unforced where
  files _ _ := rfl
  dirs q hq hne hm := by
    rcases List.mem_cons.mp hm with rfl | hm
    · exact hne (by decide +kernel)
    · rw [List.mem_singleton.mp hm] at hq
      exact absurd hq (by decide +kernel)

theorem not_lockAt_fresh : ¬LockAt fresh unforced q := by
  rintro ⟨dir, hd, hn, _⟩
  have hi : ∀ dir ∈ unforced.hubDir.inits, OsPath.fileName dir ≠ some (.ofString "state") := by decide +kernel
  exact hi dir ((List.mem_inits _ _).mpr hd) hn

-- Files that can be listed fit if they do so one by one.
theorem fits_fresh (sources : List (String × List UInt8))
    (hsrc : ∀ root path bytes, Src root path bytes → root = .workspace ∧ (path, bytes) ∈ sources)
    (hsafe : ∀ f ∈ sources, isSafeArchivePath f.1) (hsame : ∀ f ∈ sources, ∀ g ∈ sources, f.1 = g.1 → f.2 = g.2)
    (hnest : ∀ f ∈ sources, ∀ g ∈ sources, ¬Nested (OsPath.segments f.1) (OsPath.segments g.1)) :
    Fits Src fresh unforced := by
  constructor
  case safe => exact fun _ path bytes hs => hsafe (path, bytes) (hsrc _ _ _ hs).2
  case same =>
    intro path bytes bytes' hs hs'
    exact hsame (path, bytes) (hsrc _ _ _ hs).2 (path, bytes') (hsrc _ _ _ hs').2 rfl
  case apart =>
    intro root path bytes hs root' path' bytes' hs'
    obtain ⟨rfl, hm⟩ := hsrc _ _ _ hs
    obtain ⟨rfl, hm'⟩ := hsrc _ _ _ hs'
    rw [goesTo, goesTo, nested_append_left]
    exact hnest (path, bytes) hm (path', bytes') hm'
  case room =>
    intro root path bytes hs
    obtain ⟨rfl, _⟩ := hsrc _ _ _ hs
    have hroot : rootPlace fresh unforced .workspace = [.ofString "hub"] := by decide +kernel
    refine ⟨?_, ?_⟩
    · rw [goesTo, hroot]
      simp [fresh, OsPath.segments_ne_nil]
    · rintro q (hq | ⟨hq, _⟩)
      · contradiction
      · exact absurd hq not_lockAt_fresh
  case locks => exact fun _ hq => absurd hq not_lockAt_fresh
  case own => exact fun _ _ hs => absurd (hsrc _ _ _ hs).1 (by decide)

theorem backup_restorable_intactHub :
    ∃ archive outcome, backupOf intactHub = .ok (archive, outcome) ∧
      validateArchive Sha256.digest archive = .ok () ∧
      Restored fresh unforced archive (restored fresh (fun _ => none) unforced archive) := by
  have hfiles : (backupOf intactHub).map (fun out => out.1.files.map fun f => (f.root, f.path, hexDecode f.bytesHex)) =
      .ok [(.workspace, "cxa/state/state.json", some (utf8 "\x7b\x7d")),
        (.workspace, "registry.json", some (utf8 registryText))] := by decide +kernel
  obtain ⟨⟨archive, outcome⟩, h, hfiles⟩ := Except.map_eq_ok.mp hfiles
  refine ⟨archive, outcome, h, (backup_restorable_iff h emptyHub_fresh (by decide)).mpr ?_⟩
  refine fits_fresh [("cxa/state/state.json", utf8 "\x7b\x7d"), ("registry.json", utf8 registryText)] ?_ ?_ ?_ ?_
  · intro root path bytes hs
    have hm := (Saved.of_execute h).mem.mpr ⟨root, path, bytes, hs, rfl⟩
    have hf := List.mem_map_of_mem (f := fun f : ArchiveFile => (f.root, f.path, hexDecode f.bytesHex)) hm
    rw [hfiles] at hf
    simpa [sealFile, hexDecode_hexEncode, ← and_or_left] using hf
  · decide +kernel
  · decide +kernel
  · decide +kernel

-- A name with a backslash.
def slashedHub : FsWorkspaceFiles where
  cwd  := []
  disk := {
    entries := [
      fileAt "/hub/registry.json" registryText,
      fileAt "/hub/cxa/state/docs/a\\b.md" "notes"]
    apart   := by decide +kernel }

-- The backup is made, and no restore takes it.
theorem backup_not_restorable :
    ∃ archive outcome, backupOf slashedHub = .ok (archive, outcome) ∧
      validateArchive Sha256.digest archive ≠ .ok () ∧
      ¬Restored fresh unforced archive (restored fresh (fun _ => none) unforced archive) := by
  have hok : (backupOf slashedHub).isOk := by decide +kernel
  obtain ⟨⟨archive, outcome⟩, h⟩ := exists_of_isOk hok
  have hp : Portable parsed slashedHub hubRequest.hubDir ⟨"cxa", "/hub/cxa"⟩ "cxa" :=
    ⟨by decide +kernel, by decide +kernel⟩
  have hi : InTree slashedHub hubRequest.hubDir ((OsPath.ofString "/hub/cxa").join "state")
      "cxa/state/docs/a\\b.md" (utf8 "notes") (.ofString "/hub/cxa/state/docs/a\\b.md") :=
    ⟨by decide +kernel, by decide +kernel, by decide +kernel, by decide +kernel⟩
  have hv : validateArchive Sha256.digest archive ≠ .ok () := fun hv =>
    absurd ((Saved.of_execute h).validate_iff.mp hv _ _ _ (.tree (.state hp) hi)) (by decide +kernel)
  refine ⟨archive, outcome, h, hv, ?_⟩
  rintro ⟨⟨out, ho⟩, _⟩
  unfold restored execute at ho
  split at ho
  case h_1 => cases ho
  case h_2 hc =>
    obtain ⟨_, hl, hv', _⟩ := checked_ok hc
    cases hl
    exact hv hv'

end Machines

end Fits

end RestoreWorkspace
