import CoxAgent.Backup.Restore
import CoxAgent.Lib.Except
import CoxAgent.Lib.Text

section Safe

variable {p : OsPath} {s : String}

theorem join_of_isSafeArchivePath (h : isSafeArchivePath s) :
    p.join s = p ++ (OsPath.segments s).map .normal := by
  simp only [isSafeArchivePath, Bool.and_eq_true, bne_iff_ne, ne_eq, List.all_eq_true] at h
  refine OsPath.join_segments h.1.2 fun seg hm => ?_
  have := h.2 seg hm
  simp_all

theorem place_join {cwd : List OsStr} (h : isSafeArchivePath s) :
    (p.join s).place cwd = p.place cwd ++ OsPath.segments s := by
  rw [join_of_isSafeArchivePath h, OsPath.place_names]

end Safe

namespace RestoreWorkspace

variable {sha256 : ByteArray → Digest} {now : String} {host : RestoreHost} {req : RestoreRequest}

def rootPlace (host : RestoreHost) (req : RestoreRequest) : ArchiveRoot → List OsStr
  | .workspace => req.hubDir.place host.files.cwd
  | .secrets   => req.secretsRoot.place host.files.cwd

theorem place_target {f : ArchiveFile} (h : isSafeArchivePath f.path) :
    (target req f).place host.files.cwd = rootPlace host req f.root ++ OsPath.segments f.path := by
  unfold target
  cases f.root
  case workspace => exact place_join h
  case secrets   => exact place_join h

theorem stateLock_safe : isSafeArchivePath stateLock ∧ OsPath.segments stateLock = [.ofString stateLock] := by
  decide +kernel

-- A target is what the archive has for it.
structure Planned (req : RestoreRequest) (t : RestoreTarget) : Prop where
  abs   : t.abs = target req t.file
  bytes : hexDecode t.file.bytesHex = some t.bytes
  safe  : isSafeArchivePath t.file.path

theorem mapM_planTarget {files : List ArchiveFile} {plan : List RestoreTarget}
    (hs : ∀ f ∈ files, isSafeArchivePath f.path) (h : files.mapM (planTarget req) = .ok plan) :
    plan.map (·.file) = files ∧ ∀ t ∈ plan, Planned req t := by
  induction files generalizing plan
  case nil =>
    cases h
    simp
  case cons f files hi =>
    rw [List.mapM_cons] at h
    obtain ⟨t, ht, h⟩ := Except.bind_eq_ok.mp h
    obtain ⟨rest, hr, h⟩ := Except.bind_eq_ok.mp h
    cases h
    rw [List.forall_mem_cons] at hs
    have ⟨hm, hrest⟩ := hi hs.2 hr
    unfold planTarget at ht
    split at ht
    case h_1 => cases ht
    case h_2 bytes hb =>
      cases ht
      exact ⟨by simp [hm], List.forall_mem_cons.mpr ⟨⟨rfl, hb, hs.1⟩, hrest⟩⟩

theorem checked_ok {load : Except String WorkspaceArchive} {plan : List RestoreTarget}
    (h : checked sha256 req load = .ok plan) :
    ∃ archive, load = .ok archive ∧ validateArchive sha256 archive = .ok () ∧
      plan.map (·.file) = archive.files ∧ ∀ t ∈ plan, Planned req t := by
  obtain ⟨archive, hl, h⟩ := Except.bind_eq_ok.mp h
  obtain ⟨_, hv, hp⟩ := Except.bind_eq_ok.mp h
  have hv := Except.mapError_eq_ok.mp hv
  refine ⟨archive, Except.mapError_eq_ok.mp hl, hv, mapM_planTarget (fun f hf => ?_) hp⟩
  obtain ⟨_, hi⟩ := (validateArchive_ok.mp hv).2.2 f hf
  exact hi.path

-- The plan of an archive whose files decode.
def planOf (req : RestoreRequest) (archive : WorkspaceArchive) : List RestoreTarget :=
  (planTargets req archive).toOption.getD []

theorem checked_of_validate {r : RestoreRequest} {archive : WorkspaceArchive}
    (hv : validateArchive sha256 archive = .ok ()) : checked sha256 r (.ok archive) = .ok (planOf r archive) := by
  have hd : ∀ f ∈ archive.files, ∃ t, planTarget r f = .ok t := fun f hf => by
    obtain ⟨bytes, hi⟩ := (validateArchive_ok.mp hv).2.2 f hf
    refine ⟨{ file := f, abs := target r f, bytes }, ?_⟩
    simp [planTarget, hi.decoded]
  have hm : ∃ plan, planTargets r archive = .ok plan := by
    unfold planTargets
    revert hd
    generalize archive.files = files
    intro hd
    induction files
    case nil => exact ⟨[], rfl⟩
    case cons f files hi =>
      rw [List.forall_mem_cons] at hd
      obtain ⟨t, ht⟩ := hd.1
      obtain ⟨plan, hp⟩ := hi hd.2
      refine ⟨t :: plan, ?_⟩
      rw [List.mapM_cons, ht, hp]
      rfl
  obtain ⟨plan, hp⟩ := hm
  refine Except.bind_eq_ok.mpr ⟨archive, rfl, Except.bind_eq_ok.mpr ⟨(), ?_, ?_⟩⟩
  · rw [hv]
    rfl
  · rw [planOf, hp]
    rfl

theorem mem_locks {plan : List RestoreTarget} {lock : OsPath} :
    lock ∈ (locks plan).keys ↔ ∃ t ∈ plan, t.file.root = .workspace ∧ lock ∈ locksAbove t.abs := by
  unfold locks
  have general (ts : List RestoreTarget) (set : BTreeSet OsPath) :
      lock ∈ (ts.foldl (fun set t => (locksAbove t.abs).foldl (fun set lock => set.insert lock ()) set) set).keys ↔
        (∃ t ∈ ts, lock ∈ locksAbove t.abs) ∨ lock ∈ set.keys := by
    induction ts generalizing set
    case nil => simp
    case cons t ts hi =>
      rw [List.foldl_cons, hi, BTreeMap.mem_keys_foldl_insert]
      simp only [List.mem_cons, exists_eq_or_imp]
      rw [or_left_comm, or_assoc]
  rw [general]
  simp [and_assoc]

-- A lock file has the name of one.
theorem place_lock (host : RestoreHost) {abs lock : OsPath} (h : lock ∈ locksAbove abs) :
    ∃ dir ∈ abs.ancestors, dir.fileName = some (.ofString "state") ∧
      lock.place host.files.cwd = dir.place host.files.cwd ++ [.ofString stateLock] := by
  obtain ⟨dir, hd, rfl⟩ := List.mem_map.mp h
  have hd := List.mem_filter.mp hd
  refine ⟨dir, hd.1, by simpa using hd.2, ?_⟩
  rw [place_join stateLock_safe.1, stateLock_safe.2]

end RestoreWorkspace
