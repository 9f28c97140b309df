import CoxAgent.Backup.Theorems.Places

namespace RestoreWorkspace

variable {gitRepo : String → Option String} {sha256 : ByteArray → Digest} {now : String} {host : RestoreHost}
variable {faults : Nat → Option WriteFault} {req : RestoreRequest} {plan rest : List RestoreTarget}
variable {disk d₀ : FileTree OsStr (List UInt8)} {io : RestoreIo} {q : List OsStr} {bytes : List UInt8}

section Probe

-- The probe for a lock at the place creates the file.
def Missing (host : RestoreHost) (place : List OsStr) : Prop :=
  place ∉ host.dirs ∧ host.files.disk.get place = none ∧ place.dropLast ∈ host.dirs

-- Another process holds the lock.
def Held (host : RestoreHost) (place : List OsStr) : Prop :=
  place ∉ host.dirs ∧ host.held place

instance {place : List OsStr} : Decidable (Held host place) :=
  inferInstanceAs (Decidable (_ ∧ _))

-- The locks that are probed. The first one that is held is the last.
def tried (host : RestoreHost) : List OsPath → List OsPath
  | []           => []
  | lock :: rest => if Held host (lock.place host.files.cwd) then [lock] else lock :: tried host rest

-- The files after some of the locks were probed.
def Probed (host : RestoreHost) (ls : List OsPath) (disk : FileTree OsStr (List UInt8)) : Prop :=
  ∀ q, disk.get q = host.files.disk.get q ∨
    disk.get q = some [] ∧ Missing host q ∧ ∃ lock ∈ ls, lock.place host.files.cwd = q

variable {ls ls' : List OsPath} {lock : OsPath}

theorem Probed.init : Probed host ls host.files.disk :=
  fun _ => .inl rfl

theorem Probed.get_of_some (h : Probed host ls disk) (hq : host.files.disk.get q = some bytes) :
    disk.get q = some bytes := by
  rcases h q with he | ⟨_, hm, _⟩
  · rw [he, hq]
  · rw [hm.2.1] at hq
    contradiction

-- What the probe for a lock does to the files: nothing, or it creates the lock file.
theorem probeLocked_disk (host : RestoreHost) (disk : FileTree OsStr (List UInt8)) (lock : OsPath) :
    (probeLocked host disk lock).2 = disk ∨
    lock.place host.files.cwd ∉ host.dirs ∧ disk.get (lock.place host.files.cwd) = none ∧
      (lock.place host.files.cwd).dropLast ∈ host.dirs ∧
      disk.put (lock.place host.files.cwd) [] = some (probeLocked host disk lock).2 := by
  simp only [probeLocked]
  split
  case isTrue => exact .inl rfl
  case isFalse hd =>
    split
    case isTrue => exact .inl rfl
    case isFalse he =>
      split
      case isFalse => exact .inl rfl
      case isTrue hp =>
        cases hput : disk.put (lock.place host.files.cwd) []
        case none   => exact .inl rfl
        case some d => exact .inr ⟨hd, by simpa using he, hp, rfl⟩

theorem Probed.probe (h : Probed host ls disk) (hl : lock ∈ ls) : Probed host ls (probeLocked host disk lock).2 := by
  rcases probeLocked_disk host disk lock with he | ⟨hd, hn, hp, hput⟩
  · rw [he]
    exact h
  · intro q
    by_cases hq : q = lock.place host.files.cwd
    case neg =>
      rw [FileTree.get_put_ne hput hq]
      exact h q
    case pos =>
      subst hq
      refine .inr ⟨FileTree.get_put_self hput, ⟨hd, ?_, hp⟩, lock, hl, rfl⟩
      cases hg : host.files.disk.get (lock.place host.files.cwd)
      case none => rfl
      case some =>
        rw [h.get_of_some hg] at hn
        contradiction

theorem probeLocked_iff (h : Probed host ls disk) :
    (probeLocked host disk lock).1 ↔ Held host (lock.place host.files.cwd) := by
  simp only [probeLocked, Held]
  split
  case isTrue hd => simp [hd]
  case isFalse hd =>
    split
    case isTrue  => simp [hd]
    case isFalse he =>
      have hh : ¬host.held (lock.place host.files.cwd) := fun hh => by
        obtain ⟨bytes, hb⟩ := Option.isSome_iff_exists.mp (host.exists_of_held hh)
        simp [h.get_of_some hb] at he
      split <;> simp [hh]

theorem tried_subset (host : RestoreHost) (ls : List OsPath) : tried host ls ⊆ ls := by
  induction ls
  case nil => exact List.Subset.refl _
  case cons lock rest hi =>
    unfold tried
    split
    case isTrue  => simp
    case isFalse => exact List.cons_subset_cons _ hi

theorem tried_of_not_held (h : ∀ lock ∈ ls, ¬Held host (lock.place host.files.cwd)) : tried host ls = ls := by
  induction ls
  case nil => rfl
  case cons lock rest hi =>
    rw [List.forall_mem_cons] at h
    rw [tried, if_neg h.1, hi h.2]

theorem Probed.refuse (h : Probed host ls disk) (hs : tried host ls' ⊆ ls) :
    Probed host ls (refuseRunningHub host disk ls').2 := by
  induction ls' generalizing disk
  case nil => exact h
  case cons lock rest hi =>
    unfold tried at hs
    unfold refuseRunningHub
    simp only [probeLocked_iff h]
    split
    case isTrue hl =>
      rw [if_pos hl] at hs
      exact h.probe (hs List.mem_cons_self)
    case isFalse hl =>
      rw [if_neg hl] at hs
      exact hi (h.probe (hs List.mem_cons_self)) fun _ hm => hs (List.mem_cons_of_mem _ hm)

-- The hub counts as running iff one of the locks is held.
theorem refuseRunningHub_ok (h : Probed host ls disk) (hs : ls' ⊆ ls) :
    (refuseRunningHub host disk ls').1 = .ok () ↔ ∀ lock ∈ ls', ¬Held host (lock.place host.files.cwd) := by
  induction ls' generalizing disk
  case nil => simp [refuseRunningHub]
  case cons lock rest hi =>
    have hp := h.probe (hs List.mem_cons_self)
    rw [List.forall_mem_cons, ← probeLocked_iff h]
    unfold refuseRunningHub
    split
    case isTrue hl  => simp [hl]
    case isFalse hl =>
      rw [hi hp fun _ hm => hs (List.mem_cons_of_mem _ hm)]
      simp [hl]

theorem error_refuse {e : RestoreError} (h : (refuseRunningHub host disk ls).1 = .error e) : ∃ lock, e = .running lock := by
  induction ls generalizing disk
  case nil => cases h
  case cons lock rest hi =>
    unfold refuseRunningHub at h
    split at h
    case isTrue =>
      cases h
      exact ⟨lock, rfl⟩
    case isFalse => exact hi h

-- There is room for a lock file that is missing: its directory is there, and it is none itself.
theorem Probed.put_isSome {place : List OsStr} (h : Probed host ls disk) (hm : Missing host place)
    (bytes : List UInt8) :
    (disk.put place bytes).isSome := by
  have closed {d d' : List OsStr} (hd : d ∈ host.dirs) (hp : d' <+: d) : d' ∈ host.dirs :=
    host.closed d hd d' ((List.mem_inits _ _).mpr hp)
  have strict {p q : List OsStr} (hp : p <+: q) (hne : p ≠ q) : p <+: q.dropLast := by
    obtain ⟨k, rfl⟩ := hp
    have hk : k ≠ [] := fun hk => hne (by simp [hk])
    rw [List.dropLast_append_of_ne_nil hk]
    exact List.prefix_append _ _
  rw [FileTree.put_isSome, FileTree.forall_entries (P := fun p => ¬Nested p place)]
  rintro p hp ⟨hne, hn⟩
  rcases h p with he | ⟨_, hmp, _⟩
  · obtain ⟨e, hmem, rfl⟩ := FileTree.get_isSome.mp (he ▸ hp)
    rcases hn with hn | hn
    · exact host.not_dir e hmem (closed hm.2.2 (strict hn hne))
    · exact hm.1 (host.above e hmem _ ((List.mem_inits _ _).mpr (strict hn hne.symm)))
  · rcases hn with hn | hn
    · exact hmp.1 (closed hm.2.2 (strict hn hne))
    · exact hm.1 (closed hmp.2.2 (strict hn hne.symm))

theorem get_isSome_probeLocked (hq : (disk.get q).isSome) : ((probeLocked host disk lock).2.get q).isSome := by
  rcases probeLocked_disk host disk lock with he | ⟨_, _, _, hput⟩
  · rw [he]
    exact hq
  · exact FileTree.get_isSome_put hput hq

theorem get_isSome_refuse (hq : (disk.get q).isSome) : ((refuseRunningHub host disk ls).2.get q).isSome := by
  induction ls generalizing disk
  case nil => exact hq
  case cons lock rest hi =>
    unfold refuseRunningHub
    split
    case isTrue  => exact get_isSome_probeLocked hq
    case isFalse => exact hi (get_isSome_probeLocked hq)

-- The locks that are probed and missing are created.
theorem get_isSome_refuse_of_missing (h : Probed host ls disk) (hs : ls' ⊆ ls) (hl : lock ∈ tried host ls')
    (hm : Missing host (lock.place host.files.cwd)) :
    ((refuseRunningHub host disk ls').2.get (lock.place host.files.cwd)).isSome := by
  induction ls' generalizing disk
  case nil => contradiction
  case cons lock' rest hi =>
    have hp := h.probe (hs List.mem_cons_self)
    have created : ((probeLocked host disk lock).2.get (lock.place host.files.cwd)).isSome := by
      simp only [probeLocked, hm.1, hm.2.2, if_false, if_true]
      split
      case isTrue he => exact he
      case isFalse   =>
        obtain ⟨d, hd⟩ := Option.isSome_iff_exists.mp (h.put_isSome hm [])
        simp [hd, FileTree.get_put_self hd]
    unfold tried at hl
    unfold refuseRunningHub
    simp only [probeLocked_iff h]
    split
    case isTrue hheld =>
      rw [if_pos hheld, List.mem_singleton] at hl
      exact hl ▸ created
    case isFalse hheld =>
      rw [if_neg hheld] at hl
      rcases List.mem_cons.mp hl with rfl | hl
      · exact get_isSome_refuse created
      · exact hi hp (fun _ hm => hs (List.mem_cons_of_mem _ hm)) hl

end Probe

section Existing

theorem relFrom_names {root : OsPath} {names : List OsStr} :
    relFrom root (root ++ names.map .normal) =
      .ofList (['/'].intercalate (names.map fun name => name.toStringLossy.toList)) := by
  simp only [relFrom, OsPath.stripPrefix_append, List.map_map]
  rfl

-- The name of a lock file is on the list.
theorem isExcluded_of_getLast? {rel : String} (h : (rel.toList.splitOn '/').getLast? = some stateLock.toList) :
    isExcluded rel := by
  simp only [isExcluded, h, Option.getD_some, show stateLock = ".state.lock" from rfl, beq_self_eq_true, Bool.or_true,
    Bool.true_or]

theorem isExcluded_stateLock {root : OsPath} {names : List OsStr} :
    isExcluded (relFrom root (root ++ (names ++ [OsStr.ofString stateLock]).map .normal)) := by
  have hlossy : (OsStr.ofString stateLock).toStringLossy = stateLock := by decide +kernel
  have hslash : '/' ∉ stateLock.toList := by decide
  apply isExcluded_of_getLast?
  rw [relFrom_names, List.map_append, List.map_singleton, hlossy, String.toList_ofList]
  exact Text.getLast?_splitOn_intercalate hslash

theorem reaches_filesOn {disk : FileTree OsStr (List UInt8)} {dir names : List OsStr} :
    (filesOn host disk).reaches dir names = host.files.reaches dir names := by
  induction names generalizing dir
  case nil                => rfl
  case cons name names hi => exact congrArg (host.files.listed dir name && ·) hi

-- A lock file that is created does not count.
theorem existingTargets_probed {ls : List OsPath} (h : Probed host ls disk)
    (hl : ∀ lock ∈ ls, ∃ dir, lock.place host.files.cwd = dir ++ [.ofString stateLock]) :
    existingTargets (filesOn host disk) req.hubDir = [] ↔ existingTargets host.files req.hubDir = [] := by
  simp only [existingTargets, List.filter_eq_nil_iff, List.forall_mem_map]
  constructor
  case mp =>
    intro he abs hm
    apply he
    obtain ⟨names, hn, hg, hr, rfl⟩ := FsWorkspaceFiles.mem_listRecursive.mp hm
    obtain ⟨bytes, hb⟩ := Option.isSome_iff_exists.mp hg
    exact FsWorkspaceFiles.mem_listRecursive.mpr
      ⟨names, hn, by simp [filesOn, h.get_of_some hb], reaches_filesOn.trans hr, rfl⟩
  case mpr =>
    intro he abs hm
    obtain ⟨names, hn, hg, hr, rfl⟩ := FsWorkspaceFiles.mem_listRecursive.mp hm
    rcases h (req.hubDir.place host.files.cwd ++ names) with hq | ⟨_, _, lock, hlock, hq⟩
    · exact he _ (FsWorkspaceFiles.mem_listRecursive.mpr ⟨names, hn, hq ▸ hg, reaches_filesOn.symm.trans hr, rfl⟩)
    · obtain ⟨dir, hd⟩ := hl lock hlock
      have hlast : names = names.dropLast ++ [.ofString stateLock] := by
        have := congrArg List.getLast? (hq.symm.trans hd)
        rw [List.getLast?_append_of_ne_nil _ hn, List.getLast?_concat] at this
        exact (List.dropLast_append_getLast? _ this).symm
      rw [hlast, isExcluded_stateLock]
      simp

end Existing

section Writes

-- What a write does to the files: nothing, or it puts some bytes at its place.
theorem writeBytes_disk (host : RestoreHost) (faults : Nat → Option WriteFault) (io : RestoreIo) (abs : OsPath)
    (bytes : List UInt8) :
    (writeBytes host faults io abs bytes).2.disk = io.disk ∨
    ∃ bytes', io.disk.put (abs.place host.files.cwd) bytes' = some (writeBytes host faults io abs bytes).2.disk := by
  have done (bytes : List UInt8) : (land host io abs bytes).getD io.disk = io.disk ∨
      ∃ bytes', io.disk.put (abs.place host.files.cwd) bytes' = some ((land host io abs bytes).getD io.disk) := by
    unfold land
    split
    case isTrue => exact .inl rfl
    case isFalse =>
      cases hp : io.disk.put (abs.place host.files.cwd) bytes
      case none   => exact .inl rfl
      case some d => exact .inr ⟨bytes, hp⟩
  unfold writeBytes
  split
  case h_1 => exact done bytes
  case h_2 => exact .inl rfl
  case h_3 n _ => exact done (bytes.take n)

theorem get_writeBytes_ne {abs : OsPath} (h : q ≠ abs.place host.files.cwd) :
    (writeBytes host faults io abs bytes).2.disk.get q = io.disk.get q := by
  rcases writeBytes_disk host faults io abs bytes with he | ⟨_, hp⟩
  · rw [he]
  · exact FileTree.get_put_ne hp h

-- The writes of a plan.
def writesOf (host : RestoreHost) (plan : List RestoreTarget) : List (List OsStr × List UInt8) :=
  plan.map fun t => (t.abs.place host.files.cwd, t.bytes)

-- When no write fails, the plan can be written iff the tree takes the files and no directory is in the way.
theorem writePlan_ok {dir : OsPath} :
    (writePlan host (fun _ => none) dir io plan).1 = .ok () ↔
      (∀ t ∈ plan, t.abs.place host.files.cwd ∉ host.dirs) ∧ (io.disk.putAll (writesOf host plan)).isSome := by
  induction plan generalizing io
  case nil => simp [writePlan, writesOf, FileTree.putAll]
  case cons t rest hi =>
    rw [List.forall_mem_cons, writesOf, List.map_cons, FileTree.putAll_cons]
    by_cases hd : t.abs.place host.files.cwd ∈ host.dirs
    case pos => simp [writePlan, writeBytes, land, hd]
    case neg =>
      cases hp : io.disk.put (t.abs.place host.files.cwd) t.bytes
      case none   => simp [writePlan, writeBytes, land, hd, hp]
      case some d =>
        simp only [writePlan, writeBytes, land, hd, hp, if_false, Option.isSome_some, if_true,
          Option.getD_some, Option.bind_some, hi, not_false_eq_true, true_and]
        rfl

theorem writePlan_disk {dir : OsPath} (h : (writePlan host (fun _ => none) dir io plan).1 = .ok ()) :
    io.disk.putAll (writesOf host plan) = some (writePlan host (fun _ => none) dir io plan).2.disk := by
  induction plan generalizing io
  case nil => rfl
  case cons t rest hi =>
    rw [writesOf, List.map_cons, FileTree.putAll_cons]
    by_cases hd : t.abs.place host.files.cwd ∈ host.dirs
    case pos => simp [writePlan, writeBytes, land, hd] at h
    case neg =>
      cases hp : io.disk.put (t.abs.place host.files.cwd) t.bytes
      case none   => simp [writePlan, writeBytes, land, hd, hp] at h
      case some d =>
        simp only [writePlan, writeBytes, land, hd, hp, if_false, Option.isSome_some, if_true,
          Option.getD_some] at h ⊢
        exact hi h

end Writes

section Snapshot

variable {dir : OsPath} {n : Overwritten} {t : RestoreTarget}

-- What becomes of one file of the plan: it is passed over, or its bytes are copied.
theorem snapshot_cons (host : RestoreHost) (faults : Nat → Option WriteFault) (dir : OsPath) (n : Overwritten)
    (io : RestoreIo) (t : RestoreTarget) (rest : List RestoreTarget) :
    ((t.file.root = .workspace → (filesOn host io.disk).readBytes t.abs = none) ∧
      ∃ n', snapshotOverwritten host faults dir n io (t :: rest) = snapshotOverwritten host faults dir n' io rest) ∨
    t.file.root = .workspace ∧ ∃ old, (filesOn host io.disk).readBytes t.abs = some old ∧
      ((writeBytes host faults io (snapshotPath dir t.file) old).1 ∧
        (∃ n', snapshotOverwritten host faults dir n io (t :: rest) =
          snapshotOverwritten host faults dir n' (writeBytes host faults io (snapshotPath dir t.file) old).2 rest) ∨
      snapshotOverwritten host faults dir n io (t :: rest) =
        (.error (.snapshot (snapshotPath dir t.file)), (writeBytes host faults io (snapshotPath dir t.file) old).2)) := by
  simp only [snapshotOverwritten]
  split
  case h_1 hr => exact .inl ⟨fun _ => hr, n, rfl⟩
  case h_2 old hr =>
    split
    case isTrue hs  => exact .inl ⟨fun hw => by simp [hs] at hw, _, rfl⟩
    case isFalse hs =>
      have hw : t.file.root = .workspace := by
        cases hroot : t.file.root
        case workspace => rfl
        case secrets   => contradiction
      refine .inr ⟨hw, old, hr, ?_⟩
      split
      case isTrue hl  => exact .inl ⟨hl, _, rfl⟩
      case isFalse hl => exact .inr rfl

-- Nothing is copied when the plan overwrites nothing.
theorem snapshot_skip (h : ∀ t ∈ plan, t.file.root = .workspace → (filesOn host io.disk).readBytes t.abs = none) :
    ∃ n', snapshotOverwritten host faults dir n io plan = (.ok n', io) := by
  induction plan generalizing n
  case nil => exact ⟨n, rfl⟩
  case cons t rest hi =>
    rw [List.forall_mem_cons] at h
    rcases snapshot_cons host faults dir n io t rest with ⟨_, n', hn⟩ | ⟨hw, old, hr, _⟩
    · rw [hn]
      exact hi h.2
    · rw [h.1 hw] at hr
      contradiction

-- Where the copy of a file goes.
def copyPlace (host : RestoreHost) (dir : OsPath) (t : RestoreTarget) : List OsStr :=
  (snapshotPath dir t.file).place host.files.cwd

-- A file of the workspace that is there when the copies are made.
def Present (host : RestoreHost) (d₀ : FileTree OsStr (List UInt8)) (t : RestoreTarget) : Prop :=
  t.file.root = .workspace ∧ (d₀.get (t.abs.place host.files.cwd)).isSome

-- No copy is made onto a file of the plan, so that the plan finds the files as they were before.
structure Separate (host : RestoreHost) (dir : OsPath) (d₀ : FileTree OsStr (List UInt8)) (io : RestoreIo)
    (plan : List RestoreTarget) : Prop where
  copies : ∀ t ∈ plan, Present host d₀ t → ∀ u ∈ plan, u.abs.place host.files.cwd ≠ copyPlace host dir t
  same   : ∀ t ∈ plan, io.disk.get (t.abs.place host.files.cwd) = d₀.get (t.abs.place host.files.cwd)

theorem Separate.tail (h : Separate host dir d₀ io (t :: rest)) : Separate host dir d₀ io rest where
  copies u hu hp v hv := h.copies u (List.mem_cons_of_mem _ hu) hp v (List.mem_cons_of_mem _ hv)
  same u hu           := h.same u (List.mem_cons_of_mem _ hu)

theorem get_of_readBytes_filesOn {abs : OsPath} {old : List UInt8}
    (h : (filesOn host disk).readBytes abs = some old) : disk.get (abs.place host.files.cwd) = some old :=
  FsWorkspaceFiles.get_of_readBytes h

theorem Separate.present {old : List UInt8} (h : Separate host dir d₀ io (t :: rest)) (hw : t.file.root = .workspace)
    (hr : (filesOn host io.disk).readBytes t.abs = some old) : Present host d₀ t := by
  refine ⟨hw, ?_⟩
  rw [← h.same t List.mem_cons_self, get_of_readBytes_filesOn hr]
  rfl

theorem Separate.written {old : List UInt8} (h : Separate host dir d₀ io (t :: rest)) (hp : Present host d₀ t) :
    Separate host dir d₀ (writeBytes host faults io (snapshotPath dir t.file) old).2 rest where
  copies   := h.tail.copies
  same u hu := by
    rw [get_writeBytes_ne (h.copies t List.mem_cons_self hp u (List.mem_cons_of_mem _ hu))]
    exact h.tail.same u hu

end Snapshot

end RestoreWorkspace
