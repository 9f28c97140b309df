import CoxAgent.Backup.Theorems.Complete
import CoxAgent.Backup.Theorems.Stages

namespace RestoreWorkspace

variable {gitRepo : String → Option String} {sha256 : ByteArray → Digest} {now : String} {host : RestoreHost}
variable {faults : Nat → Option WriteFault} {req : RestoreRequest} {load : Except String WorkspaceArchive}
variable {plan : List RestoreTarget} {q : List OsStr} {bytes : List UInt8}

section Defs

-- A lock file that the check for a running hub creates.
def Created (host : RestoreHost) (plan : List RestoreTarget) (place : List OsStr) : Prop :=
  Missing host place ∧ ∃ lock ∈ tried host (locks plan).keys, lock.place host.files.cwd = place

def Running (host : RestoreHost) (plan : List RestoreTarget) : Prop :=
  ∃ lock ∈ (locks plan).keys, Held host (lock.place host.files.cwd)

-- The restore gets to the part that writes.
def Proceeds (host : RestoreHost) (req : RestoreRequest) (plan : List RestoreTarget) : Prop :=
  ¬req.dryRun ∧ ¬Running host plan ∧ (req.force ∨ existingTargets host.files req.hubDir = [])

-- What a restore does to the files that were there before.
structure Harmless (host : RestoreHost) (now : String) (req : RestoreRequest) (load : Except String WorkspaceArchive)
    (result : Except RestoreError RestoreOutcome × FileTree OsStr (List UInt8)) : Prop where
  refused     : (∃ e, result.1 = .error e ∧ e.isRefusal) ∨ req.dryRun → ∀ q, result.2.get q = host.files.disk.get q
  unforced    : ¬req.force → ∀ q bytes, host.files.disk.get q = some bytes → result.2.get q = some bytes
  inside      : ∀ q, ¬rootPlace host req .workspace <+: q → ¬rootPlace host req .secrets <+: q →
    result.2.get q = host.files.disk.get q
  snapshotted : req.force → ∀ archive, load = .ok archive → ∀ f ∈ archive.files, f.root = .workspace →
    ∀ bytes, host.files.disk.get ((target req f).place host.files.cwd) = some bytes →
      result.2.get ((target req f).place host.files.cwd) = some bytes ∨
      result.2.get ((snapshotPath (snapshotDirOf now req) f).place host.files.cwd) = some bytes

-- No lock file is created when nothing is to be written, nor one outside.
structure Quiet (host : RestoreHost) (req : RestoreRequest) (plan : List RestoreTarget) : Prop where
  quiet  : ¬Proceeds host req plan → ∀ q, ¬Created host plan q
  inside : ∀ q, Created host plan q → rootPlace host req .workspace <+: q ∨ rootPlace host req .secrets <+: q

-- The state of the machine and the plan that a restore does no harm with.
structure Spares (host : RestoreHost) (now : String) (req : RestoreRequest) (plan : List RestoreTarget) : Prop
    extends Quiet host req plan where
  copies   : Proceeds host req plan → ∀ t ∈ plan, t.file.root = .workspace →
    (host.files.disk.get (t.abs.place host.files.cwd)).isSome ∨ Created host plan (t.abs.place host.files.cwd) →
      ∀ u ∈ plan, u.abs.place host.files.cwd ≠ copyPlace host (snapshotDirOf now req) t
  unforced : Proceeds host req plan → ¬req.force → ∀ t ∈ plan,
    host.files.disk.get (t.abs.place host.files.cwd) = none ∧
    (t.file.root = .workspace → Created host plan (t.abs.place host.files.cwd) →
      host.files.disk.get (copyPlace host (snapshotDirOf now req) t) = none)
  readable : Proceeds host req plan → req.force → ∀ t ∈ plan, t.file.root = .workspace →
    (host.files.disk.get (t.abs.place host.files.cwd)).isSome → ¬host.files.denied (t.abs.place host.files.cwd)

end Defs

-- The files when the locks have been probed.
def probedDisk (host : RestoreHost) (plan : List RestoreTarget) : FileTree OsStr (List UInt8) :=
  (refuseRunningHub host host.files.disk (locks plan).keys).2

theorem probed (host : RestoreHost) (plan : List RestoreTarget) :
    Probed host (tried host (locks plan).keys) (probedDisk host plan) :=
  Probed.init.refuse fun _ => id

theorem get_probedDisk (host : RestoreHost) (plan : List RestoreTarget) (q : List OsStr) :
    (probedDisk host plan).get q = host.files.disk.get q ∨
    (probedDisk host plan).get q = some [] ∧ Created host plan q := by
  rcases probed host plan q with h | ⟨h, hm, hl⟩
  · exact .inl h
  · exact .inr ⟨h, hm, hl⟩

theorem Created.get_isSome (h : Created host plan q) : ((probedDisk host plan).get q).isSome := by
  obtain ⟨hm, lock, hl, rfl⟩ := h
  exact get_isSome_refuse_of_missing Probed.init (fun _ => id) hl hm

theorem refuse_iff_running :
    (refuseRunningHub host host.files.disk (locks plan).keys).1 = .ok () ↔ ¬Running host plan := by
  rw [refuseRunningHub_ok Probed.init fun _ => id]
  simp [Running]

theorem existing_probed :
    existingTargets (filesOn host (probedDisk host plan)) req.hubDir = [] ↔
      existingTargets host.files req.hubDir = [] := by
  refine existingTargets_probed (probed host plan) fun lock hl => ?_
  obtain ⟨t, _, _, ht⟩ := mem_locks.mp (tried_subset _ _ hl)
  obtain ⟨dir, _, _, hp⟩ := place_lock host ht
  exact ⟨_, hp⟩

-- A restore either ends with the files as they were probed or gets to the part that writes.
theorem run_cases (gitRepo : String → Option String) (now : String) (host : RestoreHost)
    (faults : Nat → Option WriteFault) (req : RestoreRequest) (plan : List RestoreTarget) :
    ¬Proceeds host req plan ∧ (run gitRepo now host faults req plan).2 = probedDisk host plan ∧
      (req.dryRun ∨ ∃ e, (run gitRepo now host faults req plan).1 = .error e ∧ e.isRefusal) ∨
    Proceeds host req plan ∧
      run gitRepo now host faults req plan = overwrite gitRepo now host faults req plan (probedDisk host plan) := by
  have hrun : (refuseRunningHub host host.files.disk (locks plan).keys).1 = .ok () ↔ ¬Running host plan :=
    refuse_iff_running
  have hex : existingTargets (filesOn host (probedDisk host plan)) req.hubDir = [] ↔
      existingTargets host.files req.hubDir = [] := existing_probed
  unfold probedDisk at hex ⊢
  simp only [run]
  split
  case h_1 e he =>
    have hr : Running host plan := by
      by_contra hn
      rw [hrun.mpr hn] at he
      cases he
    obtain ⟨lock, rfl⟩ := error_refuse he
    exact .inl ⟨fun hp => hp.2.1 hr, rfl, .inr ⟨_, rfl, rfl⟩⟩
  case h_2 hok =>
    have hr := hrun.mp hok
    split
    case isTrue hne =>
      rw [Bool.and_eq_true, Bool.not_eq_true', List.isEmpty_eq_false_iff] at hne
      refine .inl ⟨fun hp => ?_, rfl, .inr ⟨_, rfl, rfl⟩⟩
      rcases hp.2.2 with hf | he
      · simp [hf] at hne
      · exact hne.1 (hex.mpr he)
    case isFalse hne =>
      split
      case isTrue hd  => exact .inl ⟨fun hp => hp.1 hd, rfl, .inl hd⟩
      case isFalse hd =>
        refine .inr ⟨⟨hd, hr, ?_⟩, rfl⟩
        cases hf : req.force
        case true  => exact .inl rfl
        case false =>
          refine .inr (hex.mp ?_)
          simpa [hf] using hne

section

variable {d₀ : FileTree OsStr (List UInt8)}

end

section Hosts

open BackupWorkspace (archiveOf fileAt utf8 validate_archiveOf)

def stamp : String := "2026-09-01T00:00:00Z"

def restored (host : RestoreHost) (faults : Nat → Option WriteFault) (req : RestoreRequest)
    (archive : WorkspaceArchive) : Except RestoreError RestoreOutcome × FileTree OsStr (List UInt8) :=
  execute (fun _ => none) Sha256.digest stamp host faults req (.ok archive)

end Hosts

end RestoreWorkspace
