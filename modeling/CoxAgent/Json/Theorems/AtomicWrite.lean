import CoxAgent.Json.Store
import CoxAgent.Lib.Run
import Mathlib.Data.Fintype.Basic

namespace Target

theorem file_inj {t t' : Target} (h : t.file = t'.file) : t = t' := by
  revert h
  cases t <;> cases t' <;> decide

theorem file_ne_stateLock (t : Target) : t.file ≠ ".state.lock" := by
  cases t <;> decide

theorem file_ne_tmpFile (t : Target) (pid : Nat) : t.file ≠ tmpFile pid := by
  intro h
  have hl := congrArg (fun s : String => s.toList.take 8) h
  cases t <;> simp [file, tmpFile] at hl

end Target

namespace Stage

-- The temporary file that the thread has open.
def inode : Stage → Option Nat
  | opened _ _ inode | filled _ _ inode => some inode
  | _                                   => none

-- The thread is about to open the temporary file.
def ready : Stage → Bool
  | locked .. => true
  | _         => false

-- What the open file has, for a write among those that have begun.
def Holds (begun : List Write) (bytes : Bytes) : Stage → Prop
  | opened w _ _ => w ∈ begun ∧ bytes = []
  | filled w _ _ => w ∈ begun ∧ bytes = w.bytes
  | _            => True

end Stage

namespace Writers

variable {ι : Type} {pid : Nat} {fs₀ : Fs ι Bytes} {d : Writers ι}

-- Every file has the bytes that it had in the beginning or those of a write to it.
def Intact (fs₀ : Fs ι Bytes) (d : Writers ι) : Prop :=
  ∀ t b, d.fs.read t.file = some b → fs₀.read t.file = some b ∨ ⟨t, b⟩ ∈ d.begun

-- Nobody opens the temporary file while somebody else has it open, and the outbox takes its lock on a
-- spool that is there.
def Sound (d : Writers ι) : WriterEvent ι → Prop
  | .start _ target => target = .outbox → (d.fs.entry target.file).isSome
  | .truncate i _   => (d.stage i).ready → ∀ j, (d.stage j).inode = none
  | _               => True

instance [Fintype ι] (d : Writers ι) : (event : WriterEvent ι) → Decidable (d.Sound event)
  | .start ..    => inferInstanceAs (Decidable (_ → _))
  | .truncate .. => inferInstanceAs (Decidable (_ → ∀ _, _ = none))
  | .lock _      => instDecidableTrue
  | .fill _      => instDecidableTrue
  | .rename _    => instDecidableTrue
  | .unlock _    => instDecidableTrue

structure Inv (pid : Nat) (fs₀ : Fs ι Bytes) (d : Writers ι) : Prop where
  valid  : d.fs.Valid
  alone  : ∀ i j, (d.stage i).inode.isSome → (d.stage j).inode.isSome → i = j
  tmp    : ∀ i n, (d.stage i).inode = some n → d.fs.entry (tmpFile pid) = some n
  holds  : ∀ i n, (d.stage i).inode = some n → (d.stage i).Holds d.begun (d.fs.data n)
  intact : Intact fs₀ d

theorem Inv.init (h : fs₀.Valid) : Inv pid fs₀ ({ fs := fs₀ } : Writers ι) where
  valid  := h
  alone  := by simp [Stage.inode]
  tmp    := by simp [Stage.inode]
  holds  := by simp [Stage.inode]
  intact := fun _ _ hb => .inl hb

theorem Inv.other (h : Inv pid fs₀ d) {i : ι} (hi : (d.stage i).inode.isSome) (j : ι) (hj : j ≠ i) :
    (d.stage j).inode = none := by
  by_contra hc
  exact hj (h.alone j i (Option.isSome_iff_ne_none.mpr hc) hi)

variable [DecidableEq ι]

-- A thread goes on with the temporary file closed, and the files are left alone.
theorem Inv.goOn (h : Inv pid fs₀ d) {i : ι} {s : Stage} {fs : Fs ι Bytes} (hs : s.inode = none)
    (hvalid : fs.Valid) (htmp : fs.entry (tmpFile pid) = d.fs.entry (tmpFile pid))
    (hdata : ∀ n, d.fs.entry (tmpFile pid) = some n → fs.data n = d.fs.data n)
    (hread : ∀ t : Target, fs.read t.file = d.fs.read t.file) :
    Inv pid fs₀ { d with fs, stage := Function.update d.stage i s } := by
  have other {j : ι} {n : Nat} (hj : (Function.update d.stage i s j).inode = some n) :
      j ≠ i ∧ (d.stage j).inode = some n := by
    by_cases hji : j = i
    case pos => simp [hji, hs] at hj
    case neg => exact ⟨hji, by simpa [hji] using hj⟩
  exact {
    valid  := hvalid
    alone  := by
      intro j k hj hk
      obtain ⟨n, hn⟩ := Option.isSome_iff_exists.mp hj
      obtain ⟨m, hm⟩ := Option.isSome_iff_exists.mp hk
      exact h.alone j k (by simp [(other hn).2]) (by simp [(other hm).2])
    tmp    := by
      intro j n hj
      exact htmp.trans (h.tmp j n (other hj).2)
    holds  := by
      intro j n hj
      have ⟨hji, hn⟩ := other hj
      simp only [Function.update_of_ne hji]
      rw [hdata n (h.tmp j n hn)]
      exact h.holds j n hn
    intact := by
      intro t b hb
      exact h.intact t b ((hread t) ▸ hb)
  }

theorem Inv.start (h : Inv pid fs₀ d) (i : ι) (target : Target)
    (hs : d.Sound (.start i target)) : Inv pid fs₀ (d.step pid (.start i target)) := by
  simp only [Writers.step]
  split
  case h_2 => exact h
  case h_1 =>
    have hlock (hf : target.lockFile = ".state.lock") :
        Inv pid fs₀ { d with
          fs    := (d.fs.openCreate target.lockFile []).2
          stage := Function.update d.stage i
            (.waiting target (d.fs.openCreate target.lockFile []).1) } := by
      rw [hf]
      have htmp : tmpFile pid ≠ ".state.lock" := by
        intro h
        have hl := congrArg (fun s : String => s.toList.take 8) h
        simp [tmpFile] at hl
      exact h.goOn rfl h.valid.openCreate (Fs.entry_openCreate_ne htmp)
        (fun n hn => Fs.data_openCreate (h.valid.used hn))
        (fun t => h.valid.read_openCreate_ne t.file_ne_stateLock)
    cases target
    case state  => exact hlock rfl
    case coord  => exact hlock rfl
    case outbox =>
      have he : (d.fs.openCreate Target.outbox.lockFile []).2 = d.fs :=
        Fs.openCreate_of_isSome (hs rfl)
      exact h.goOn rfl h.valid.openCreate (by rw [he]) (by simp [he]) (by simp [he])

theorem Inv.lock (h : Inv pid fs₀ d) (i : ι) : Inv pid fs₀ (d.step pid (.lock i)) := by
  simp only [Writers.step]
  split
  case h_2 => exact h
  case h_1 =>
    split
    case isFalse => exact h
    case isTrue  => exact h.goOn rfl h.valid.lock rfl (fun _ _ => rfl) (fun _ => rfl)

theorem Inv.unlock (h : Inv pid fs₀ d) (i : ι) : Inv pid fs₀ (d.step pid (.unlock i)) := by
  simp only [Writers.step]
  split
  case h_1 => exact h.goOn rfl h.valid.unlock rfl (fun _ _ => rfl) (fun _ => rfl)
  case h_2 => exact h

-- A thread goes on with the temporary file `n` open, which nobody else has open.
theorem Inv.write (h : Inv pid fs₀ d) {i : ι} {s : Stage} {fs : Fs ι Bytes} {n : Nat}
    {begun : List Write} (hother : ∀ j ≠ i, (d.stage j).inode = none) (hvalid : fs.Valid)
    (hs : s.inode = some n) (htmp : fs.entry (tmpFile pid) = some n)
    (hholds : s.Holds begun (fs.data n)) (hbegun : d.begun ⊆ begun)
    (hread : ∀ t : Target, fs.read t.file = d.fs.read t.file) :
    Inv pid fs₀ { fs, stage := Function.update d.stage i s, begun } := by
  have self {j : ι} {m : Nat} (hj : (Function.update d.stage i s j).inode = some m) :
      j = i ∧ m = n := by
    by_cases hji : j = i
    case pos =>
      subst hji
      simpa [hs, eq_comm] using hj
    case neg => simp [hji, hother j hji] at hj
  exact {
    valid  := hvalid
    alone  := by
      intro j k hj hk
      obtain ⟨m, hm⟩ := Option.isSome_iff_exists.mp hj
      obtain ⟨m', hm'⟩ := Option.isSome_iff_exists.mp hk
      exact (self hm).1.trans (self hm').1.symm
    tmp    := by
      intro j m hj
      obtain ⟨_, rfl⟩ := self hj
      exact htmp
    holds  := by
      intro j m hj
      obtain ⟨rfl, rfl⟩ := self hj
      simpa using hholds
    intact := by
      intro t b hb
      exact (h.intact t b (hread t ▸ hb)).imp_right fun hm => hbegun hm
  }

theorem Inv.truncate (h : Inv pid fs₀ d) (i : ι) (bytes : Bytes)
    (hs : d.Sound (.truncate i bytes)) : Inv pid fs₀ (d.step pid (.truncate i bytes)) := by
  simp only [Writers.step]
  split
  case h_2 => exact h
  case h_1 target lock hp =>
    have hnone := hs (by simp [hp, Stage.ready])
    refine h.write (fun j _ => hnone j) h.valid.openTruncate rfl Fs.entry_openTruncate ?_ ?_ ?_
    · exact ⟨List.mem_append_right _ List.mem_cons_self, Fs.data_openTruncate⟩
    · exact List.subset_append_left _ _
    · exact fun t => h.valid.read_openTruncate_ne (t.file_ne_tmpFile pid)

theorem Inv.fill (h : Inv pid fs₀ d) (i : ι) : Inv pid fs₀ (d.step pid (.fill i)) := by
  simp only [Writers.step]
  split
  case h_2 => exact h
  case h_1 w lock n hp =>
    have hn : (d.stage i).inode = some n := by simp [hp, Stage.inode]
    have htmp := h.tmp i n hn
    have hholds := h.holds i n hn
    simp only [hp, Stage.Holds] at hholds
    refine h.write (h.other (by simp [hn])) h.valid.modify rfl htmp ?_ (List.Subset.refl _) ?_
    · exact ⟨hholds.1, by simp [Fs.modify, hholds.2, overlay]⟩
    · exact fun t => h.valid.read_modify_ne htmp (t.file_ne_tmpFile pid)

theorem Inv.rename (h : Inv pid fs₀ d) (i : ι) : Inv pid fs₀ (d.step pid (.rename i)) := by
  simp only [Writers.step]
  split
  case h_2 => exact h
  case h_1 w lock n hp =>
    have hn : (d.stage i).inode = some n := by simp [hp, Stage.inode]
    have htmp := h.tmp i n hn
    have hholds := h.holds i n hn
    simp only [hp, Stage.Holds] at hholds
    obtain ⟨fs, hfs⟩ : ∃ fs, d.fs.rename (tmpFile pid) w.target.file = some fs := by
      simp [Fs.rename, htmp]
    have hnone (j : ι) : (Function.update d.stage i (.renamed lock) j).inode = none := by
      by_cases hji : j = i
      case pos => simp [hji, Stage.inode]
      case neg => simpa [hji] using h.other (by simp [hn]) j hji
    simp only [hfs, Option.getD_some]
    exact {
      valid  := h.valid.rename hfs
      alone  := by simp [hnone]
      tmp    := by simp [hnone]
      holds  := by simp [hnone]
      intact := by
        intro t b hb
        by_cases ht : t = w.target
        case pos =>
          subst ht
          have hr := @Fs.read_rename _ _ d.fs n (tmpFile pid) w.target.file htmp
          simp only [hfs, Option.map_some, Option.some.injEq] at hr
          rw [hr] at hb
          cases hb
          exact .inr (hholds.2 ▸ hholds.1)
        case neg =>
          have hr := @Fs.read_rename_ne _ _ d.fs n (tmpFile pid) w.target.file t.file htmp
            (t.file_ne_tmpFile pid) (fun he => ht (Target.file_inj he))
          simp only [hfs, Option.map_some, Option.some.injEq] at hr
          exact h.intact t b (hr ▸ hb)
    }

theorem Inv.step (h : Inv pid fs₀ d) (event : WriterEvent ι) (hs : d.Sound event) :
    Inv pid fs₀ (d.step pid event) := by
  cases event
  case start    => exact h.start _ _ hs
  case lock     => exact h.lock _
  case truncate => exact h.truncate _ _ hs
  case fill     => exact h.fill _
  case rename   => exact h.rename _
  case unlock   => exact h.unlock _

-- In every interleaving in which the temporary file is open only once at a time, no file is ever mixed
-- with the bytes of another one.
theorem intact_of_sound {events : List (WriterEvent ι)} (hv : fs₀.Valid)
    (h : Run.Meets (step pid) Sound { fs := fs₀ } events) : Intact fs₀ (run pid fs₀ events) :=
  (Run.inv (fun _ e hs h => Inv.step h e hs) h (.init hv)).intact

-- A directory with an empty spool, and what is written to it.
def spoolBytes : Bytes :=
  "\x7b\x7d".toUTF8.toList

def stateBytes : Bytes :=
  "\x7b\"tickets\":[]\x7d".toUTF8.toList

def directory : Fs Bool Bytes where
  entry  := fun path => if path = "outbox.json" then some 0 else none
  data   := fun _ => spoolBytes
  holder := fun _ => none
  fresh  := 1

theorem directory_valid : directory.Valid where
  used := by
    intro p n h
    simp only [directory] at h ⊢
    split at h <;> simp_all
  inj  := by
    intro p q n hp hq
    simp only [directory] at hp hq
    split at hp <;> split at hq <;> simp_all

-- A save and an outbox operation, which begin together. The save renames before the other one opens
-- the temporary file.
def taken : List (WriterEvent Bool) := [
  .start false .state, .start true .outbox, .lock false, .lock true,
  .truncate false stateBytes, .fill false, .rename false,
  .truncate true spoolBytes, .fill true, .rename true, .unlock false, .unlock true
]

theorem intact_taken :
    Intact directory (run 1 directory taken) ∧
    (run 1 directory taken).fs.read "state.json" = some stateBytes :=
  ⟨intact_of_sound directory_valid (by decide +kernel), by decide +kernel⟩

-- Both have the same temporary file open.
def shared : List (WriterEvent Bool) := [
  .start false .state, .start true .outbox, .lock false, .lock true,
  .truncate false stateBytes, .truncate true spoolBytes, .fill false, .fill true, .rename false
]

def mixedBytes : Bytes :=
  "\x7b\x7dtickets\":[]\x7d".toUTF8.toList

theorem not_intact_shared :
    (run 1 directory shared).fs.read "state.json" = some mixedBytes ∧
    ¬Intact directory (run 1 directory shared) := by
  have hr : (run 1 directory shared).fs.read "state.json" = some mixedBytes := by
    decide +kernel
  refine ⟨hr, fun h => ?_⟩
  cases h .state _ hr
  case inl h => exact absurd h (by decide +kernel)
  case inr h => exact absurd h (by decide +kernel)

end Writers

variable {J : Type} {c : Codec J} {dir : StateDir J}

theorem parseChecked_ok {bytes : J} {s : ProjectState} :
    parseChecked c bytes = .ok s ↔
      c.toState bytes = .ok s ∧ s.schemaVersion ≤ schemaVersionSupported := by
  simp only [parseChecked]
  split
  case h_1 e he => simp [he]
  case h_2 s' hs =>
    split
    case isTrue hv =>
      simp only [reduceCtorEq, hs, Except.ok.injEq, false_iff, not_and]
      rintro rfl
      omega
    case isFalse hv =>
      simp only [hs, Except.ok.injEq]
      constructor
      · rintro rfl
        exact ⟨rfl, by omega⟩
      · exact And.left

namespace JsonStateStore

-- A document that this build does not understand, in the state file.
structure Newer (c : Codec J) (dir : StateDir J) (s : ProjectState) : Prop where
  parses : dir.state.map c.toState = some (.ok s)
  newer  : s.schemaVersion > schemaVersionSupported

-- A backup that the recovery can use.
def Usable (c : Codec J) (bytes : J) : Prop :=
  ∃ s, c.toState bytes = .ok s ∧ s.schemaVersion ≤ schemaVersionSupported

-- The newer document is refused and stays in place, whatever the callers do.
structure Guarded (c : Codec J) (dir : StateDir J) : Prop where
  refused : ∃ e, load c dir = .error e
  kept    : ∀ ops : List JsonOp, (ops.foldl (JsonOp.step c) dir).state = dir.state

theorem recoverFromBackup_eq_none :
    recoverFromBackup c dir = none ↔ ∀ file ∈ dir.backups, ¬Usable c file.2 := by
  have hm (file : String × J) : file ∈ (sorted dir.backups).reverse ↔ file ∈ dir.backups := by
    rw [List.mem_reverse, sorted, List.mem_mergeSort]
  have hu (bytes : J) : (parseChecked c bytes).toOption = none ↔ ¬Usable c bytes := by
    simp only [Usable, ← parseChecked_ok]
    cases parseChecked c bytes <;> simp [Except.toOption]
  simp only [recoverFromBackup, List.findSome?_eq_none_iff, hm, hu]

-- The version check takes the same way as a file that does not parse.
theorem load_newer {s : ProjectState} (h : Newer c dir s) :
    (∃ e, load c dir = .error e) ↔ recoverFromBackup c dir = none := by
  obtain ⟨bytes, hb, hs⟩ := Option.map_eq_some_iff.mp h.parses
  have hp : ∃ e, parseChecked c bytes = .error e := by
    simp [parseChecked, hs, h.newer]
  obtain ⟨e, he⟩ := hp
  simp only [load, hb, he]
  split <;> simp_all

-- A caller whose load fails writes nothing.
theorem step_of_load {e : PortError} (h : load c dir = .error e) (o : JsonOp) :
    o.step c dir = dir := by
  cases o <;> simp [JsonOp.step, loadThenSave, claimTicket, h]

theorem run_of_load {e : PortError} (h : load c dir = .error e) (ops : List JsonOp) :
    ops.foldl (JsonOp.step c) dir = dir := by
  induction ops
  case nil          => rfl
  case cons o ops hi => rw [List.foldl_cons, step_of_load h, hi]

-- The newer document is safe iff there is no backup of an older one.
theorem guarded_iff_unusable {s : ProjectState} (h : Newer c dir s) :
    Guarded c dir ↔ ∀ file ∈ dir.backups, ¬Usable c file.2 := by
  rw [← recoverFromBackup_eq_none, ← load_newer h]
  constructor
  case mp  => exact Guarded.refused
  case mpr =>
    intro hr
    have ⟨e, he⟩ := hr
    exact ⟨hr, fun ops => by rw [run_of_load he]⟩

-- A directory whose state was written by a newer build.
def upgraded (backups : List (String × Doc)) : StateDir Doc where
  state   := some (.state { schemaVersion := 2, «alias» := "NEW" })
  backups := backups

theorem newer_upgraded (backups : List (String × Doc)) :
    Newer .plain (upgraded backups) { schemaVersion := 2, «alias» := "NEW" } :=
  ⟨rfl, by decide⟩

theorem guarded_upgraded :
    Guarded .plain (upgraded [("state-1.json", .state { schemaVersion := 2 })]) := by
  apply (guarded_iff_unusable (newer_upgraded _)).mpr
  simp [upgraded, Usable, Codec.plain, schemaVersionSupported]

-- One backup from before the upgrade is enough to lose the newer document.
def downgraded : StateDir Doc :=
  upgraded [("state-1.json", .state { «alias» := "OLD" })]

theorem load_downgraded : load .plain downgraded = .ok { «alias» := "OLD" } := by
  simp [load, downgraded, upgraded, parseChecked, Codec.plain, recoverFromBackup, sorted,
    Except.toOption, schemaVersionSupported]

theorem not_guarded_downgraded :
    Newer .plain downgraded { schemaVersion := 2, «alias» := "NEW" } ∧
    load .plain downgraded = .ok { «alias» := "OLD" } ∧
    (loadThenSave .plain id 2 downgraded).2.state = some (.state { «alias» := "OLD" }) ∧
    ¬Guarded .plain downgraded := by
  refine ⟨newer_upgraded _, load_downgraded, ?_, fun h => ?_⟩
  · have hg : gateSave { «alias» := "OLD" } = .ok { «alias» := "OLD" } := by rfl
    simp only [loadThenSave, load_downgraded, id_eq, writeLocked, hg]
    rfl
  · have ⟨e, he⟩ := h.refused
    simp [load_downgraded] at he

end JsonStateStore
