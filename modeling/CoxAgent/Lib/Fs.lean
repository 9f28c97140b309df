import Mathlib.Logic.Function.Basic

-- One directory of files with contents `β`, which the processes `ι` open, lock and rename. A name
-- stands for an inode, and an open file or a lock is one of the inode and not of the name.
structure Fs (ι β : Type) where
  entry  : String → Option Nat
  data   : Nat → β
  holder : Nat → Option ι
  fresh  : Nat

namespace Fs

variable {ι β : Type}

def read (fs : Fs ι β) (path : String) : Option β :=
  (fs.entry path).map fs.data

-- The name stands for a new inode.
def replace (fs : Fs ι β) (path : String) (b : β) : Fs ι β := { fs with
  entry := Function.update fs.entry path (some fs.fresh)
  data  := Function.update fs.data fs.fresh b
  fresh := fs.fresh + 1
}

def openCreate (fs : Fs ι β) (path : String) (empty : β) : Nat × Fs ι β :=
  match fs.entry path with
  | some n => (n, fs)
  | none   => (fs.fresh, fs.replace path empty)

def modify (fs : Fs ι β) (n : Nat) (f : β → β) : Fs ι β :=
  { fs with data := Function.update fs.data n (f (fs.data n)) }

def openTruncate (fs : Fs ι β) (path : String) (empty : β) : Nat × Fs ι β :=
  match fs.entry path with
  | some n => (n, fs.modify n fun _ => empty)
  | none   => (fs.fresh, fs.replace path empty)

-- The renamed file takes the place of the one with the new name.
def rename (fs : Fs ι β) (src dst : String) : Option (Fs ι β) :=
  (fs.entry src).map fun n =>
    { fs with entry := Function.update (Function.update fs.entry src none) dst (some n) }

def lock (fs : Fs ι β) (i : ι) (n : Nat) : Fs ι β :=
  { fs with holder := Function.update fs.holder n (some i) }

def unlock (fs : Fs ι β) (n : Nat) : Fs ι β :=
  { fs with holder := Function.update fs.holder n none }

variable {fs : Fs ι β} {path : String} {b : β} {i : ι} {n : Nat}

@[simp]
theorem read_replace : (fs.replace path b).read path = some b := by
  simp [read, replace]

@[simp]
theorem read_lock : (fs.lock i n).read path = fs.read path :=
  rfl

@[simp]
theorem read_unlock : (fs.unlock n).read path = fs.read path :=
  rfl

@[simp]
theorem holder_replace : (fs.replace path b).holder = fs.holder :=
  rfl

@[simp]
theorem holder_openCreate : (fs.openCreate path b).2.holder = fs.holder := by
  simp only [openCreate]
  split <;> rfl

theorem read_openCreate :
    (fs.openCreate path b).2.read path = some ((fs.read path).getD b) := by
  simp only [openCreate]
  split
  case h_1 h => simp [read, h]
  case h_2 h => simp [read, h, replace]

-- Every name stands for an inode of its own that is in use.
structure Valid (fs : Fs ι β) : Prop where
  used : ∀ {p n}, fs.entry p = some n → n < fs.fresh
  inj  : ∀ {p q n}, fs.entry p = some n → fs.entry q = some n → p = q

namespace Valid

variable {p q : String} {m : Nat} {f : β → β}

theorem replace (h : fs.Valid) : (fs.replace path b).Valid := by
  have other {p : String} {n : Nat} (hp : p ≠ path)
      (he : (fs.replace path b).entry p = some n) : fs.entry p = some n := by
    simpa [Fs.replace, hp] using he
  have self {n : Nat} (he : (fs.replace path b).entry path = some n) : n = fs.fresh := by
    simpa [Fs.replace, eq_comm] using he
  constructor
  case used =>
    intro p n he
    show n < fs.fresh + 1
    by_cases hp : p = path
    case pos => exact (self (hp ▸ he)) ▸ Nat.lt_succ_self _
    case neg => exact Nat.lt_succ_of_lt (h.used (other hp he))
  case inj =>
    intro p q n hp hq
    by_cases hp' : p = path <;> by_cases hq' : q = path
    · rw [hp', hq']
    · have := h.used (other hq' hq)
      have := self (hp' ▸ hp)
      omega
    · have := h.used (other hp' hp)
      have := self (hq' ▸ hq)
      omega
    · exact h.inj (other hp' hp) (other hq' hq)

theorem modify (h : fs.Valid) : (fs.modify n f).Valid :=
  ⟨h.used, h.inj⟩

theorem lock (h : fs.Valid) : (fs.lock i n).Valid :=
  ⟨h.used, h.inj⟩

theorem unlock (h : fs.Valid) : (fs.unlock n).Valid :=
  ⟨h.used, h.inj⟩

theorem openCreate (h : fs.Valid) : (fs.openCreate path b).2.Valid := by
  simp only [Fs.openCreate]
  split
  case h_1 => exact h
  case h_2 => exact h.replace

theorem openTruncate (h : fs.Valid) : (fs.openTruncate path b).2.Valid := by
  simp only [Fs.openTruncate]
  split
  case h_1 => exact ⟨h.used, h.inj⟩
  case h_2 => exact h.replace

theorem rename {fs' : Fs ι β} {src dst : String} (h : fs.Valid)
    (hr : fs.rename src dst = some fs') : fs'.Valid := by
  obtain ⟨n, hn, rfl⟩ := Option.map_eq_some_iff.mp hr
  have other {p : String} {m : Nat} (hp : p ≠ dst)
      (he : Function.update (Function.update fs.entry src none) dst (some n) p = some m) :
      p ≠ src ∧ fs.entry p = some m := by
    rw [Function.update_of_ne hp] at he
    by_cases hs : p = src
    case pos => simp [hs] at he
    case neg => exact ⟨hs, by simpa [hs] using he⟩
  have self {m : Nat}
      (he : Function.update (Function.update fs.entry src none) dst (some n) dst = some m) :
      m = n := by
    simpa [eq_comm] using he
  constructor
  case used =>
    intro p m he
    by_cases hp : p = dst
    case pos =>
      subst hp
      have hm := self he
      subst hm
      exact h.used hn
    case neg => exact h.used (other hp he).2
  case inj =>
    intro p q m hp hq
    by_cases hp' : p = dst <;> by_cases hq' : q = dst
    · rw [hp', hq']
    · have ⟨hs, he⟩ := other hq' hq
      exact absurd (h.inj he (self (hp' ▸ hp) ▸ hn)) hs
    · have ⟨hs, he⟩ := other hp' hp
      exact absurd (h.inj he (self (hq' ▸ hq) ▸ hn)) hs
    · exact h.inj (other hp' hp).2 (other hq' hq).2

-- The other names are not affected by what is done to one.
theorem read_replace_ne (h : fs.Valid) (hp : p ≠ path) :
    (fs.replace path b).read p = fs.read p := by
  simp only [Fs.read, Fs.replace, Function.update_of_ne hp]
  cases he : fs.entry p
  case none   => rfl
  case some n => simp [Nat.ne_of_lt (h.used he)]

theorem read_modify_ne (h : fs.Valid) (hn : fs.entry path = some n) (hp : p ≠ path) :
    (fs.modify n f).read p = fs.read p := by
  simp only [Fs.read, Fs.modify]
  cases he : fs.entry p
  case none   => rfl
  case some m =>
    have hm : m ≠ n := fun hm => hp (h.inj he (hm ▸ hn))
    simp [hm]

theorem read_openCreate_ne (h : fs.Valid) (hp : p ≠ path) :
    (fs.openCreate path b).2.read p = fs.read p := by
  simp only [Fs.openCreate]
  split
  case h_1 => rfl
  case h_2 => exact h.read_replace_ne hp

theorem read_openTruncate_ne (h : fs.Valid) (hp : p ≠ path) :
    (fs.openTruncate path b).2.read p = fs.read p := by
  simp only [Fs.openTruncate]
  split
  case h_1 hn => exact h.read_modify_ne hn hp
  case h_2    => exact h.read_replace_ne hp

end Valid

theorem openCreate_of_isSome (h : (fs.entry path).isSome) : (fs.openCreate path b).2 = fs := by
  obtain ⟨n, hn⟩ := Option.isSome_iff_exists.mp h
  simp [openCreate, hn]

theorem entry_openCreate_ne {p : String} (h : p ≠ path) :
    (fs.openCreate path b).2.entry p = fs.entry p := by
  simp only [openCreate]
  split
  case h_1 => rfl
  case h_2 => simp [replace, h]

theorem data_openCreate {m : Nat} (h : m < fs.fresh) :
    (fs.openCreate path b).2.data m = fs.data m := by
  simp only [openCreate]
  split
  case h_1 => rfl
  case h_2 => simp [replace, Nat.ne_of_lt h]

theorem entry_openTruncate :
    (fs.openTruncate path b).2.entry path = some (fs.openTruncate path b).1 := by
  simp only [openTruncate]
  split
  case h_1 hn => exact hn
  case h_2    => simp [replace]

theorem data_openTruncate :
    (fs.openTruncate path b).2.data (fs.openTruncate path b).1 = b := by
  simp only [openTruncate]
  split
  case h_1 => simp [modify]
  case h_2 => simp [replace]

theorem read_rename {src dst : String} (h : fs.entry src = some n) :
    (fs.rename src dst).map (·.read dst) = some (some (fs.data n)) := by
  simp [rename, h, read]

theorem read_rename_ne {src dst p : String} (h : fs.entry src = some n) (hs : p ≠ src)
    (hd : p ≠ dst) : (fs.rename src dst).map (·.read p) = some (fs.read p) := by
  simp [rename, h, read, hs, hd]

end Fs
