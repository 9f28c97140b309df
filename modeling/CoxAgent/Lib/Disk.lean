import CoxAgent.Lib.Except
import Mathlib.Data.List.Basic
import Mathlib.Data.List.Infix
import Mathlib.Data.List.Nodup
import Mathlib.Data.List.Perm.Basic

-- What is at a place: a directory, or a file with its contents.
inductive Node (β : Type)
  | dir
  | file (b : β)
deriving DecidableEq, Repr

def Node.isDir {β : Type} : Node β → Bool
  | dir    => true
  | file _ => false

-- Why a call fails.
inductive IoError
  | notFound
  | notADirectory
  | isADirectory
  | alreadyExists
  | invalidInput
  | invalidData
deriving DecidableEq, Repr

-- Directories and files at places, which are the names on the way from the root. What has something below it is a
-- directory.
structure Disk (κ β : Type) where
  entries : List (List κ × Node β)
  nodup   : (entries.map Prod.fst).Nodup
  root    : ([], .dir) ∈ entries
  closed  : ∀ p name n, (p ++ [name], n) ∈ entries → (p, .dir) ∈ entries

namespace Disk

variable {κ β : Type} [DecidableEq κ]

def get (d : Disk κ β) (p : List κ) : Option (Node β) :=
  (d.entries.find? (·.1 = p)).map Prod.snd

def isDir (d : Disk κ β) (p : List κ) : Bool :=
  (d.get p).any Node.isDir

section Get

variable {d : Disk κ β} {p q : List κ} {n : Node β}

theorem get_eq_some : d.get p = some n ↔ (p, n) ∈ d.entries := by
  rw [get, Option.map_eq_some_iff]
  constructor
  case mp  =>
    rintro ⟨e, hf, rfl⟩
    have hp : e.1 = p := by simpa using List.find?_some hf
    exact hp ▸ List.mem_of_find?_eq_some hf
  case mpr =>
    intro hm
    have hs : (d.entries.find? (·.1 = p)).isSome := List.find?_isSome.mpr ⟨(p, n), hm, by simp⟩
    obtain ⟨e, hf⟩ := Option.isSome_iff_exists.mp hs
    have hp : e.1 = p := by simpa using List.find?_some hf
    have hinj := List.inj_on_of_nodup_map d.nodup (List.mem_of_find?_eq_some hf) hm hp
    exact ⟨e, hf, congrArg Prod.snd hinj⟩

theorem isDir_iff : d.isDir p ↔ d.get p = some .dir := by
  rw [isDir, Option.any_eq_true]
  constructor
  case mp  =>
    rintro ⟨n, hn, hd⟩
    cases n
    case dir  => exact hn
    case file => contradiction
  case mpr => exact fun h => ⟨_, h, rfl⟩

theorem get_nil : d.get [] = some .dir :=
  get_eq_some.mpr d.root

theorem get_parent {name : κ} (h : (d.get (p ++ [name])).isSome) : d.get p = some .dir := by
  obtain ⟨n, hn⟩ := Option.isSome_iff_exists.mp h
  exact get_eq_some.mpr (d.closed p name n (get_eq_some.mp hn))

-- All that is above something is a directory.
theorem get_above (h : (d.get (p ++ q)).isSome) (hq : q ≠ []) : d.get p = some .dir := by
  induction q using List.reverseRecOn
  case nil                        => contradiction
  case append_singleton q name hi =>
    rw [← List.append_assoc] at h
    have hp := get_parent h
    by_cases hn : q = []
    case pos => simpa [hn] using hp
    case neg => exact hi (by simp [hp]) hn

end Get

section Put

-- Something new at a place in a directory, or another file.
def put (d : Disk κ β) (p : List κ) (name : κ) (n : Node β) : Option (Disk κ β) :=
  if h : d.isDir p ∧ !d.isDir (p ++ [name]) then
    some {
      entries := d.entries.filter (·.1 ≠ p ++ [name]) ++ [(p ++ [name], n)]
      nodup   := by
        rw [List.map_append, List.map_cons, List.map_nil, List.nodup_append_comm, List.singleton_append,
          List.nodup_cons]
        exact ⟨by simp, d.nodup.sublist (List.filter_sublist.map Prod.fst)⟩
      root    := by simp [d.root]
      closed  := by
        intro q name' m hm
        have hdir : (q, .dir) ∈ d.entries := by
          cases List.mem_append.mp hm
          case inl hm => exact d.closed q name' m (List.mem_filter.mp hm).left
          case inr hm =>
            obtain ⟨hq, -⟩ := List.append_inj' (congrArg Prod.fst (List.mem_singleton.mp hm)) rfl
            exact hq ▸ get_eq_some.mp (isDir_iff.mp h.left)
        have hne : q ≠ p ++ [name] := by
          rintro rfl
          simpa [isDir_iff.mpr (get_eq_some.mpr hdir)] using h.right
        exact List.mem_append_left _ (List.mem_filter.mpr ⟨hdir, by simpa using hne⟩)
    }
  else
    none

variable {d d' : Disk κ β} {p q : List κ} {name : κ} {n m : Node β}

theorem put_isSome : (d.put p name n).isSome ↔ d.isDir p ∧ !d.isDir (p ++ [name]) := by
  unfold put
  split
  case isTrue h  => simp [h]
  case isFalse h => simpa using h

theorem mem_put (h : d.put p name n = some d') {e : List κ × Node β} :
    e ∈ d'.entries ↔ (e ∈ d.entries ∧ e.1 ≠ p ++ [name]) ∨ e = (p ++ [name], n) := by
  unfold put at h
  split at h
  case isTrue  =>
    cases h
    simp
  case isFalse => contradiction

theorem get_put_self (h : d.put p name n = some d') : d'.get (p ++ [name]) = some n :=
  get_eq_some.mpr ((mem_put h).mpr (.inr rfl))

theorem get_put_ne (h : d.put p name n = some d') (hq : q ≠ p ++ [name]) : d'.get q = d.get q := by
  ext m
  rw [get_eq_some, get_eq_some, mem_put h]
  simp [hq]

end Put

section Calls

variable (d : Disk κ β)

def isFile (p : List κ) : Bool :=
  (d.get p).any fun n => !n.isDir

-- What is at a place, or why there is nothing.
def resolve (p : List κ) : Except IoError (Node β) :=
  match d.get p with
  | some n => .ok n
  | none   => .error (if p.inits.any d.isFile then .notADirectory else .notFound)

def read (p : List κ) : Except IoError β :=
  match d.resolve p with
  | .ok (.file b) => .ok b
  | .ok .dir      => .error .isADirectory
  | .error e      => .error e

-- The directories on the way from the first place, with the last one, are created.
def mkdirAll (d : Disk κ β) (p : List κ) : List κ → Except IoError (Disk κ β)
  | []            => .ok d
  | name :: names =>
    match d.get (p ++ [name]) with
    | some .dir      => d.mkdirAll (p ++ [name]) names
    | some (.file _) => .error (if names = [] then .alreadyExists else .notADirectory)
    | none           =>
      match d.put p name .dir with
      | some d => d.mkdirAll (p ++ [name]) names
      | none   => .error .notADirectory

-- A file is created in a directory that is there, or replaced.
def write (p : List κ) (b : β) : Except IoError (Disk κ β) :=
  if d.isDir p then
    .error .isADirectory
  else
    match p.getLast? with
    | none      => .error .isADirectory
    | some name =>
      match d.put p.dropLast name (.file b), d.resolve p.dropLast with
      | some d, _        => .ok d
      | none,   .error e => .error e
      | none,   .ok _    => .error .notADirectory

-- The name of an entry of a directory, and whether it is a directory itself.
def nameIn (p q : List κ) : Option κ :=
  q.getLast?.bind fun name => if q.dropLast = p then some name else none

def entryIn (p : List κ) (e : List κ × Node β) : Option (κ × Bool) :=
  (nameIn p e.1).map (·, e.2.isDir)

def list (p : List κ) : Except IoError (List (κ × Bool)) :=
  match d.resolve p with
  | .ok .dir      => .ok (d.entries.filterMap (entryIn p))
  | .ok (.file _) => .error .notADirectory
  | .error e      => .error e

end Calls

section Frame

variable {d d' : Disk κ β} {p q names : List κ} {b : β}

-- A call that creates directories changes nothing that was there.
theorem get_mkdirAll (h : d.mkdirAll p names = .ok d') :
    d'.get q = d.get q ∨ (d.get q = none ∧ d'.get q = some .dir ∧ p <+: q) := by
  induction names generalizing d p
  case nil =>
    cases h
    exact .inl rfl
  case cons name names hi =>
    have below (h : p ++ [name] <+: q) : p <+: q := (List.prefix_append p [name]).trans h
    rw [mkdirAll] at h
    split at h
    case h_1      => exact (hi h).imp_right fun hq => ⟨hq.left, hq.right.left, below hq.right.right⟩
    case h_2      => contradiction
    case h_3 hnew =>
      split at h
      case h_2         => contradiction
      case h_1 d₁ hput =>
        by_cases hq : q = p ++ [name]
        case pos =>
          subst hq
          refine .inr ⟨hnew, ?_, List.prefix_append ..⟩
          have hdir := get_put_self hput
          exact (hi h).elim (fun he => he.trans hdir) fun he => he.right.left
        case neg =>
          rw [← get_put_ne hput hq]
          exact (hi h).imp_right fun hq => ⟨hq.left, hq.right.left, below hq.right.right⟩

-- Directories that are there are not created.
theorem mkdirAll_append (h : d.get (p ++ names) = some .dir) (rest : List κ) :
    d.mkdirAll p (names ++ rest) = d.mkdirAll (p ++ names) rest := by
  induction names generalizing p
  case nil                => rw [List.append_nil, List.nil_append]
  case cons name names hi =>
    rw [List.append_cons] at h ⊢
    have hdir : d.get (p ++ [name]) = some .dir := by
      by_cases hn : names = []
      case pos => simpa [hn] using h
      case neg => exact get_above (h ▸ rfl) hn
    rw [List.cons_append, mkdirAll]
    simp only [hdir]
    exact hi h

theorem get_write (h : d.write p b = .ok d') (hq : q ≠ p) : d'.get q = d.get q := by
  unfold write at h
  split at h
  case isTrue  => contradiction
  case isFalse =>
    split at h
    case h_1           => contradiction
    case h_2 name hlast =>
      split at h
      case h_1 hput =>
        cases h
        have hp := List.dropLast_append_getLast? name hlast
        exact get_put_ne hput (hp.symm ▸ hq)
      all_goals contradiction

end Frame

section Alike

-- Two disks that are the same in a directory.
structure Alike (w : List κ) (d d' : Disk κ β) : Prop where
  dir  : d.get w = some .dir
  same : ∀ q, d.get (w ++ q) = d'.get (w ++ q)

variable {w : List κ} {d d' d₁ d₁' : Disk κ β} {q names : List κ} {name : κ} {n : Node β} {b : β}

theorem Alike.dir' (h : d.Alike w d') : d'.get w = some .dir := by
  have := h.same []
  rw [List.append_nil] at this
  exact this ▸ h.dir

theorem Alike.symm (h : d.Alike w d') : d'.Alike w d :=
  ⟨h.dir', fun q => (h.same q).symm⟩

theorem Alike.isDir (h : d.Alike w d') : d.isDir (w ++ q) = d'.isDir (w ++ q) := by
  rw [Disk.isDir, Disk.isDir, h.same]

theorem not_isFile_above {r : List κ} (h : d.get w = some .dir) (hr : r <+: w) : ¬d.isFile r := by
  obtain ⟨q, rfl⟩ := hr
  have hdir : d.get r = some .dir := by
    by_cases hq : q = []
    case pos => simpa [hq] using h
    case neg => exact get_above (h ▸ rfl) hq
  simp [isFile, hdir, Node.isDir]

theorem Alike.isFile {r : List κ} (h : d.Alike w d') (hr : r <+: w ++ q) : d.isFile r = d'.isFile r := by
  cases List.prefix_or_prefix_of_prefix hr (List.prefix_append w q)
  case inl hw =>
    rw [Bool.eq_false_iff.mpr (not_isFile_above h.dir hw), Bool.eq_false_iff.mpr (not_isFile_above h.dir' hw)]
  case inr hw =>
    obtain ⟨r, rfl⟩ := hw
    rw [Disk.isFile, Disk.isFile, h.same]

theorem Alike.resolve (h : d.Alike w d') : d.resolve (w ++ q) = d'.resolve (w ++ q) := by
  have hany : (w ++ q).inits.any d.isFile = (w ++ q).inits.any d'.isFile := by
    rw [Bool.eq_iff_iff, List.any_eq_true, List.any_eq_true]
    exact exists_congr fun r => and_congr_right fun hr => by rw [h.isFile ((List.mem_inits r _).mp hr)]
  rw [Disk.resolve, Disk.resolve, h.same, hany]

theorem Alike.read (h : d.Alike w d') : d.read (w ++ q) = d'.read (w ++ q) := by
  rw [Disk.read, Disk.read, h.resolve]

theorem Alike.put (h : d.Alike w d') :
    Option.Rel (Alike w) (d.put (w ++ q) name n) (d'.put (w ++ q) name n) := by
  have hsome : (d.put (w ++ q) name n).isSome = (d'.put (w ++ q) name n).isSome := by
    rw [Bool.eq_iff_iff, put_isSome, put_isSome, List.append_assoc, h.isDir, h.isDir]
  cases hput : d.put (w ++ q) name n
  case none    =>
    rw [hput, Option.isSome_none, eq_comm, Option.isSome_eq_false_iff, Option.isNone_iff_eq_none] at hsome
    rw [hsome]
    exact .none
  case some d₁ =>
    rw [hput, Option.isSome_some, eq_comm, Option.isSome_iff_exists] at hsome
    obtain ⟨d₁', hput'⟩ := hsome
    rw [hput']
    have hsame (r : List κ) : d₁.get (w ++ r) = d₁'.get (w ++ r) := by
      by_cases hr : w ++ r = w ++ q ++ [name]
      case pos => rw [hr, get_put_self hput, get_put_self hput']
      case neg => rw [get_put_ne hput hr, get_put_ne hput' hr, h.same]
    refine .some ⟨?_, hsame⟩
    rw [get_put_ne hput (fun he => ?_), h.dir]
    simpa using congrArg List.length he

theorem Alike.mkdirAll (h : d.Alike w d') :
    Except.Rel (Alike w) (d.mkdirAll (w ++ q) names) (d'.mkdirAll (w ++ q) names) := by
  induction names generalizing d d' q
  case nil                => exact .ok h
  case cons name names hi =>
    have hsame := h.same (q ++ [name])
    rw [← List.append_assoc] at hsame
    rw [Disk.mkdirAll, Disk.mkdirAll, ← hsame]
    cases d.get (w ++ q ++ [name])
    case some n =>
      cases n
      case dir  =>
        rw [List.append_assoc]
        exact hi h
      case file => exact .error _
    case none   =>
      have hput : Option.Rel (Alike w) (d.put (w ++ q) name .dir) (d'.put (w ++ q) name .dir) := h.put
      generalize d.put (w ++ q) name .dir = x, d'.put (w ++ q) name .dir = x' at hput
      cases hput
      case none    => exact .error _
      case some h₁ =>
        dsimp only
        rw [List.append_assoc]
        exact hi h₁

theorem Alike.write (h : d.Alike w d') : Except.Rel (Alike w) (d.write (w ++ q) b) (d'.write (w ++ q) b) := by
  rw [Disk.write, Disk.write, ← h.isDir]
  split
  case isTrue  => exact .error _
  case isFalse =>
    obtain rfl | ⟨q, name, rfl⟩ := q.eq_nil_or_concat
    case inl =>
      have hdir := isDir_iff.mpr h.dir
      simp_all
    case inr =>
      rw [List.concat_eq_append, ← List.append_assoc, List.getLast?_concat, List.dropLast_concat, h.resolve]
      have hput : Option.Rel (Alike w) (d.put (w ++ q) name (.file b)) (d'.put (w ++ q) name (.file b)) := h.put
      dsimp only
      generalize d.put (w ++ q) name (.file b) = x, d'.put (w ++ q) name (.file b) = x' at hput
      cases hput
      case some h₁ => exact .ok h₁
      case none    =>
        cases d'.resolve (w ++ q)
        case ok    => exact .error _
        case error => exact .error _

theorem nameIn_eq_some {p : List κ} : nameIn p q = some name ↔ q = p ++ [name] := by
  obtain rfl | ⟨q, name', rfl⟩ := q.eq_nil_or_concat
  case inl => simp [nameIn]
  case inr =>
    simp only [nameIn, List.concat_eq_append, List.getLast?_concat, List.dropLast_concat, Option.bind_some,
      Option.ite_none_right_eq_some, Option.some_inj]
    constructor
    case mp  =>
      rintro ⟨rfl, rfl⟩
      rfl
    case mpr =>
      intro hq
      obtain ⟨rfl, hname⟩ := List.append_inj' hq rfl
      exact ⟨rfl, List.singleton_inj.mp hname⟩

theorem entryIn_eq_some {p : List κ} {e : List κ × Node β} {x : κ × Bool} :
    entryIn p e = some x ↔ e.1 = p ++ [x.1] ∧ e.2.isDir = x.2 := by
  rw [entryIn, Option.map_eq_some_iff]
  constructor
  case mp  =>
    rintro ⟨name, hname, rfl⟩
    exact ⟨nameIn_eq_some.mp hname, rfl⟩
  case mpr => exact fun ⟨hp, hd⟩ => ⟨x.1, nameIn_eq_some.mpr hp, by rw [hd]⟩

theorem Alike.entry {x : κ × Bool} {e : List κ × Node β} (h : d.Alike w d') (he : e ∈ d.entries)
    (hx : e.1 = w ++ q ++ [x.1] ∧ e.2.isDir = x.2) :
    ∃ e' ∈ d'.entries, e'.1 = w ++ q ++ [x.1] ∧ e'.2.isDir = x.2 := by
  obtain ⟨p, n⟩ := e
  obtain ⟨rfl, hn⟩ : p = w ++ q ++ [x.1] ∧ n.isDir = x.2 := hx
  rw [← get_eq_some, List.append_assoc, h.same, get_eq_some, ← List.append_assoc] at he
  exact ⟨_, he, rfl, hn⟩

theorem nodup_entriesIn {p : List κ} : (d.entries.filterMap (entryIn p)).Nodup := by
  refine List.Nodup.of_map Prod.fst ?_
  -- Entries of one name in a directory are at one place.
  have hfst : (d.entries.filterMap (entryIn p)).map Prod.fst = (d.entries.map Prod.fst).filterMap (nameIn p) := by
    rw [List.map_filterMap, List.filterMap_map]
    refine List.filterMap_congr fun e _ => ?_
    rw [entryIn, Option.map_map]
    exact Option.map_id'
  rw [hfst]
  refine d.nodup.filterMap fun q q' name hq hq' => ?_
  rw [nameIn_eq_some.mp hq, nameIn_eq_some.mp hq']

-- The names in a directory come in any order.
theorem Alike.list (h : d.Alike w d') :
    Except.Rel List.Perm (d.list (w ++ q)) (d'.list (w ++ q)) := by
  rw [Disk.list, Disk.list, h.resolve]
  cases d'.resolve (w ++ q)
  case error => exact .error _
  case ok n  =>
    cases n
    case file => exact .error _
    case dir  =>
      refine .ok ((List.perm_ext_iff_of_nodup nodup_entriesIn nodup_entriesIn).mpr fun x => ?_)
      simp only [List.mem_filterMap, entryIn_eq_some]
      constructor
      case mp  => exact fun ⟨e, he, hx⟩ => h.entry he hx
      case mpr => exact fun ⟨e, he, hx⟩ => h.symm.entry he hx

theorem get_above_dropLast (h : d.get w = some .dir) : d.get w.dropLast = some .dir := by
  obtain rfl | ⟨w, name, rfl⟩ := w.eq_nil_or_concat
  case inl => exact get_nil
  case inr =>
    rw [List.concat_eq_append] at h
    rw [List.concat_eq_append, List.dropLast_concat]
    exact @get_parent _ _ _ _ _ name (h ▸ rfl)

-- The directories above something in a directory are created in it.
theorem mkdirAll_above (h : d.get w = some .dir) :
    d.mkdirAll [] (w ++ q).dropLast = d.mkdirAll w q.dropLast := by
  by_cases hq : q = []
  case pos =>
    have hs : d.mkdirAll [] (w.dropLast ++ []) = d.mkdirAll ([] ++ w.dropLast) [] :=
      mkdirAll_append (get_above_dropLast h) []
    simpa [hq, mkdirAll] using hs
  case neg =>
    rw [List.dropLast_append_of_ne_nil hq]
    exact mkdirAll_append h q.dropLast

end Alike

end Disk
