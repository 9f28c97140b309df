import CoxAgent.Outbox.Theorems.Leases
import Mathlib.Data.Fintype.Basic

open Completed

namespace Phase

-- The inode that a process asks the lock of.
def wants : Phase → Option Nat
  | waiting _ inode => some inode
  | _               => none

-- The inode that a process has locked to replace the file. After that the lock no longer matters.
def critical : Phase → Option Nat
  | locked _ inode | loaded _ inode _ => some inode
  | _                                 => none

-- A process that is about to replace the file shortens no lease.
def KeepsLeases (now : Int) : Phase → Prop
  | loaded op _ spool => op.KeepsLeases now spool
  | _                 => True

instance (now : Int) : (p : Phase) → Decidable (p.KeepsLeases now)
  | idle              => instDecidableTrue
  | waiting ..        => instDecidableTrue
  | locked ..         => instDecidableTrue
  | written ..        => instDecidableTrue
  | loaded op _ spool => inferInstanceAs (Decidable (op.KeepsLeases now spool))

theorem holds_of_critical {p : Phase} {n : Nat} (h : p.critical = some n) : p.holds = some n := by
  cases p <;> simp_all [critical, holds]

end Phase

namespace SpoolDir

variable {ι : Type} {store : FileOutboxStore}

-- The spool is the result of the operations one after another, in the order in which they took
-- effect, with the replies they have returned. Below the cap it has every enqueued entry, and no entry
-- was claimed twice within a lease.
structure Serializable (store : FileOutboxStore) (d : SpoolDir ι) : Prop where
  spool   : loadSpool d.fs = serial store d.history
  replies : Run.Meets (serve store) (fun spool c => c.Replied store spool) {} d.history
  kept    : d.history.countP (·.isEnqueue) ≤ store.cap →
    (loadSpool d.fs).entries.map (·.id) = List.range' 1 (d.history.countP (·.isEnqueue))
  leases  : d.history.Pairwise fun c c' =>
    ∀ id ∈ c.claimed, id ∈ c'.claimed → c.now + store.leaseTtlSecs < c'.now

-- Whoever is granted the lock has opened the inode that all processes in their critical section have
-- locked.
def Sound (d : SpoolDir ι) : SpoolEvent ι → Prop
  | .lock i      => ∀ j, (d.phase j).critical.isSome → (d.phase i).wants.isSome →
      (d.phase j).critical = (d.phase i).wants
  | .write i now => (d.phase i).KeepsLeases now
  | _            => True

instance [Fintype ι] (d : SpoolDir ι) : (event : SpoolEvent ι) → Decidable (d.Sound event)
  | .lock _   => inferInstanceAs (Decidable (∀ _, _ → _ → _))
  | .write .. => inferInstanceAs (Decidable (Phase.KeepsLeases ..))
  | .open ..  => instDecidableTrue
  | .load _   => instDecidableTrue
  | .unlock _ => instDecidableTrue
  | .crash _  => instDecidableTrue

structure Inv (store : FileOutboxStore) (d : SpoolDir ι) : Prop where
  held    : ∀ i n, (d.phase i).holds = some n → d.fs.holder n = some i
  alone   : ∀ i j, (d.phase i).critical.isSome → (d.phase j).critical.isSome → i = j
  current : ∀ i op n spool, d.phase i = .loaded op n spool → spool = loadSpool d.fs
  spool   : loadSpool d.fs = serial store d.history
  replies : Run.Meets (serve store) (fun spool c => c.Replied store spool) {} d.history
  leased  : Leased store d.history (serial store d.history)

theorem Inv.init : Inv store ({} : SpoolDir ι) where
  held    := by simp [Phase.holds]
  alone   := by simp [Phase.critical]
  current := by simp
  spool   := rfl
  replies := trivial
  leased  := .nil

variable {d : SpoolDir ι}

theorem Inv.serializable (h : Inv store d) : Serializable store d where
  spool   := h.spool
  replies := h.replies
  kept    := by rw [h.spool]; exact h.leased.kept
  leases  := h.leased.apart

-- Opening the file creates at most an empty one.
theorem loadSpool_openCreate {fs : Fs ι (Option Spool)} :
    loadSpool (fs.openCreate spoolFile none).2 = loadSpool fs := by
  simp only [loadSpool, Fs.read_openCreate]
  cases fs.read spoolFile <;> rfl

theorem loadSpool_replace {fs : Fs ι (Option Spool)} {spool : Spool} :
    loadSpool (fs.replace spoolFile (some spool)) = spool := by
  simp [loadSpool]

variable [DecidableEq ι]

-- A process goes on without changing the spool or anybody else's lock.
theorem Inv.goOn (h : Inv store d) {i : ι} {p : Phase} {fs : Fs ι (Option Spool)}
    (hload : loadSpool fs = loadSpool d.fs)
    (hother : ∀ j ≠ i, ∀ n, d.fs.holder n = some j → fs.holder n = some j)
    (hheld : ∀ n, p.holds = some n → fs.holder n = some i)
    (halone : p.critical.isSome → ∀ j ≠ i, (d.phase j).critical = none)
    (hcurrent : ∀ op n spool, p = .loaded op n spool → spool = loadSpool fs) :
    Inv store { d with fs, phase := Function.update d.phase i p } where
  held    := by
    intro j n hj
    by_cases hi : j = i
    case pos =>
      subst hi
      exact hheld n (by simpa using hj)
    case neg => exact hother j hi n (h.held j n (by simpa [hi] using hj))
  alone   := by
    intro j k hj hk
    by_cases hji : j = i <;> by_cases hki : k = i
    · rw [hji, hki]
    · simp_all
    · simp_all
    · simp only [Function.update_of_ne hji, Function.update_of_ne hki] at hj hk
      exact h.alone j k hj hk
  current := by
    intro j op n spool hj
    by_cases hi : j = i
    case pos =>
      subst hi
      exact hcurrent op n spool (by simpa using hj)
    case neg =>
      rw [hload]
      exact h.current j op n spool (by simpa [hi] using hj)
  spool   := hload.trans h.spool
  replies := h.replies
  leased  := h.leased

-- A process that holds its lock is not the holder of a lock of somebody else.
theorem Inv.release (h : Inv store d) (i : ι) : Inv store (d.release i) := by
  simp only [SpoolDir.release]
  cases hh : (d.phase i).holds
  case none =>
    exact h.goOn rfl (fun _ _ _ hj => hj) (by simp [Phase.holds]) (by simp [Phase.critical])
      (by simp)
  case some n =>
    refine h.goOn rfl (fun j hji m hj => ?_) (by simp [Phase.holds]) (by simp [Phase.critical])
      (by simp)
    have hi := h.held i n hh
    have hm : m ≠ n := by
      intro hm
      rw [hm, hi] at hj
      exact hji (Option.some.inj hj).symm
    simpa [Fs.unlock, hm] using hj

theorem Inv.open (h : Inv store d) (i : ι) (op : SpoolOp) : Inv store (d.step store (.open i op)) := by
  simp only [SpoolDir.step]
  split
  case h_2 => exact h
  case h_1 =>
    exact h.goOn loadSpool_openCreate (by simp) (by simp [Phase.holds]) (by simp [Phase.critical])
      (by simp)

-- Everybody in the critical section has locked the same inode, and that lock is free.
theorem Inv.lock (h : Inv store d) (i : ι) (hs : d.Sound (.lock i)) :
    Inv store (d.step store (.lock i)) := by
  simp only [SpoolDir.step]
  split
  case h_2 => exact h
  case h_1 op n hp =>
    split
    case isFalse => exact h
    case isTrue hn =>
      have hnone (j : ι) : (d.phase j).critical = none := by
        by_contra hc
        have hsome := Option.isSome_iff_ne_none.mpr hc
        have he := hs j hsome (by simp [hp, Phase.wants])
        rw [hp, Phase.wants] at he
        have hj := h.held j n (Phase.holds_of_critical he)
        simp [hn] at hj
      refine h.goOn rfl (fun j _ m hj => ?_) ?_ (fun _ j _ => hnone j) (by simp)
      · have hm : m ≠ n := by
          intro hm
          simp [hm, hn] at hj
        simpa [Fs.lock, hm] using hj
      · intro m hm
        cases hm
        simp [Fs.lock]

theorem Inv.load (h : Inv store d) (i : ι) : Inv store (d.step store (.load i)) := by
  simp only [SpoolDir.step]
  split
  case h_2 => exact h
  case h_1 op n hp =>
    refine h.goOn rfl (fun _ _ _ hj => hj) ?_ ?_ ?_
    · intro m hm
      exact h.held i m (by simpa [hp, Phase.holds] using hm)
    · intro _ j hj
      by_contra hc
      exact hj (h.alone j i (Option.isSome_iff_ne_none.mpr hc) (by simp [hp, Phase.critical]))
    · intro _ _ _ hl
      cases hl
      rfl

-- Nobody else is in the critical section, so the operation works on the current spool.
theorem Inv.write (h : Inv store d) (ht : 0 ≤ store.leaseTtlSecs) (i : ι) (now : Int)
    (hs : d.Sound (.write i now)) : Inv store (d.step store (.write i now)) := by
  simp only [SpoolDir.step]
  split
  case h_2 => exact h
  case h_1 op n spool hp =>
    have hcur : spool = serial store d.history := (h.current i op n spool hp).trans h.spool
    have hk : op.KeepsLeases now spool := by simpa [Sound, hp, Phase.KeepsLeases] using hs
    have hother (j : ι) (hj : j ≠ i) : (d.phase j).critical = none := by
      by_contra hc
      exact hj (h.alone j i (Option.isSome_iff_ne_none.mpr hc) (by simp [hp, Phase.critical]))
    let c : Completed := ⟨op, now, (op.run store now spool).1⟩
    have hr : c.Replied store (serial store d.history) := by rw [← hcur]; rfl
    have hserve : serial store (d.history ++ [c]) = (op.run store now spool).2 := by
      rw [serial_snoc, ← hcur]
      rfl
    exact {
      held    := by
        intro j m hj
        by_cases hji : j = i
        case pos =>
          subst hji
          exact h.held j m (by simpa [hp, Phase.holds] using hj)
        case neg => exact h.held j m (by simpa [hji] using hj)
      alone   := by
        intro j k hj hk
        by_cases hji : j = i <;> by_cases hki : k = i <;>
          simp_all [Phase.critical]
      current := by
        intro j op' m spool' hj
        by_cases hji : j = i
        case pos => simp [hji] at hj
        case neg =>
          simp only [Function.update_of_ne hji] at hj
          have := hother j hji
          simp [hj, Phase.critical] at this
      spool   := by rw [loadSpool_replace, hserve]
      replies := h.replies.snoc hr
      leased  := by
        rw [serial_snoc]
        exact h.leased.snoc ht (hcur ▸ hk) hr
    }

theorem Inv.step (h : Inv store d) (ht : 0 ≤ store.leaseTtlSecs) (event : SpoolEvent ι)
    (hs : d.Sound event) : Inv store (d.step store event) := by
  cases event
  case «open» i op  => exact h.open i op
  case lock i       => exact h.lock i hs
  case load i       => exact h.load i
  case write i now  => exact h.write ht i now hs
  case crash i      => exact h.release i
  case unlock i     =>
    simp only [SpoolDir.step]
    split
    case h_1 => exact h.release i
    case h_2 => exact h

-- In every interleaving in which all critical sections lock the same inode, the outbox is serializable.
theorem serializable_of_sound {events : List (SpoolEvent ι)} (ht : 0 ≤ store.leaseTtlSecs)
    (h : Run.Meets (step store) Sound {} events) : Serializable store (run store events) :=
  (Run.inv (fun _ e hs h => Inv.step h ht e hs) h .init).serializable

-- Each enqueue takes an identity.
theorem nextId_serial {order : List Completed} (h : ∀ c ∈ order, c.isEnqueue)
    (hl : order.length < 18446744073709551616) : (serial store order).nextId = order.length := by
  induction order using List.reverseRecOn
  case nil => rfl
  case append_singleton order c hi =>
    simp only [List.forall_mem_append, List.forall_mem_singleton, List.length_append,
      List.length_singleton] at h hl ⊢
    have hn := hi h.1 (by omega)
    obtain ⟨entry, ho⟩ : ∃ entry, c.op = .enqueue entry := by
      have := h.2
      simp only [isEnqueue] at this
      split at this
      case h_1 entry ho => exact ⟨entry, ho⟩
      case h_2          => contradiction
    rw [serial_snoc, serve, ho]
    exact (Spool.enqueue_nextId (by omega)).trans (by rw [hn])

inductive Party
  | first
  | second
  | third
deriving DecidableEq

instance : Fintype Party where
  elems    := ⟨([.first, .second, .third] : List Party), by decide⟩
  complete := fun party => by cases party <;> decide

-- An operation from beginning to end.
def whole (i : Party) (op : SpoolOp) (now : Int) : List (SpoolEvent (Party)) :=
  [.open i op, .lock i, .load i, .write i now, .unlock i]

def alert (message : String) : SpoolOp :=
  .enqueue (.pending "deploy_failed" "demo" message 0)

-- Two alerts are enqueued and claimed, where the second process waits for the first one.
def waited : List (SpoolEvent (Party)) :=
  [.open .first (alert "first"), .open .second (alert "second"), .lock .first, .lock .second,
    .load .first, .write .first 0, .unlock .first,
    .lock .second, .load .second, .write .second 0, .unlock .second] ++
    whole .third (.claimDue 16) 5 ++ whole .second (.claimDue 16) 100

theorem serializable_waited : Serializable {} (run {} waited) :=
  serializable_of_sound (by decide) (by decide +kernel)

-- The second process opens the file before the first one replaces it. It is granted the lock of an
-- inode without a name, while the third process locks the new one.
def staleLock : List (SpoolEvent (Party)) :=
  [.open .first (alert "first"), .open .second (alert "second"), .lock .first, .load .first,
    .write .first 0, .unlock .first] ++
    [.lock .second, .open .third (alert "third"), .lock .third] ++
    [.load .second, .load .third, .write .second 0, .write .third 0, .unlock .second, .unlock .third]

-- All three operations complete, and no order of them explains the spool.
theorem not_serializable_staleLock :
    (run {} staleLock).history.map (·.op) = [alert "first", alert "second", alert "third"] ∧
    ¬∃ order, order.Perm (run {} staleLock).history ∧
      loadSpool (run {} staleLock).fs = serial {} order := by
  refine ⟨by decide +kernel, ?_⟩
  rintro ⟨order, hp, he⟩
  have hlen : order.length = 3 := hp.length_eq.trans (by decide +kernel)
  have henq : ∀ c ∈ (run {} staleLock).history, c.isEnqueue := by decide +kernel
  have hthree : (serial {} order).nextId = 3 := by
    rw [← hlen]
    exact nextId_serial (fun c hc => henq c (hp.subset hc)) (by omega)
  have htwo : (loadSpool (run {} staleLock).fs).nextId = 2 := by decide +kernel
  simp [he, hthree] at htwo

end SpoolDir
