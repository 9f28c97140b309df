import CoxAgent.Json.Coord
import CoxAgent.Lib.Lease

variable {parse : String → Option Int} {io : CoordIo} {file : Option Coord} {id id' : TicketId}
variable {worker now stage stage' a n n' : String}

namespace CoordRun.Before

theorem trans {a b c : String} (h : Before parse a b) (h' : Before parse b c) : Before parse a c := by
  obtain ⟨x, y, hx, hy, hle⟩ := h
  obtain ⟨y', z, hy', hz, hle'⟩ := h'
  cases hy.symm.trans hy'
  exact ⟨x, z, hx, hz, hle.trans hle'⟩

theorem right {a b : String} (h : Before parse a b) : Before parse b b := by
  obtain ⟨_, y, _, hy, _⟩ := h
  exact ⟨y, y, hy, hy, le_rfl⟩

end CoordRun.Before

namespace JsonStateStore

theorem tdiv_mono {x y : Int} (h : x ≤ y) : x.tdiv 1000000000 ≤ y.tdiv 1000000000 := by
  have hs : Int.sign 1000000000 = 1 := rfl
  rw [Int.tdiv_eq_ediv, Int.tdiv_eq_ediv, hs]
  split <;> split <;> omega

theorem ageSecs_mono (h : CoordRun.Before parse n n') : ageSecs parse a n ≤ ageSecs parse a n' := by
  obtain ⟨x, y, hx, hy, hle⟩ := h
  unfold ageSecs
  cases ha : parse a
  case none   => simp
  case some z =>
    simp only [hx, hy]
    exact tdiv_mono (by omega)

end JsonStateStore

open JsonStateStore

-- Leases of so many seconds.
def ttlClock (parse : String → Option Int) (ttl : Int) : LeaseClock String where
  before           := CoordRun.Before parse
  expired a n      := ageSecs parse a n > ttl
  expired_mono h b := decide_eq_true ((of_decide_eq_true h).trans_le (ageSecs_mono b))

-- The leases that are stored.
def Coord.leaderSlot (coord : Coord) : List (String × String) :=
  coord.leader.toList.map fun l => (l.worker, l.at')

def Coord.stageSlot (id : TicketId) (stage : String) (coord : Coord) : List (String × String) :=
  coord.leases.filter (StageLease.isFor id.asStr stage) |>.map fun l => (l.worker, l.at')

-- Who is told to have a lease.
def winner (worker : String) (r : Except PortError Bool) : Option String :=
  match r with
  | .ok true => some worker
  | _        => none

namespace JsonStateStore

theorem readCoord_eq (hr : io.reads) : readCoord io file = file.getD {} := by
  simp [readCoord, hr]

-- A call fails and changes nothing, or it is what it does with the contents of the file.
theorem locked_cases {α : Type} {f : Coord → Except PortError α × Option Coord} (hr : io.reads) :
    (∃ e, locked io file f = (.error e, file)) ∨
      io.lock = none ∧ locked io file f = f (file.getD {}) := by
  unfold locked
  rw [readCoord_eq hr]
  cases io.lock
  case none   => exact .inr ⟨rfl, rfl⟩
  case some e => exact .inl ⟨_, rfl⟩

theorem writeCoord_cases {coord : Coord} :
    (∃ e, writeCoord io coord file = (.error e, file)) ∨
      io.write = none ∧ writeCoord io coord file = (.ok (), some coord) := by
  unfold writeCoord
  cases io.write
  case none   => exact .inr ⟨rfl, rfl⟩
  case some e => exact .inl ⟨_, rfl⟩

-- What is granted is written, and what cannot be written is not granted.
theorem granted_cases {coord : Coord} {answer : Except PortError Bool × Option Coord}
    (h : answer = match writeCoord io coord file with
      | (.error e, file) => (.error e, file)
      | (.ok _, file)    => (.ok true, file)) :
    (∃ r, r ≠ .ok true ∧ answer = (r, file)) ∨ io.write = none ∧ answer = (.ok true, some coord) := by
  cases @writeCoord_cases io file coord
  case inl hw =>
    obtain ⟨e, hw⟩ := hw
    rw [hw] at h
    exact .inl ⟨_, by simp, h⟩
  case inr hw =>
    rw [hw.right] at h
    exact .inr ⟨hw.left, h⟩

-- Either nothing happens, or the worker becomes the leader.
theorem acquireLeader_cases (parse : String → Option Int) (file : Option Coord)
    (worker now : String) (hr : io.reads) :
    (∃ r, r ≠ .ok true ∧ acquireLeader parse io worker now file = (r, file)) ∨
      canLead parse worker now (file.getD {}) ∧
      acquireLeader parse io worker now file =
        (.ok true, some { file.getD {} with leader := some { worker, at' := now } }) := by
  unfold acquireLeader
  cases locked_cases hr
  case inl h =>
    obtain ⟨e, h⟩ := h
    exact .inl ⟨_, by simp, h⟩
  case inr h =>
    rw [h.right]
    split
    case isFalse => exact .inl ⟨_, by simp, rfl⟩
    case isTrue hl  => exact (granted_cases rfl).imp_right fun hg => ⟨hl, hg.right⟩

theorem winner_eq_none {r : Except PortError Bool} (h : r ≠ .ok true) : winner worker r = none := by
  unfold winner
  split
  case h_1 => contradiction
  case h_2 => rfl

theorem acquireLeader_step (parse : String → Option Int) (file : Option Coord)
    (worker now : String) (hr : io.reads) :
    let r := acquireLeader parse io worker now file
    (ttlClock parse leaderTtlSecs).Step now (file.getD {}).leaderSlot (winner worker r.1)
      (r.2.getD {}).leaderSlot := by
  cases acquireLeader_cases parse file worker now hr
  case inl h =>
    obtain ⟨r, hn, h⟩ := h
    simp only [h, winner_eq_none hn]
    exact .keep
  case inr h =>
    simp only [h.right]
    refine .grant fun l hl => ?_
    have hc := h.left
    unfold canLead at hc
    unfold Coord.leaderSlot at hl
    cases he : (file.getD {}).leader
    case none => simp [he] at hl
    case some lease =>
      simp only [he, Option.toList_some, List.map_singleton, LeaseClock.live_singleton] at hl
      simp only [he, Bool.or_eq_true, decide_eq_true_eq] at hc
      split at hl
      case isTrue => simp at hl
      case isFalse hx =>
        cases hl
        exact hc.resolve_right fun h => hx (decide_eq_true h)

theorem acquireLeader_stageSlot (hr : io.reads) :
    ((acquireLeader parse io worker now file).2.getD {}).stageSlot id stage =
      (file.getD {}).stageSlot id stage := by
  cases acquireLeader_cases parse file worker now hr
  case inl h =>
    obtain ⟨r, _, h⟩ := h
    rw [h]
  case inr h =>
    rw [h.right]
    rfl

-- A claim changes nothing, or the worker gets the stage.
theorem claimStage_cases (parse : String → Option Int) (file : Option Coord) (id : TicketId)
    (stage worker now : String) (hr : io.reads) :
    (∃ r, r ≠ .ok true ∧ claimStage parse io id stage worker now file = (r, file)) ∨
      (io.lock = none ∧ io.write = none) ∧
      ¬heldByOther id stage worker (pruned parse now (file.getD {})) ∧
      claimStage parse io id stage worker now file =
        (.ok true, some { file.getD {} with
          leases := claimed id stage worker now (pruned parse now (file.getD {})) }) := by
  unfold claimStage
  cases locked_cases hr
  case inl h =>
    obtain ⟨e, h⟩ := h
    exact .inl ⟨_, by simp, h⟩
  case inr h =>
    rw [h.right]
    dsimp only
    split
    case isTrue => exact .inl ⟨_, by simp, rfl⟩
    case isFalse hh =>
      exact (granted_cases rfl).imp_right fun hg => ⟨⟨h.left, hg.left⟩, hh, hg.right⟩

-- The stage is got exactly if nothing fails and no other worker holds it.
theorem claimStage_ok_iff (hr : io.reads) :
    (claimStage parse io id stage worker now file).1 = .ok true ↔
      (io.lock = none ∧ io.write = none) ∧
      ¬heldByOther id stage worker (pruned parse now (file.getD {})) := by
  constructor
  case mp =>
    intro h
    cases claimStage_cases parse file id stage worker now hr
    case inl hc =>
      obtain ⟨r, hn, hc⟩ := hc
      rw [hc] at h
      exact absurd h hn
    case inr hc => exact ⟨hc.left, hc.right.left⟩
  case mpr =>
    rintro ⟨⟨hl, hw⟩, hh⟩
    simp [claimStage, locked, hl, readCoord_eq hr, hh, writeCoord, hw]

-- The leases of a stage that still run are those that are left when the others are pruned.
theorem filter_pruned (coord : Coord) (id : TicketId) (stage now : String) :
    ((pruned parse now coord).filter (StageLease.isFor id.asStr stage)).map
        (fun l => (l.worker, l.at')) =
      (ttlClock parse stageTtlSecs).live now (coord.stageSlot id stage) := by
  unfold pruned Coord.stageSlot LeaseClock.live ttlClock
  rw [List.filter_map, List.filter_filter, List.filter_filter]
  congr 1
  refine List.filter_congr fun l _ => ?_
  simp only [Function.comp_apply]
  rw [Bool.and_comm]
  congr 1
  simp [← decide_not]

theorem heldByOther_iff {coord : Coord} :
    heldByOther id stage worker (pruned parse now coord) ↔
      ∃ l ∈ ((ttlClock parse stageTtlSecs).live now (coord.stageSlot id stage)).head?,
        l.1 ≠ worker := by
  rw [← filter_pruned, List.head?_map, List.head?_filter]
  unfold heldByOther
  cases (pruned parse now coord).find? (StageLease.isFor id.asStr stage) <;> simp

theorem stageSlot_claimed (coord : Coord) (leases : List StageLease) :
    ({ coord with leases := claimed id stage worker now leases } : Coord).stageSlot id stage =
      [(worker, now)] := by
  simp [Coord.stageSlot, claimed, List.filter_filter, StageLease.isFor]

-- A claim leaves the leases of the other stages, as far as they have not run out.
theorem stageSlot_claimed_ne (coord : Coord) (h : (id', stage') ≠ (id, stage)) :
    ({ coord with leases := claimed id stage worker now (pruned parse now coord) } : Coord).stageSlot
        id' stage' =
      (ttlClock parse stageTtlSecs).live now (coord.stageSlot id' stage') := by
  have hn : ∀ l : StageLease, StageLease.isFor id'.asStr stage' l →
      StageLease.isFor id.asStr stage l = false := by
    intro l hl
    by_contra hc
    simp only [StageLease.isFor, Bool.and_eq_true, decide_eq_true_eq, Bool.not_eq_false] at hl hc
    exact h (Prod.ext (TicketId.ext (hl.left.symm.trans hc.left)) (hl.right.symm.trans hc.right))
  rw [← filter_pruned]
  unfold Coord.stageSlot claimed
  rw [List.filter_append, List.filter_filter]
  have hnew : StageLease.isFor id'.asStr stage'
      { ticket := id.asStr, stage, worker, at' := now } = false := by
    by_contra hc
    exact absurd (hn _ (by simpa using hc)) (by simp [StageLease.isFor])
  simp only [List.filter_singleton, hnew, cond_false, List.append_nil]
  congr 1
  refine List.filter_congr fun l _ => ?_
  cases hl : StageLease.isFor id'.asStr stage' l
  case false => rfl
  case true  => simp [hn l hl]

theorem claimStage_step (worker : String) (hr : io.reads) :
    let r := claimStage parse io id stage worker now file
    (ttlClock parse stageTtlSecs).Step now ((file.getD {}).stageSlot id stage) (winner worker r.1)
      ((r.2.getD {}).stageSlot id stage) := by
  cases claimStage_cases parse file id stage worker now hr
  case inl h =>
    obtain ⟨r, hn, h⟩ := h
    simp only [h, winner_eq_none hn]
    exact .keep
  case inr h =>
    obtain ⟨_, hh, h⟩ := h
    simp only [h, Option.getD_some, stageSlot_claimed]
    refine .grant fun l hl => ?_
    rw [heldByOther_iff] at hh
    by_contra hw
    exact hh ⟨l, hl, hw⟩

theorem claimStage_step_ne (worker : String) (hr : io.reads) (h : (id', stage') ≠ (id, stage)) :
    let r := claimStage parse io id stage worker now file
    (ttlClock parse stageTtlSecs).Step now ((file.getD {}).stageSlot id' stage') none
      ((r.2.getD {}).stageSlot id' stage') := by
  cases claimStage_cases parse file id stage worker now hr
  case inl hc =>
    obtain ⟨r, _, hc⟩ := hc
    simp only [hc]
    exact .keep
  case inr hc =>
    simp only [hc.right.right, Option.getD_some, stageSlot_claimed_ne _ h]
    exact .prune

theorem claimStage_leaderSlot (hr : io.reads) :
    ((claimStage parse io id stage worker now file).2.getD {}).leaderSlot =
      (file.getD {}).leaderSlot := by
  cases claimStage_cases parse file id stage worker now hr
  case inl h =>
    obtain ⟨r, _, h⟩ := h
    rw [h]
  case inr h =>
    rw [h.right.right]
    rfl

-- A heartbeat only touches the workers.
theorem heartbeatWorker_frame (id : TicketId) (stage : String) {role ticket : String}
    {caps : WorkerCaps} (hr : io.reads) :
    let coord := (heartbeatWorker parse io worker role ticket caps now file).2.getD {}
    coord.leaderSlot = (file.getD {}).leaderSlot ∧
      coord.stageSlot id stage = (file.getD {}).stageSlot id stage := by
  unfold heartbeatWorker
  cases locked_cases hr
  case inl h =>
    obtain ⟨e, h⟩ := h
    rw [h]
    exact ⟨rfl, rfl⟩
  case inr h =>
    rw [h.right]
    cases writeCoord_cases
    case inl hw =>
      obtain ⟨e, hw⟩ := hw
      rw [hw]
      exact ⟨rfl, rfl⟩
    case inr hw =>
      rw [hw.right]
      exact ⟨rfl, rfl⟩

end JsonStateStore
