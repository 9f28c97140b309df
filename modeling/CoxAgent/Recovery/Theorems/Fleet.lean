import CoxAgent.Lib.Run
import CoxAgent.Recovery.Theorems.Claims

variable {J ι : Type} {c : Codec J} {p : String} {w w' : World J} {q : Sql.Req J}
variable {row : Option (Int × J)} [DecidableEq ι] {i : ι}

namespace Fleet

variable {worker : ι → String} {s s' : Fleet J ι} {e : FleetEvent ι}

-- No ticket in progress is in the hands of a process that is alive.
def Alone (c : Codec J) (p : String) (s : Fleet J ι) : Prop :=
  ∀ st, s.world.stored c p = some st → ∀ id ∈ RecoverUseCase.orphaned st, ∀ j,
    s.holder id = some j → s.crashed j = true

-- The row that a process has read when it booted: as long as it is the current one, recovery takes no
-- ticket from a process that is alive.
structure Booted (c : Codec J) (p : String) (row : Option (Int × J)) (s : Fleet J ι) : Prop where
  since : Since p row s.world
  alone : s.world.selectRow p = row → s.Alone c p

omit [DecidableEq ι] in
theorem Booted.later (h : Booted c p row s) (he : Evolves p s.world s'.world)
    (hh : s'.world.rows p = s.world.rows p → s'.holder = s.holder)
    (hc : ∀ j, s.crashed j = true → s'.crashed j = true) : Booted c p row s' where
  since := h.since.evolves he
  alone hr st hst id hid j hj := by
    have hrows := h.since.rows_eq he hr
    have hrow : s.world.selectRow p = row := by
      rw [← hr, World.selectRow, World.selectRow, hrows]
    have hst' : s.world.stored c p = some st := by
      rwa [World.stored, ← hrows]
    rw [hh hrows] at hj
    exact hc j (h.alone hrow st hst' id hid j hj)

structure Inv (c : Codec J) (p : String) (worker : ι → String) (s : Fleet J ι) : Prop where
  safe   : s.toSys.Safe (recoveryProtocol c p) (sql c) fun _ _ _ => True
  booted : ∀ i row rest, s.past i = ⟨i, .selectRow p, row⟩ :: rest → Booted c p row s
  keeps  : s.KeepsClaims c p worker

omit [DecidableEq ι] in
-- Only a step that changes the row hands over a ticket.
theorem handOver_eq {holder : TicketId → Option ι} (h : w'.rows p = w.rows p) :
    handOver c p worker i w w' holder = holder := by
  funext id
  unfold handOver
  rw [claimant_rows h]
  cases w.claimant c p id <;> simp

theorem inv_init {handle : ι → Nat} {shift : ι → SqlProg J Unit}
    (h : ∀ i, Shift c ⟨handle i, p⟩ (worker i) (shift i)) :
    (init c p handle shift w).Inv c p worker where
  safe i         := process_safe (h i) rfl
  booted _ _ _ h := by contradiction
  keeps _ _ h    := by contradiction

-- The first request of a process stays the first.
theorem past_head {sys : Sys (Sql.iface J) ι (World J) Unit} {k : Sql.Rep q → SqlProg J Unit}
    {j : ι} {first : Entry (Sql.iface J) ι} {rest : List (Entry (Sql.iface J) ι)}
    (hp : sys.prog i = .call q k) (h : (sys.step (sql c) i).past j = first :: rest) :
    (∃ rest', sys.past j = first :: rest') ∨
    sys.past i = [] ∧ first = ⟨i, q, (sql c q sys.world).1⟩ := by
  rw [Sys.step_call hp] at h
  by_cases hj : j = i
  case neg =>
    rw [Config.past_serve_ne hj] at h
    exact .inl ⟨rest, h⟩
  case pos =>
    subst hj
    rw [Config.past_serve_self] at h
    cases hl : sys.past j
    case nil =>
      rw [hl] at h
      cases h
      exact .inr ⟨rfl, rfl⟩
    case cons e l =>
      rw [hl] at h
      cases h
      exact .inl ⟨l, rfl⟩

-- A step that takes names only off the tickets it recovers leaves those of the living in place.
theorem Inv.keeps_handOver (h : s.Inv c p worker)
    (hr : ∀ id, Releases c p s.world w' id → Recovers c p i s.toConfig id) :
    ∀ id j, handOver c p worker i s.world w' s.holder id = some j → s.crashed j = false →
      w'.claimant c p id = some (worker j) := by
  intro id j hj hc
  unfold handOver at hj
  cases hw : w'.claimant c p id
  case none =>
    simp only [hw] at hj
    have hk := h.keeps id j hj hc
    obtain ⟨row, rest, st, hp, hrow, hst, hid⟩ := hr id ⟨by simp [hk], hw⟩
    have hcr := (h.booted i row rest hp).alone hrow st hst id hid j hj
    simp [hc] at hcr
  case some who =>
    simp only [hw] at hj
    split at hj
    case isTrue hs =>
      rw [← hs]
      exact h.keeps id j hj hc
    case isFalse =>
      split at hj
      case isTrue he =>
        cases hj
        rw [he]
      case isFalse => contradiction

theorem Inv.step (h : s.Inv c p worker) (hf : FreshStep p s.toSys i)
    (hb : s.past i = [] → s.Alone c p) :
    Inv c p worker { s with
      toSys  := s.toSys.step (sql c) i
      holder := handOver c p worker i s.world (s.toSys.step (sql c) i).world s.holder
    } := by
  cases hp : s.prog i
  case done =>
    rw [Sys.step_done hp, handOver_eq rfl]
    exact h
  case call q k =>
    have ha : (recoveryProtocol c p).Assumed s.toSys i := fun q k hk => hf.reread hk
    obtain ⟨hg, hs⟩ := h.safe.step ha
    constructor
    case safe => exact hs
    case keeps =>
      refine h.keeps_handOver fun id hr => ?_
      rw [Sys.step_world hp] at hr
      exact h.safe.ensure hp (ha q k hp) id hr
    case booted =>
      intro j row rest hj
      cases past_head hp hj
      case inl hj =>
        obtain ⟨rest', hj⟩ := hj
        exact (h.booted j row rest' hj).later hg handOver_eq fun _ => id
      case inr hj =>
        -- This is the read that the process boots with.
        obtain ⟨hn, he⟩ := hj
        cases he
        have hold : Booted c p (s.world.selectRow p) s := ⟨.inl rfl, fun _ => hb hn⟩
        exact hold.later hg handOver_eq fun _ => id

theorem Inv.crash (h : s.Inv c p worker) :
    Inv c p worker { s with crashed := Function.update s.crashed i true } where
  safe                 := h.safe
  booted j row rest hj := by
    refine (h.booted j row rest hj).later .refl (fun _ => rfl) fun j hc => ?_
    by_cases hji : j = i
    case pos => simp [hji]
    case neg => simp [hji, hc]
  keeps id j hj hc     := by
    apply h.keeps id j hj
    by_cases hji : j = i
    case pos => simp [hji] at hc
    case neg => simpa [hji] using hc

-- Every event that meets the condition keeps the invariant.
theorem Inv.event (hb : BootsAlone c p s e) (h : s.Inv c p worker) :
    (Fleet.step c p worker s e).Inv c p worker := by
  cases e
  case step i =>
    unfold Fleet.step
    simp only
    split
    case isTrue     => exact h
    case isFalse ha =>
      obtain ⟨hf, hb⟩ := hb (by simpa using ha)
      exact h.step hf hb
  case heartbeat i now =>
    unfold Fleet.step
    simp only
    split
    case isTrue  => exact h
    case isFalse =>
      refine ⟨h.safe, fun j row rest hj => ?_, h.keeps⟩
      exact (h.booted j row rest hj).later .refl (fun _ => rfl) fun _ => id
  case crash i => exact h.crash

omit [DecidableEq ι] in
theorem KeepsClaims.claimsFree (h : s.KeepsClaims c p worker) : s.ClaimsFree c p := by
  intro i id who now k _ hw j hj
  cases claimant_claimTx c s.world p id id who now
  case inl hc => exact absurd hw hc.left
  case inr hc =>
    cases hcr : s.crashed j
    case true  => rfl
    case false =>
      rw [h id j hj hcr] at hc
      cases hc.left

end Fleet

variable {worker : ι → String} {handle : ι → Nat} {shift : ι → SqlProg J Unit}
variable {events : List (FleetEvent ι)}

-- In every run in which the save of a process finds the row that it has loaded before, and no process
-- boots while a ticket in progress is in the hands of one that is alive, recovery takes no ticket from
-- a process that is alive, and none is claimed again under it.
theorem recovery_spares_living (hs : ∀ i, Shift c ⟨handle i, p⟩ (worker i) (shift i))
    (hm : Run.Meets (Fleet.step c p worker) (Fleet.BootsAlone c p)
      (Fleet.init c p handle shift w) events) :
    (events.foldl (Fleet.step c p worker) (Fleet.init c p handle shift w)).KeepsClaims c p worker ∧
    (events.foldl (Fleet.step c p worker) (Fleet.init c p handle shift w)).ClaimsFree c p := by
  have h := Run.inv (fun _ _ => Fleet.Inv.event) hm (Fleet.inv_init hs)
  exact ⟨h.keeps, h.keeps.claimsFree⟩

section Boots

namespace Fleet.BootsAlone

variable {s : Fleet J ι}

theorem boot {st : ProjectState} (hp : s.past i = []) (hst : s.world.stored c p = some st)
    (h : ∀ id ∈ RecoverUseCase.orphaned st, ∃ j, s.holder id = some j ∧ s.crashed j = true) :
    BootsAlone c p s (.step i) := by
  refine fun _ => ⟨.of_first hp, fun _ st' hst' id hid j hj => ?_⟩
  cases hst.symm.trans hst'
  obtain ⟨j', hj', hc⟩ := h id hid
  cases hj.symm.trans hj'
  exact hc

theorem later (hf : FreshStep p s.toSys i) (hp : s.past i ≠ []) : BootsAlone c p s (.step i) :=
  fun _ => ⟨hf, fun h => absurd h hp⟩

end Fleet.BootsAlone

-- The board has one ticket that is ready.
def readyState : ProjectState where
  tickets := [{ id := ⟨"F001"⟩, kind := .feature, title := "Login", status := .ready }]

def readyWorld : World Doc where
  rows := Function.update (fun _ => none) "cxa" <| some {
    schemaVersion := 1
    revision      := 1
    data          := .state readyState
    shards        := fun kind => some (shardDoc Codec.plain readyState kind)
  }

def hostOf : Nat → String
  | 0 => "dev@one"
  | _ => "dev@two"

-- Every process tries to claim the ticket.
def claimLogin (i : Nat) : SqlProg Doc Unit := do
  let _ ← SqlStateStore.claimTicket ⟨i, "cxa"⟩ ⟨"F001"⟩ (hostOf i) "noon"
  return ()

def twoHosts : Fleet Doc Nat :=
  .init Codec.plain "cxa" (fun i => i) claimLogin readyWorld

theorem shift_claimLogin (i : Nat) :
    Shift Codec.plain ⟨i, "cxa"⟩ (hostOf i) (claimLogin i) :=
  .claim fun _ => .rest

-- The first process claims the ticket and crashes, and then the second one boots and claims it.
def afterCrash : List (FleetEvent Nat) :=
  [.step 0, .step 0, .step 0, .heartbeat 0 "noon", .crash 0, .step 1, .step 1, .step 1, .step 1,
    .step 1, .step 1]

theorem recovery_spares_living_crash :
    (afterCrash.foldl (Fleet.step Codec.plain "cxa" hostOf) twoHosts).KeepsClaims
      Codec.plain "cxa" hostOf ∧
    (afterCrash.foldl (Fleet.step Codec.plain "cxa" hostOf) twoHosts).ClaimsFree
      Codec.plain "cxa" :=
  recovery_spares_living shift_claimLogin
    ⟨.boot rfl rfl (List.forall_mem_nil _), .later (.of_ne rfl nofun) nofun,
      .later (.of_ne rfl nofun) nofun, trivial, trivial,
      .boot rfl rfl (List.forall_mem_singleton.mpr ⟨0, rfl, rfl⟩),
      .later (.of_ne rfl nofun) nofun, .later (.of_eq (l := []) rfl rfl) nofun,
      .later (.of_ne rfl nofun) nofun, .later (.of_ne rfl nofun) nofun,
      .later (.of_ne rfl nofun) nofun, trivial⟩

-- The first process does not crash. When the second one boots, it releases the ticket that the first
-- is working on, and is about to claim it.
theorem recovery_robs_living : ¬ ∀ (w : World Doc) (handle : Nat → Nat) (worker : Nat → String)
    (shift : Nat → SqlProg Doc Unit) (events : List (FleetEvent Nat)),
    (∀ i, Shift Codec.plain ⟨handle i, "cxa"⟩ (worker i) (shift i)) →
    (events.foldl (Fleet.step Codec.plain "cxa" worker)
      (Fleet.init Codec.plain "cxa" handle shift w)).KeepsClaims Codec.plain "cxa" worker ∧
    (events.foldl (Fleet.step Codec.plain "cxa" worker)
      (Fleet.init Codec.plain "cxa" handle shift w)).ClaimsFree Codec.plain "cxa" := by
  intro h
  obtain ⟨_, hf⟩ := h readyWorld (fun i => i) hostOf claimLogin
    [.step 0, .step 0, .step 0, .step 1, .heartbeat 0 "noon", .step 1, .step 1, .step 1, .step 1]
    shift_claimLogin
  have := hf 1 ⟨"F001"⟩ "dev@two" "noon" _ rfl rfl 0 rfl
  contradiction

end Boots
