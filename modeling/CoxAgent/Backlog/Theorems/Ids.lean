import CoxAgent.Backlog.Theorems.Jobs
import CoxAgent.Domain.Theorems.Lifecycle

variable {J ι : Type} {c : Codec J} {p : String} {s s' s₀ : ProjectState} {id : TicketId}
variable {type : TicketType} {ids : List TicketId}

-- The number of the id is not above the highest one of its type.
def Covered (s : ProjectState) (id : TicketId) : Prop :=
  ∀ type n, idNumber s.alias type id = some n → n ≤ highest s type

theorem not_covered_of_mint (h : mintId type s = .ok id) (hn : highest s type + 1 < 2 ^ 64) :
    ¬ Covered s id := by
  intro hc
  have := hc type _ (idNumber_mintId h hn)
  omega

-- The ids that have been handed out differ from each other and from those at the start, and none of
-- them is above the highest number, even if its ticket is gone.
structure Distinct (s₀ : ProjectState) (ids : List TicketId) (s : ProjectState) : Prop where
  nodup   : ids.Nodup
  fresh   : ∀ id ∈ ids, id ∉ s₀.tickets.map (·.id)
  covered : ∀ id, id ∈ ids ∨ id ∈ s₀.tickets.map (·.id) → Covered s id

namespace Distinct

theorem init : Distinct s [] s where
  nodup   := .nil
  fresh   := nofun
  covered := by
    intro id h type n hn
    obtain ⟨t, ht, he⟩ := List.mem_map.mp (h.resolve_left List.not_mem_nil)
    subst he
    exact le_highest ht hn

theorem rise (ha : s'.alias = s.alias) (hh : ∀ type, highest s type ≤ highest s' type)
    (h : Distinct s₀ ids s) : Distinct s₀ ids s' where
  nodup   := h.nodup
  fresh   := h.fresh
  covered := by
    intro id hi type n hn
    rw [ha] at hn
    exact (h.covered id hi type n hn).trans (hh type)

-- The new id has a number above all others, so that it differs from all those handed out before.
theorem mint (ha : s'.alias = s.alias) (hm : mintId type s = .ok id)
    (hn : highest s type + 1 < 2 ^ 64) {t : Ticket} (ht : s'.tickets = s.tickets ++ [t])
    (hid : t.id = id) (h : Distinct s₀ ids s) : Distinct s₀ (ids ++ [id]) s' := by
  have hc := not_covered_of_mint hm hn
  have hr : Distinct s₀ ids s' := h.rise ha fun type => highest_mono ha (by simp [ht])
  constructor
  case nodup =>
    apply h.nodup.append (List.nodup_singleton id)
    simpa using fun hi => hc (h.covered id (.inl hi))
  case fresh =>
    intro id' hi
    cases List.mem_append.mp hi
    case inl hi => exact h.fresh id' hi
    case inr hi =>
      cases List.mem_singleton.mp hi
      exact fun hi => hc (h.covered id (.inr hi))
  case covered =>
    intro id' hi
    by_cases he : id' = id
    case neg => exact hr.covered id' (by simpa [he] using hi)
    case pos =>
      intro type n hn
      rw [he, ← hid] at hn
      exact le_highest (by simp [ht]) hn

end Distinct

-- A state that is fit for a job: a creation does not exhaust the numbers, and a sweep takes away no
-- ticket that alone has the highest number of its type.
def KeepsHighest : Job → List (Entry (Sql.iface J) ι) → ProjectState → Prop
  | .create input _, _, s    => highest s input.ticketType + 1 < 2 ^ 64
  | .sweep project,  past, s => ∀ type, highest (evict (swept project past) s) type = highest s type
  | _, _, _                  => True

theorem Ticket.MovesTo.id_eq {t t' : Ticket} (h : t.MovesTo t') : t'.id = t.id := by
  cases h
  case inl h => rw [h]
  case inr h =>
    obtain ⟨actor, dst, h⟩ := h
    rw [(Ticket.transitionTo_ok h).right]
    exact (t.enter_preserves dst).left

theorem ProjectState.Moves.ids_eq (h : s.Moves s') :
    s'.tickets.map (·.id) = s.tickets.map (·.id) := by
  have ht := h.tickets
  generalize s.tickets = ts, s'.tickets = ts' at ht
  induction ht
  case nil => rfl
  case cons h _ hi => simp [h.id_eq, hi]

theorem ProjectState.Moves.highest_le (h : s.Moves s') : highest s type ≤ highest s' type :=
  highest_mono h.alias (by simp [h.ids_eq])

def Job.isCreate : Job → Bool
  | create _ _ => true
  | _          => false

-- The step of the invariant: a creation mints, a move keeps the ids, and a sweep keeps the highest
-- numbers.
theorem Distinct.make {past : List (Entry (Sql.iface J) ι)} {r : Outcome} {job : Job}
    (hm : job.Makes past s r s') (hk : KeepsHighest job past s) (h : Distinct s₀ ids s) :
    Distinct s₀ (ids ++ if job.isCreate then (s'.tickets.getLast?.map (·.id)).toList else []) s' := by
  have ha := hm.keeps.left
  cases job
  case create input now =>
    obtain ⟨id, hm, _⟩ := hm
    obtain ⟨_, hm, t, hid, he⟩ := AddTicketUseCase.append_ok hm
    have ht : s'.tickets = s.tickets ++ [t] := by rw [he]
    simpa [Job.isCreate, ht, hid] using h.mint ha hm hk ht hid
  case move m   => simpa [Job.isCreate] using h.rise ha fun _ => (m.moves hm.left).highest_le
  case mutate m => simpa [Job.isCreate] using h.rise ha fun _ => (m.moves hm.left).highest_le
  case sweep project =>
    have he := hm.left
    subst he
    simpa [Job.isCreate] using h.rise ha fun type => (hk type).ge

-- Only a creation returns an id, the one of the ticket it appends.
theorem Job.Makes.returns {past : List (Entry (Sql.iface J) ι)} {job : Job}
    (h : job.Makes past s (some (.ok id)) s') :
    job.isCreate ∧ ∃ t, s'.tickets.getLast? = some t ∧ t.id = id := by
  cases job
  case create =>
    obtain ⟨id', h, he⟩ := h
    cases he
    obtain ⟨_, _, t, hid, he⟩ := AddTicketUseCase.append_ok h
    exact ⟨rfl, t, by simp [he], hid⟩
  all_goals exact absurd h.right nofun

section Created

-- The id of the last ticket that a write of the row has stored.
def writtenId (c : Codec J) (p : String) : Entry (Sql.iface J) ι → Option TicketId
  | ⟨_, .guardedSave p' _ data _ _, rows⟩ =>
    if p' = p ∧ (rows : Nat) = 1 then
      (c.toState data).toOption >>= (·.tickets.getLast?.map (·.id))
    else
      none
  | _ => none

-- The ids that creations have written, each with its client.
def created (c : Codec J) (p : String) (jobs : ι → Job) (log : List (Entry (Sql.iface J) ι)) :
    List (ι × TicketId) :=
  log.filter (jobs ·.client |>.isCreate) |>.filterMap fun e =>
    (writtenId c p e).map (e.client, ·)

variable {jobs : ι → Job} {i : ι} {e : Entry (Sql.iface J) ι} {q : Sql.Req J}
variable {cfg : Config (Sql.iface J) ι (World J)}

theorem writtenId_none (h : Commits p e = false) : writtenId c p e = none := by
  obtain ⟨i, q, r⟩ := e
  cases q <;> try rfl
  simp only [Commits, decide_eq_false_iff_not] at h
  simp [writtenId, h]

theorem created_snoc {log : List (Entry (Sql.iface J) ι)} : created c p jobs (log ++ [e]) =
    created c p jobs log ++ if (jobs e.client).isCreate then
      ((writtenId c p e).map (e.client, ·)).toList else [] := by
  unfold created
  rw [List.filter_append, List.filterMap_append]
  congr 1
  cases h : (jobs e.client).isCreate
  case false => simp [h]
  case true  => cases hw : writtenId c p e <;> simp [h, hw]

theorem mem_created [DecidableEq ι] : (i, id) ∈ created c p jobs cfg.log ↔
    (jobs i).isCreate ∧ ∃ e ∈ cfg.past i, writtenId c p e = some id := by
  simp only [created, List.mem_filterMap, List.mem_filter, Option.map_eq_some_iff,
    Prod.mk.injEq, Config.past, decide_eq_true_eq]
  constructor
  · rintro ⟨e, ⟨hm, hc⟩, _, hw, he, rfl⟩
    exact ⟨he ▸ hc, e, ⟨hm, he⟩, hw⟩
  · rintro ⟨hc, e, ⟨hm, he⟩, hw⟩
    exact ⟨e, ⟨hm, he ▸ hc⟩, id, hw, he, rfl⟩

theorem not_commits_quiet (h : Quiet p cfg (cfg.serve (sql c) i q)) :
    Commits p ⟨i, q, (sql c q cfg.world).1⟩ = false := by
  have hc := h.committed
  simpa [committed, Config.serve] using hc

theorem created_quiet (h : Quiet p cfg (cfg.serve (sql c) i q)) :
    created c p jobs (cfg.serve (sql c) i q).log = created c p jobs cfg.log := by
  rw [Config.serve, created_snoc, writtenId_none (not_commits_quiet h)]
  simp

theorem writtenId_writeOf {rev : Int} : writtenId c p
    (⟨i, writeOf c p s rev, (1 : Nat)⟩ : Entry (Sql.iface J) ι) = s.tickets.getLast?.map (·.id) := by
  simp [writtenId, writeOf, c.toState_ofState, Except.toOption]

end Created

section Run

variable [DecidableEq ι] {jobs : ι → Job} {i j : ι} {cfg : Config (Sql.iface J) ι (World J)}
variable {handle : ι → Nat} {w : World J} {sched : List ι} {q : Sql.Req J}

def IdsInv (c : Codec J) (p : String) (jobs : ι → Job) (s₀ : ProjectState)
    (cfg : Config (Sql.iface J) ι (World J)) : Prop :=
  ∃ s, cfg.world.stored c p = some s ∧ s.alias = s₀.alias ∧
    Distinct s₀ ((created c p jobs cfg.log).map Prod.snd) s

omit [DecidableEq ι] in
theorem IdsInv.quiet (hq : Quiet p cfg (cfg.serve (sql c) i q)) (h : IdsInv c p jobs s₀ cfg) :
    IdsInv c p jobs s₀ (cfg.serve (sql c) i q) := by
  simpa only [IdsInv, World.stored, hq.rows, created_quiet hq] using h

def idsProtocol (c : Codec J) (p : String) (jobs : ι → Job) (s₀ : ProjectState) :
    Protocol (Sql.iface J) ι (World J) :=
  jobProtocol c p jobs KeepsHighest (IdsInv c p jobs s₀)

theorem idsProtocol_calm : (idsProtocol c p jobs s₀).Calm c p i (IdsInv c p jobs s₀) where
  evolves hg   := hg.right
  allowed hq   := ⟨trivial, .quiet hq, .same hq.rows⟩
  stable hm hl := hm.right.left hl
  kept hq hl   := hl.quiet hq

variable {s'' : ProjectState} {rev : Int} {r : Outcome}

omit [DecidableEq ι] in
-- A write that goes through adds the id of its last ticket if it is one of a creation.
theorem created_write (h : Written c p s'' rev i cfg) :
    created c p jobs (cfg.serve (sql c) i (writeOf c p s'' rev)).log = created c p jobs cfg.log ++
      if (jobs i).isCreate then (s''.tickets.getLast?.map fun t => (i, t.id)).toList else [] := by
  rw [Config.serve, created_snoc, h.reply, writtenId_writeOf, Option.map_map]
  rfl

theorem IdsInv.write (hst : cfg.world.stored c p = some s)
    (hm : (jobs i).Makes (cfg.past i) s r s') (hg : gateSave s' = .ok s'')
    (hk : KeepsHighest (jobs i) (cfg.past i) s) (hq : Written c p s'' rev i cfg)
    (h : IdsInv c p jobs s₀ cfg) :
    IdsInv c p jobs s₀ (cfg.serve (sql c) i (writeOf c p s'' rev)) := by
  obtain ⟨s₁, hs₁, ha₁, h⟩ := h
  cases hs₁.symm.trans hst
  obtain ⟨ht, ha, _⟩ := ProjectState.gateSave_keeps hg
  refine ⟨s'', hq.stored, ha.trans (hm.keeps.left.trans ha₁), ?_⟩
  rw [created_write hq, ht]
  have h := (h.make hm hk).rise ha fun type => highest_mono ha (by simp [ht])
  cases hc : (jobs i).isCreate
  case false => simpa [hc] using h
  case true  => cases hl : s'.tickets.getLast? <;> simpa [hc, hl] using h

-- A creation that has returned an id has written it.
theorem backlog_safe (hw : w.stored c p = some s₀) :
    (backlog c p handle jobs w).Safe (idsProtocol c p jobs s₀) (sql c)
      fun i r cfg => ∀ id, r = some (.ok id) → (i, id) ∈ created c p jobs cfg.log := by
  intro i
  apply Protocol.Calm.safe_job
  case h  => exact idsProtocol_calm
  case ha => exact fun _ ha => ha.left rfl
  case hn => exact fun _ _ h => by cases h
  case he => exact fun _ _ _ h => by cases h
  case hl => exact ⟨s₀, hw, rfl, .init⟩
  case hp => rfl
  case hw =>
    intro s r s' s'' rev cfg hst hm hg ha hl hq
    have hk := ha.fit hq hst
    refine ⟨⟨trivial, fun h => h.write hst hm hg hk hq, hq.evolves⟩, fun cfg' hp id hr => ?_⟩
    subst hr
    obtain ⟨hc, t, ht, hid⟩ := hm.returns
    rw [mem_created, hp.left, ← mem_created, created_write hq, (ProjectState.gateSave_keeps hg).left]
    simp [hc, ht, hid]

-- In every run in which no other write falls between a client's load and the read that its save starts
-- with, no sweep lowers a highest number and no number reaches the end of `u64`, the ids of any two
-- creations differ, and they differ from those at the start.
theorem createdIds_distinct (hw : w.stored c p = some s₀)
    (hm : Sys.Meets (sql c) (FitStep c p jobs KeepsHighest) (backlog c p handle jobs w) sched)
    {id' : TicketId} (hne : i ≠ j)
    (hi : (Sys.run (sql c) (backlog c p handle jobs w) sched).prog i = .done (some (.ok id)))
    (hj : (Sys.run (sql c) (backlog c p handle jobs w) sched).prog j = .done (some (.ok id'))) :
    id ≠ id' ∧ id ∉ s₀.tickets.map (·.id) := by
  obtain ⟨hg, hs⟩ := (backlog_safe hw).run (P := idsProtocol c p jobs s₀) hm
  obtain ⟨s, _, _, hd⟩ := hg.left ⟨s₀, hw, rfl, .init⟩
  have hi := hs.returned hi id rfl
  have hj := hs.returned hj id' rfl
  refine ⟨fun he => hne ?_, hd.fresh id (List.mem_map_of_mem hi)⟩
  have := List.inj_on_of_nodup_map hd.nodup hi hj he
  exact congrArg Prod.fst this

end Run

section Reused

def searchInput : AddTicketInput where
  ticketType := .feature
  title      := "Search"

def exportInput : AddTicketInput where
  ticketType := .feature
  title      := "Export"

def boardState : ProjectState where
  tickets := [{ id := ⟨"F001"⟩, kind := .feature, title := "Login", status := .documented }]

-- A project with one documented feature.
def boardWorld : World Doc where
  rows := Function.update (fun _ => none) "cxa" <| some {
    schemaVersion := 1
    revision      := 1
    data          := .state boardState
    shards        := fun kind => some (shardDoc Codec.plain boardState kind)
  }

-- Between two creations the documented feature is swept. Its number is not the highest any more.
def growing : Nat → Job
  | 0 => .create searchInput "noon"
  | 1 => .sweep "cxa"
  | _ => .create exportInput "noon"

def growingSched : List Nat := [0, 0, 0, 0, 1, 1, 1, 1, 1, 1, 1, 2, 2, 2, 2]

theorem growing_fit : Sys.Meets (sql Codec.plain) (FitStep Codec.plain "cxa" growing KeepsHighest)
    (backlog Codec.plain "cxa" (fun i => i) growing boardWorld) growingSched :=
  .cons (.of_read rfl (.of_first rfl)) <|
  .cons (.of_harmless rfl nofun trivial) <|
  .cons (.of_read rfl (.of_eq (l := []) rfl rfl)) <|
  .cons (.of_fit rfl nofun rfl (Nat.le_of_ble_eq_true rfl)) <|
  .cons (.of_read rfl (.of_first rfl)) <|
  .cons (.of_read rfl (.of_last (l := []) rfl nofun)) <|
  .cons (.of_fit rfl nofun rfl fun | .feature | .bug | .chore => rfl) <|
  .cons (.of_read rfl (.of_last (l := [_, _]) rfl nofun)) <|
  .cons (.of_harmless rfl nofun trivial) <|
  .cons (.of_read rfl (.of_eq (l := [_, _, _]) rfl rfl)) <|
  .cons (.of_fit rfl nofun rfl fun | .feature | .bug | .chore => rfl) <|
  .cons (.of_read rfl (.of_first rfl)) <|
  .cons (.of_harmless rfl nofun trivial) <|
  .cons (.of_read rfl (.of_eq (l := []) rfl rfl)) <|
  .cons (.of_fit rfl nofun rfl (Nat.le_of_ble_eq_true rfl)) trivial

theorem createdIds_distinct_growing :
    (Sys.run (sql Codec.plain) (backlog Codec.plain "cxa" (fun i => i) growing boardWorld)
      growingSched).prog 0 = .done (some (.ok ⟨"F002"⟩)) ∧
    (Sys.run (sql Codec.plain) (backlog Codec.plain "cxa" (fun i => i) growing boardWorld)
      growingSched).prog 2 = .done (some (.ok ⟨"F003"⟩)) ∧
    (⟨"F002"⟩ : TicketId) ≠ ⟨"F003"⟩ ∧ ⟨"F002"⟩ ∉ boardState.tickets.map (·.id) :=
  ⟨rfl, rfl, createdIds_distinct rfl growing_fit (i := 0) (j := 2) nofun rfl rfl⟩

-- The only ticket of its type is turned down and swept away. The next creation counts from one again.
def refiling : Nat → Job
  | 0 => .create searchInput "noon"
  | 1 => .mutate (.single ⟨"F001"⟩ .po .rejected fun _ => .corrupt "not rejected")
  | 2 => .sweep "cxa"
  | _ => .create exportInput "noon"

theorem createdIds_reused : ¬ ∀ (w : World Doc) (handle : Nat → Nat) (jobs : Nat → Job)
    (sched : List Nat) (i j : Nat) (id id' : TicketId), i ≠ j →
    (Sys.run (sql Codec.plain) (backlog Codec.plain "cxa" handle jobs w) sched).prog i =
      .done (some (.ok id)) →
    (Sys.run (sql Codec.plain) (backlog Codec.plain "cxa" handle jobs w) sched).prog j =
      .done (some (.ok id')) → id ≠ id' := by
  intro h
  exact h {} (fun i => i) refiling [0, 0, 0, 0, 1, 1, 1, 1, 2, 2, 2, 2, 2, 2, 2, 3, 3, 3, 3] 0 3
    ⟨"F001"⟩ ⟨"F001"⟩ nofun rfl rfl rfl

end Reused
