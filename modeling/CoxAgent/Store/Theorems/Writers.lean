import CoxAgent.Store.Theorems.Evolution

variable {J ι : Type} {c : Codec J} {p : String} {q : Sql.Req J} {i : ι}
variable {s : ProjectState} {rev : Int}

-- The request wrote the row of the project.
def Commits (p : String) : Entry (Sql.iface J) ι → Bool
  | ⟨_, .guardedSave p' _ _ _ _, rows⟩ => p' = p ∧ (rows : Nat) = 1
  | _                                  => false

-- The clients that have written the row of the project, in the order of their writes.
def committed (p : String) (log : List (Entry (Sql.iface J) ι)) : List ι :=
  log.filter (Commits p) |>.map (·.client)

-- Whether a client has written the row can be seen in its own requests.
theorem mem_committed [DecidableEq ι] {cfg : Config (Sql.iface J) ι (World J)} :
    i ∈ committed p cfg.log ↔ ∃ e ∈ cfg.past i, Commits p e = true := by
  simp only [committed, List.mem_map, List.mem_filter, Config.past, decide_eq_true_eq]
  constructor
  · rintro ⟨e, ⟨hm, hc⟩, he⟩
    exact ⟨e, ⟨hm, he⟩, hc⟩
  · rintro ⟨e, ⟨hm, he⟩, hc⟩
    exact ⟨e, ⟨hm, hc⟩, he⟩

-- A step that changes neither the row of the project nor who has written it.
structure Quiet (p : String) (cfg cfg' : Config (Sql.iface J) ι (World J)) : Prop where
  rows      : cfg'.world.rows p = cfg.world.rows p
  committed : committed p cfg'.log = committed p cfg.log

theorem quiet_harmless {cfg : Config (Sql.iface J) ι (World J)} (h : Harmless q) :
    Quiet p cfg (cfg.serve (sql c) i q) := by
  have hc : Commits p (⟨i, q, (sql c q cfg.world).1⟩ : Entry (Sql.iface J) ι) = false := by
    cases q <;> first | rfl | contradiction
  constructor
  case rows      => simp [Config.serve, rows_harmless h]
  case committed => simp [committed, Config.serve, hc]

-- The archive is kept apart from the rows.
theorem quiet_put {cfg : Config (Sql.iface J) ι (World J)} {project : String} {t : Ticket} :
    Quiet p cfg (cfg.serve (sql c) i (.archivePut project t)) where
  rows      := by
    simp only [Config.serve, sql, World.archivePut]
    split <;> rfl
  committed := by simp [committed, Config.serve, Commits]

theorem upsert_eq {st : SqlStateStore} :
    st.upsert c s rev = .call (writeOf c st.projectId s rev) fun (rows : Nat) =>
      if rows = 0 then
        .call (.tombstoneExists st.projectId) fun gone =>
          .done <| .error <| if gone then refusal st.projectId else conflict
      else
        .done (.ok ()) := by
  unfold SqlStateStore.upsert
  simp only [ask_eq, Prog.call_bind, Prog.done_bind, Prog.pure_eq, ← apply_ite Except.error,
    ← apply_ite Prog.done, writeOf]

theorem commits_writeOf {rows : Nat} :
    Commits p (⟨i, writeOf c p s rev, rows⟩ : Entry (Sql.iface J) ι) = decide (rows = 1) := by
  simp [Commits, writeOf]

-- The write goes through.
structure Written (c : Codec J) (p : String) (s : ProjectState) (rev : Int) (i : ι)
    (cfg : Config (Sql.iface J) ι (World J)) : Prop where
  row       : cfg.world.rows p = none ∨ ∃ row, cfg.world.rows p = some row ∧ row.revision = rev
  reply     : (sql c (writeOf c p s rev) cfg.world).1 = (1 : Nat)
  stored    : (cfg.serve (sql c) i (writeOf c p s rev)).world.stored c p = some s
  shards    : ∀ row, (cfg.serve (sql c) i (writeOf c p s rev)).world.rows p = some row →
                row.shards = (some <| shardDoc c s ·)
  committed : committed p (cfg.serve (sql c) i (writeOf c p s rev)).log =
                committed p cfg.log ++ [i]
  evolves   : Evolves p cfg.world (cfg.serve (sql c) i (writeOf c p s rev)).world

-- The client counts as one that has written for as long as it makes no further requests.
theorem mem_committed_written [DecidableEq ι] {cfg cfg' : Config (Sql.iface J) ι (World J)}
    (h : Written c p s rev i cfg)
    (hp : cfg'.past i = (cfg.serve (sql c) i (writeOf c p s rev)).past i) :
    i ∈ committed p cfg'.log := by
  have hi : i ∈ committed p (cfg.serve (sql c) i (writeOf c p s rev)).log := by
    simp [h.committed]
  rwa [mem_committed, hp, ← mem_committed]

theorem write_cases (c : Codec J) (p : String) (s : ProjectState) (rev : Int) (i : ι)
    (cfg : Config (Sql.iface J) ι (World J)) :
    (sql c (writeOf c p s rev) cfg.world).1 = (0 : Nat) ∧
      Quiet p cfg (cfg.serve (sql c) i (writeOf c p s rev)) ∨
    Written c p s rev i cfg := by
  have he : Evolves p cfg.world (cfg.serve (sql c) i (writeOf c p s rev)).world := .save
  cases cfg.world.guardedSave_cases p (min s.schemaVersion (2 ^ 31 - 1)) (c.ofState s) rev
    (shardDoc c s)
  case inl h =>
    have hr : sql c (writeOf c p s rev) cfg.world = ((0 : Nat), cfg.world) := h
    refine .inl ⟨by rw [hr], ?_, ?_⟩
    · simp [Config.serve, hr]
    · simp [committed, Config.serve, hr, commits_writeOf]
  case inr h =>
    obtain ⟨n, _, hn, h⟩ := h
    have hw : sql c (writeOf c p s rev) cfg.world = ((1 : Nat), _) := h
    refine .inr ⟨?_, by rw [hw], ?_, ?_, ?_, he⟩
    · cases hn
      case inl hn => exact .inl hn.left
      case inr hn =>
        obtain ⟨old, ho, hv, _⟩ := hn
        exact .inr ⟨old, ho, hv⟩
    · simp [Config.serve, hw, World.stored, c.toState_ofState, Except.toOption]
    · intro row hr
      simp only [Config.serve, hw, World.setRow_self, Option.some.injEq] at hr
      rw [← hr]
    · simp [committed, Config.serve, hw, commits_writeOf]

variable [DecidableEq ι] {P : Protocol (Sql.iface J) ι (World J)} {st : SqlStateStore}
variable {L : Config (Sql.iface J) ι (World J) → Prop} {cfg : Config (Sql.iface J) ι (World J)}
variable {post : Except PortError Unit → Config (Sql.iface J) ι (World J) → Prop}

namespace Protocol

-- Client `i` can count on `L` until it writes the row or the archive: neither the others nor its own
-- quiet steps, all of which the protocol allows, take it away.
structure Tame (P : Protocol (Sql.iface J) ι (World J)) (c : Codec J) (p : String) (i : ι)
    (L : Config (Sql.iface J) ι (World J) → Prop) : Prop where
  evolves : ∀ {cfg cfg'}, P.guar cfg cfg' → Evolves p cfg.world cfg'.world
  allowed : ∀ {cfg q}, ¬ q.IsPut → Quiet p cfg (cfg.serve (sql c) i q) → P.Allows (sql c) i q cfg
  stable  : ∀ {cfg cfg'}, P.Meanwhile i cfg cfg' → L cfg → L cfg'
  kept    : ∀ {cfg q}, ¬ q.IsPut → Quiet p cfg (cfg.serve (sql c) i q) → L cfg →
              L (cfg.serve (sql c) i q)

-- A write that goes through may be made, and `post` holds from then on.
def SafeWrite (P : Protocol (Sql.iface J) ι (World J)) (c : Codec J) (p : String) (i : ι)
    (post : Except PortError Unit → Config (Sql.iface J) ι (World J) → Prop) (s : ProjectState)
    (rev : Int) (cfg : Config (Sql.iface J) ι (World J)) : Prop :=
  Written c p s rev i cfg → P.Allows (sql c) i (writeOf c p s rev) cfg ∧
    ∀ cfg', P.Meanwhile i (cfg.serve (sql c) i (writeOf c p s rev)) cfg' → post (.ok ()) cfg'

namespace Tame

theorem call {α : Type} {post : α → Config (Sql.iface J) ι (World J) → Prop}
    {k : Sql.Rep q → SqlProg J α} (h : P.Tame c p i L) (hq : Harmless q) (hl : L cfg)
    (hk : ∀ cfg', P.Meanwhile i cfg cfg' → P.assume i q cfg' → L (cfg'.serve (sql c) i q) →
      P.Safe (sql c) i post (k (sql c q cfg'.world).1) (cfg'.serve (sql c) i q)) :
    P.Safe (sql c) i post (.call q k) cfg := by
  intro cfg' hm ha
  have hs : Quiet p cfg' (cfg'.serve (sql c) i q) := quiet_harmless hq
  have hn := not_isPut_harmless hq
  exact ⟨h.allowed hn hs, hk cfg' hm ha (h.kept hn hs (h.stable hm hl))⟩

theorem fail {e : PortError} (h : P.Tame c p i L) (hf : ∀ e cfg, L cfg → post (.error e) cfg)
    (hl : L cfg) : P.Safe (sql c) i post (.done (.error e)) cfg :=
  fun cfg' hm => hf e cfg' (h.stable hm hl)

theorem refuse {refused : RefusedSave} (h : P.Tame c p i L)
    (hf : ∀ e cfg, L cfg → post (.error e) cfg) (hl : L cfg) :
    P.Safe (sql c) i post (st.refuse refused) cfg := by
  unfold SqlStateStore.refuse
  cases refused.quarantined
  case none => exact h.fail hf hl
  case some entry =>
    simp only [ask_eq, Prog.call_bind, Prog.done_bind, Prog.pure_eq]
    refine h.call trivial hl fun cfg' _ _ hl => ?_
    split
    case isTrue  => exact h.fail hf hl
    case isFalse => exact h.call trivial hl fun cfg' _ _ hl => h.fail hf hl

theorem upsert (h : P.Tame c st.projectId i L) (hf : ∀ e cfg, L cfg → post (.error e) cfg)
    (hw : ∀ cfg', Evolves st.projectId cfg.world cfg'.world →
      P.assume i (writeOf c st.projectId s rev) cfg' → L cfg' →
      P.SafeWrite c st.projectId i post s rev cfg') (hl : L cfg) :
    P.Safe (sql c) i post (st.upsert c s rev) cfg := by
  rw [upsert_eq]
  intro cfg' hm ha
  have hl := h.stable hm hl
  cases write_cases c st.projectId s rev i cfg'
  case inl hq =>
    obtain ⟨hr, hq⟩ := hq
    refine ⟨h.allowed id hq, ?_⟩
    simp only [hr, ↓reduceIte]
    exact h.call trivial (h.kept id hq hl) fun cfg' _ _ hl => h.fail hf hl
  case inr hq =>
    obtain ⟨ha, hp⟩ := hw cfg' (h.evolves hm.right) ha hl hq
    refine ⟨ha, ?_⟩
    simp only [hq.reply, one_ne_zero, ↓reduceIte]
    exact hp

-- A state that the store takes passes the tombstone and the gate.
theorem persistAtRevision {expected : Option Int} (h : P.Tame c st.projectId i L)
    (hf : ∀ e cfg, L cfg → post (.error e) cfg)
    (hk : ∀ s' cfg', P.Meanwhile i cfg cfg' → gateSave s = .ok s' →
      L (cfg'.serve (sql c) i (.isDeleted st.handle)) →
      P.Safe (sql c) i post
        (match expected with
        | some rev => st.upsert c s' rev
        | none     => do
          match ← st.loadVersioned c with
          | .error e     => return .error e
          | .ok (rev, _) => st.upsert c s' rev)
        (cfg'.serve (sql c) i (.isDeleted st.handle)))
    (hl : L cfg) : P.Safe (sql c) i post (st.persistAtRevision c s expected) cfg := by
  unfold SqlStateStore.persistAtRevision
  simp only [ask_eq, Prog.call_bind, Prog.done_bind, Prog.pure_eq]
  refine h.call trivial hl fun cfg' hm _ hl => ?_
  split
  case isTrue => exact h.fail hf hl
  case isFalse =>
    cases hg : gateSave s
    case error => exact h.refuse hf hl
    case ok s' => exact hk s' cfg' hm hg hl

-- A save at a given revision.
theorem saveExpecting (h : P.Tame c st.projectId i L) (hf : ∀ e cfg, L cfg → post (.error e) cfg)
    (hw : ∀ s' cfg', gateSave s = .ok s' → Evolves st.projectId cfg.world cfg'.world →
      P.assume i (writeOf c st.projectId s' rev) cfg' → L cfg' →
      P.SafeWrite c st.projectId i post s' rev cfg') (hl : L cfg) :
    P.Safe (sql c) i post (st.saveExpecting c s (some rev)) cfg := by
  refine h.persistAtRevision hf (fun s' cfg' hm hg hl => ?_) hl
  refine h.upsert hf (fun cfg'' he ha hl => hw s' cfg'' hg ?_ ha hl) hl
  exact (h.evolves hm.right).trans he

end Tame

end Protocol

-- Clients that each keep an invariant, with what is assumed of their requests.
def rowProtocol (p : String) (Inv : Config (Sql.iface J) ι (World J) → Prop)
    (assume : ι → Sql.Req J → Config (Sql.iface J) ι (World J) → Prop) :
    Protocol (Sql.iface J) ι (World J) where
  guar cfg cfg'   := (Inv cfg → Inv cfg') ∧ Evolves p cfg.world cfg'.world
  assume          := assume
  ensure _ _ _    := True
  guar_refl _     := ⟨id, .refl⟩
  guar_trans h h' := ⟨h'.left ∘ h.left, h.right.trans h'.right⟩

-- Until a client writes, it can count on the invariant and on not having written.
theorem rowProtocol_tame {Inv : Config (Sql.iface J) ι (World J) → Prop}
    {assume : ι → Sql.Req J → Config (Sql.iface J) ι (World J) → Prop}
    (h : ∀ cfg cfg', Quiet p cfg cfg' → Inv cfg → Inv cfg') :
    (rowProtocol p Inv assume).Tame c p i fun cfg => Inv cfg ∧ i ∉ committed p cfg.log where
  evolves hg   := hg.right
  allowed _ hq := ⟨trivial, h _ _ hq, .same hq.rows⟩
  stable hm hl := ⟨hm.right.left hl.left, by simpa only [mem_committed, hm.left] using hl.right⟩
  kept _ hq hl := ⟨h _ _ hq hl.left, hq.committed ▸ hl.right⟩
