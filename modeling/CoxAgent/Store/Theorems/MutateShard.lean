import CoxAgent.Store.Theorems.Columns
import CoxAgent.Store.Theorems.Mutate

variable {J ι : Type} {c : Codec J} {p : String} {rev : Int} {kind : ShardKind}
variable {s s₀ : ProjectState} {shard : StateShard} {g : ShardData → Except PortError ShardData}

-- The mutator of a shard as a mutator of the whole state.
def onShard (kind : ShardKind) (g : ShardData → Except PortError ShardData) (s : ProjectState) :
    Except PortError ProjectState :=
  g (s.shard kind).data |>.map fun data => s.withShard { s.shard kind with data }

-- The mutator keeps the variant of its payload.
def KeepsKind (kind : ShardKind) (g : ShardData → Except PortError ShardData) : Prop :=
  ∀ d d', d.kind = kind → g d = .ok d' → d'.kind = kind

theorem onShard_ok (h : onShard kind g s₀ = .ok s) :
    ∃ data, g (s₀.shard kind).data = .ok data ∧ s = s₀.withShard { s₀.shard kind with data } := by
  unfold onShard at h
  cases hg : g (s₀.shard kind).data
  case error =>
    rw [hg] at h
    contradiction
  case ok data =>
    rw [hg] at h
    cases h
    exact ⟨data, rfl, rfl⟩

theorem onShard_self (hg : KeepsKind kind g) (h : onShard kind g s₀ = .ok s) :
    g (s₀.shard kind).data = .ok (s.shard kind).data := by
  have ⟨data, hd, hs⟩ := onShard_ok h
  rw [hs, ProjectState.shard_withShard (hg _ _ (by simp) hd), hd]

theorem onShard_ne {kind' : ShardKind} (hg : KeepsKind kind g) (hk : kind ≠ kind')
    (h : onShard kind g s₀ = .ok s) : s.shard kind' = s₀.shard kind' := by
  have ⟨data, hd, hs⟩ := onShard_ok h
  rw [hs]
  exact ProjectState.shard_withShard_ne (hg _ _ (by simp) hd ▸ hk)

section Fold

variable {k : ι → ShardKind} {g : ι → ShardData → Except PortError ShardData} {order : List ι}

-- Mutators of different shards commute: each shard only sees its own.
theorem foldlM_onShard (hg : ∀ i, KeepsKind (k i) (g i))
    (h : order.foldlM (fun s i => onShard (k i) (g i) s) s₀ = .ok s) (kind : ShardKind) :
    (order.filter (k · = kind)).foldlM (fun d i => g i d) (s₀.shard kind).data =
      .ok (s.shard kind).data := by
  induction order generalizing s₀
  case nil =>
    cases h
    rfl
  case cons i order hi =>
    cases hs : onShard (k i) (g i) s₀
    case error => simp [hs, bind, Except.bind] at h
    case ok s₁ =>
      simp only [List.foldlM_cons, hs, bind, Except.bind] at h
      by_cases hk : k i = kind
      case pos =>
        subst hk
        simp only [List.filter_cons, decide_true, ↓reduceIte, List.foldlM_cons,
          onShard_self (hg i) hs, bind, Except.bind]
        exact hi h
      case neg =>
        simp only [List.filter_cons, hk, decide_false, Bool.false_eq_true, ↓reduceIte,
          ← onShard_ne (hg i) hk hs]
        exact hi h

end Fold

-- A column that is not null holds the projection of the state in the document.
def ColumnsHold (c : Codec J) (p : String) (w : World J) : Prop :=
  ∃ s, w.stored c p = some s ∧ ∀ row, w.rows p = some row → ∀ kind v, row.shards kind = some v →
    v = shardDoc c s kind

theorem columnsHold_absent {w : World J} (h : w.rows p = none) : ColumnsHold c p w :=
  ⟨{}, by simp [World.stored, h], by simp [h]⟩

theorem decodeShard_shardDoc (h : decodeShard c kind (shardDoc c s kind) = .ok shard) :
    shard = s.shard kind := by
  by_cases hk : kind = .work
  case pos =>
    subst hk
    cases decodeShard_work (c := c) (s := s)
    case inl hd =>
      have ⟨e, he, _⟩ := hd
      rw [h] at he
      contradiction
    case inr hd =>
      rw [h] at hd
      exact Except.ok.inj hd.left
  case neg =>
    rw [decodeShard_ne hk] at h
    exact (Except.ok.inj h).symm

-- The requests of a client end with a read that served the shard.
inductive Loaded (c : Codec J) (p : String) (kind : ShardKind) (i : ι) :
    List (Entry (Sql.iface J) ι) → StateShard → Prop
  | absent {l} : Loaded c p kind i (l ++ [⟨i, .selectShard p kind, none⟩]) (defaultShard kind)
  | column {l v shard} : decodeShard c kind v = .ok shard →
      Loaded c p kind i (l ++ [⟨i, .selectShard p kind, some (some v)⟩]) shard
  | envelope {l row rev s} : decodeRow c row = .ok (rev, s) →
      Loaded c p kind i (l ++ [⟨i, .selectShard p kind, some none⟩, ⟨i, .selectRow p, row⟩])
        (s.shard kind)

variable [DecidableEq ι] {i : ι} {P : Protocol (Sql.iface J) ι (World J)} {st : SqlStateStore}
variable {L : Config (Sql.iface J) ι (World J) → Prop} {cfg : Config (Sql.iface J) ι (World J)}

-- When the merge base of a save is read, its shard is still the one that the client has loaded.
def ShardFresh (c : Codec J) (p : String) (kind : ShardKind) (i : ι)
    (cfg : Config (Sql.iface J) ι (World J)) : Prop :=
  ∀ shard s, Loaded c p kind i (cfg.past i) shard → cfg.world.stored c p = some s →
    s.shard kind = shard

-- The shard was that of the stored state at a time when `L` was true.
def ReadWhile (c : Codec J) (p : String) (kind : ShardKind)
    (L : Config (Sql.iface J) ι (World J) → Prop) (shard : StateShard) : Prop :=
  ∃ cfg s, L cfg ∧ cfg.world.stored c p = some s ∧ s.shard kind = shard

namespace Protocol.Tame

theorem loadShard {post : Except PortError StateShard → Config (Sql.iface J) ι (World J) → Prop}
    (h : P.Tame c st.projectId i L) (hc : ∀ cfg, L cfg → ColumnsHold c st.projectId cfg.world)
    (hf : ∀ e cfg, L cfg → post (.error e) cfg)
    (hp : ∀ shard cfg, Loaded c st.projectId kind i (cfg.past i) shard →
      ReadWhile c st.projectId kind L shard → L cfg → post (.ok shard) cfg) (hl : L cfg) :
    P.Safe (sql c) i post (st.loadShard c kind) cfg := by
  unfold SqlStateStore.loadShard SqlStateStore.load SqlStateStore.loadVersioned
  simp only [ask_eq, Prog.call_bind, Prog.done_bind, Prog.pure_eq]
  refine h.call trivial hl fun cfg₁ hm₁ _ hl₁ => ?_
  have hl := h.stable hm₁ hl
  have hpast : (cfg₁.serve (sql c) i (.selectShard st.projectId kind)).past i = _ :=
    Config.past_serve_self
  have hr : (sql c (.selectShard st.projectId kind) cfg₁.world).1 =
    (cfg₁.world.rows st.projectId).map (·.shards kind) := rfl
  rw [hr] at hpast ⊢
  cases hrow : cfg₁.world.rows st.projectId
  case none =>
    rw [hrow] at hpast
    refine fun cfg₂ hm₂ => hp _ _ (by rw [hm₂.left, hpast]; exact .absent) ?_ (h.stable hm₂ hl₁)
    exact ⟨cfg₁, {}, hl, by simp [World.stored, hrow], defaultShard_eq.symm⟩
  case some row =>
    simp only [hrow, Option.map_some] at hpast ⊢
    cases hv : row.shards kind
    case some v =>
      rw [hv] at hpast
      dsimp only
      obtain ⟨s, hs, hcol⟩ := hc cfg₁ hl
      cases hd : decodeShard c kind v
      case error => exact fun cfg₂ hm₂ => hf _ _ (h.stable hm₂ hl₁)
      case ok shard =>
        refine fun cfg₂ hm₂ => hp _ _ ?_ ⟨cfg₁, s, hl, hs, ?_⟩ (h.stable hm₂ hl₁)
        · rw [hm₂.left, hpast]
          exact .column hd
        · rw [hcol row hrow kind v hv] at hd
          exact (decodeShard_shardDoc hd).symm
    case none =>
      rw [hv] at hpast
      refine h.call trivial hl₁ fun cfg₂ hm₂ _ hl₂ => ?_
      have hr : (sql c (.selectRow st.projectId) cfg₂.world).1 =
        cfg₂.world.selectRow st.projectId := rfl
      rw [hr]
      cases hd : decodeRow c (cfg₂.world.selectRow st.projectId)
      case error => exact fun cfg₃ hm₃ => hf _ _ (h.stable hm₃ hl₂)
      case ok row' =>
        obtain ⟨rev, s⟩ := row'
        refine fun cfg₃ hm₃ => hp _ _ ?_ ⟨cfg₂, s, ?_, stored_of_decodeRow hd, rfl⟩
          (h.stable hm₃ hl₂)
        · rw [hm₃.left, Config.past_serve_self, hm₂.left, hpast, List.append_assoc]
          exact .envelope hd
        · exact h.stable hm₂ hl₁

variable {post : Except PortError Unit → Config (Sql.iface J) ι (World J) → Prop}

-- A save of what was made of a shard that was loaded just before.
theorem saveShard {data : ShardData} (h : P.Tame c st.projectId i L)
    (ha : ∀ cfg s, P.assume i (.selectRow st.projectId) cfg → L cfg →
      Loaded c st.projectId kind i (cfg.past i) shard → cfg.world.stored c st.projectId = some s →
      s.shard kind = shard)
    (hf : ∀ e cfg, L cfg → post (.error e) cfg)
    (hw : ∀ s s' rev cfg', cfg'.world.stored c st.projectId = some s → s.shard kind = shard →
      gateSave (s.withShard { shard with data }) = .ok s' →
      P.assume i (writeOf c st.projectId s' rev) cfg' → L cfg' →
      P.SafeWrite c st.projectId i post s' rev cfg')
    (hp : Loaded c st.projectId kind i (cfg.past i) shard) (hl : L cfg) :
    P.Safe (sql c) i post (st.saveShard c { shard with data }) cfg := by
  unfold SqlStateStore.saveShard SqlStateStore.saveShardExpecting SqlStateStore.loadVersioned
  simp only [ask_eq, Prog.call_bind, Prog.done_bind, Prog.pure_eq]
  refine h.call trivial hl fun cfg₁ hm₁ hb hl₁ => ?_
  have hr : (sql c (.selectRow st.projectId) cfg₁.world).1 =
    cfg₁.world.selectRow st.projectId := rfl
  rw [hr]
  cases hd : decodeRow c (cfg₁.world.selectRow st.projectId)
  case error => exact h.fail hf hl₁
  case ok row =>
    obtain ⟨rev, s⟩ := row
    have hs := ha cfg₁ s hb (h.stable hm₁ hl) (hm₁.left ▸ hp) (stored_of_decodeRow hd)
    refine h.saveExpecting hf (fun s' cfg₂ hg he hb hl hq => ?_) hl₁
    exact hw s s' rev cfg₂ (stored_of_read he hd hq.row) hs hg hb hl hq

theorem mutateShard (h : P.Tame c st.projectId i L)
    (hc : ∀ cfg, L cfg → ColumnsHold c st.projectId cfg.world)
    (ha : ∀ cfg s shard, P.assume i (.selectRow st.projectId) cfg → L cfg →
      ReadWhile c st.projectId kind L shard → Loaded c st.projectId kind i (cfg.past i) shard →
      cfg.world.stored c st.projectId = some s → s.shard kind = shard)
    (hf : ∀ e cfg, L cfg → post (.error e) cfg)
    (hw : ∀ s s' s'' rev cfg', cfg'.world.stored c st.projectId = some s →
      onShard kind g s = .ok s' → gateSave s' = .ok s'' →
      P.assume i (writeOf c st.projectId s'' rev) cfg' → L cfg' →
      P.SafeWrite c st.projectId i post s'' rev cfg')
    (hl : L cfg) : P.Safe (sql c) i post (st.mutateShard c kind g) cfg := by
  suffices hgo : ∀ n last cfg, L cfg →
      P.Safe (sql c) i post (SqlStateStore.mutateShard.go c st kind g n last) cfg from hgo _ _ cfg hl
  intro n
  induction n
  case zero => exact fun last cfg hl => h.fail hf hl
  case succ n hi =>
    intro last cfg hl
    unfold SqlStateStore.mutateShard.go
    refine .bind (h.loadShard hc (fun e cfg hl => h.fail hf hl) (fun shard cfg hp hr hl => ?_) hl)
    dsimp only
    cases hs : g shard.data
    case error e => exact h.fail hf hl
    case ok data =>
      refine .bind (h.saveShard (fun cfg s hb hl => ha cfg s shard hb hl hr) ?_ ?_ hp hl)
      · intro e cfg hl
        cases e
        case conflict e => exact hi _ _ hl
        all_goals exact h.fail hf hl
      · intro s s' rev cfg' hst hsh hg hb hl hq
        subst hsh
        have hs : onShard kind g s = .ok (s.withShard { s.shard kind with data }) := by
          simp [onShard, hs, Except.map]
        obtain ⟨ha, hp⟩ := hw s _ s' rev cfg' hst hs hg hb hl hq
        exact ⟨ha, fun cfg₁ hm₁ cfg₂ hm₂ => hp cfg₂ (hm₁.trans hm₂)⟩

end Protocol.Tame

variable {k : ι → ShardKind} {g : ι → ShardData → Except PortError ShardData}
variable {handle : ι → Nat} {w : World J} {sched : List ι}

-- Any number of clients that each run `mutate_shard` on one project.
def mutatingShards (c : Codec J) (p : String) (handle : ι → Nat) (k : ι → ShardKind)
    (g : ι → ShardData → Except PortError ShardData) (w : World J) :
    Sys (Sql.iface J) ι (World J) (Except PortError Unit) :=
  Sys.init w fun i => SqlStateStore.mutateShard c ⟨handle i, p⟩ (k i) (g i)

def ShardsSerial (c : Codec J) (p : String) (k : ι → ShardKind)
    (g : ι → ShardData → Except PortError ShardData) (s₀ : ProjectState)
    (cfg : Config (Sql.iface J) ι (World J)) : Prop :=
  Serial c p (fun i => onShard (k i) (g i)) s₀ cfg ∧ ColumnsHold c p cfg.world

-- What is assumed of the requests of the clients. A client that is alone on its shard need not be
-- lucky.
structure BaseFresh (c : Codec J) (p : String) (k : ι → ShardKind)
    (g : ι → ShardData → Except PortError ShardData) (i : ι) (q : Sql.Req J)
    (cfg : Config (Sql.iface J) ι (World J)) : Prop where
  base : q = .selectRow p → (∃ j, j ≠ i ∧ k j = k i) → ShardFresh c p (k i) i cfg
  kept : ∀ s rev, q = writeOf c p s rev → GateKeeps c p (fun i => onShard (k i) (g i)) i cfg.world

def FreshShardStep {α : Type} (c : Codec J) (p : String) (k : ι → ShardKind)
    (s : Sys (Sql.iface J) ι (World J) α) (i : ι) : Prop :=
  ∀ k', s.prog i = .call (.selectRow p) k' → (∃ j, j ≠ i ∧ k j = k i) →
    ShardFresh c p (k i) i s.toConfig

omit [DecidableEq ι] in
theorem ShardsSerial.quiet {cfg cfg' : Config (Sql.iface J) ι (World J)} (hq : Quiet p cfg cfg')
    (h : ShardsSerial c p k g s₀ cfg) : ShardsSerial c p k g s₀ cfg' :=
  ⟨h.left.quiet hq, by simpa only [ColumnsHold, World.stored, hq.rows] using h.right⟩

omit [DecidableEq ι] in
-- The shard of a client that is alone on it does not change before the client writes.
theorem ShardsSerial.alone (h : ShardsSerial c p k g s₀ cfg) (hg : ∀ i, KeepsKind (k i) (g i))
    (hn : i ∉ committed p cfg.log) (hk : ¬ ∃ j, j ≠ i ∧ k j = k i)
    (hst : cfg.world.stored c p = some s) : s.shard (k i) = s₀.shard (k i) := by
  have ⟨_, s₁, hs₁, hfold⟩ := h.left
  cases hs₁.symm.trans hst
  have hnil : (committed p cfg.log).filter (k · = k i) = [] := by
    refine List.filter_eq_nil_iff.mpr fun j hj he => hk ⟨j, ?_, by simpa using he⟩
    rintro rfl
    exact hn hj
  have hf := foldlM_onShard hg hfold (k i)
  rw [hnil] at hf
  exact ProjectState.shard_eq_of_data (Except.ok.inj hf).symm

theorem mutatingShards_safe (hg : ∀ i, KeepsKind (k i) (g i)) (hw : w.stored c p = some s₀)
    (hc : ColumnsHold c p w) :
    (mutatingShards c p handle k g w).Safe
      (rowProtocol p (ShardsSerial c p k g s₀) (BaseFresh c p k g)) (sql c)
      fun i a cfg => a = .ok () → i ∈ committed p cfg.log := by
  intro i
  refine Protocol.Tame.mutateShard (rowProtocol_tame fun _ _ => .quiet) ?_ ?_ ?_ ?_ ?_
  · exact fun cfg hl => hl.left.right
  · intro cfg s shard hb hl hr hp hst
    by_cases hk : ∃ j, j ≠ i ∧ k j = k i
    case pos => exact hb.base rfl hk shard s hp hst
    case neg =>
      have ⟨cfg₁, s₁, hl₁, hst₁, he⟩ := hr
      rw [hl.left.alone hg hl.right hk hst, ← he, hl₁.left.alone hg hl₁.right hk hst₁]
  · exact fun e cfg _ h => by contradiction
  · intro s s' s'' rev cfg hst hs hgate hb hl hq
    cases hb.kept _ _ rfl s s' s'' hst hs hgate
    refine ⟨⟨trivial, fun h => ⟨.write hl.right hst hs hq h.left, ?_⟩, hq.evolves⟩, ?_⟩
    · refine ⟨s', hq.stored, fun row hr kind v hv => ?_⟩
      rw [hq.shards row hr] at hv
      exact (Option.some.inj hv).symm
    · exact fun cfg' hm _ => mem_committed_written hq hm.left
  · exact ⟨⟨⟨.nil, s₀, hw, rfl⟩, hc⟩, List.not_mem_nil⟩

-- If no other write to the same shard falls between a client's load and the read of its merge base,
-- there is nothing for the gate to repair when a client writes and each mutator keeps the variant of
-- its payload, then no update is lost. Clients on different shards do not disturb each other at all.
theorem mutateShard_serial (hw : w.stored c p = some s₀) (hc : ColumnsHold c p w)
    (hg : ∀ i, KeepsKind (k i) (g i))
    (hm : Sys.Meets (sql c) (FreshShardStep c p k) (mutatingShards c p handle k g w) sched)
    (hk : Sys.Meets (sql c) (KeptStep c p fun i => onShard (k i) (g i))
      (mutatingShards c p handle k g w) sched)
    (hd : ∀ i, (Sys.run (sql c) (mutatingShards c p handle k g w) sched).prog i = .done (.ok ())) :
    ∃ s, (Sys.run (sql c) (mutatingShards c p handle k g w) sched).world.stored c p = some s ∧
      ∀ kind, ∃ order : List ι, order.Nodup ∧ (∀ i, i ∈ order ↔ k i = kind) ∧
        order.foldlM (fun d i => g i d) (s₀.shard kind).data = .ok (s.shard kind).data := by
  have hm : Sys.Meets (sql c) (rowProtocol p (ShardsSerial c p k g s₀) (BaseFresh c p k g)).Assumed
      (mutatingShards c p handle k g w) sched := by
    refine (hm.and hk).mono fun s i h q k hq => ⟨fun he => ?_, fun s' rev he => ?_⟩
    · subst he
      exact h.left k hq
    · subst he
      exact h.right s' rev k hq
  have ⟨hgu, hs⟩ := (mutatingShards_safe hg hw hc).run hm
  have ⟨hn, s, hst, hfold⟩ := (hgu.left ⟨⟨.nil, s₀, hw, rfl⟩, hc⟩).left
  refine ⟨s, hst, fun kind => ⟨_, hn.filter _, fun i => ?_, foldlM_onShard hg hfold kind⟩⟩
  have hi := hs.returned (hd i) rfl
  simp [hi]

namespace FreshShardStep

variable {α : Type} {s : Sys (Sql.iface J) ι (World J) α} {l : List (Entry (Sql.iface J) ι)}

theorem of_ne {q : Sql.Req J} {k' : Sql.Rep q → SqlProg J α} (h : s.prog i = .call q k')
    (hq : q ≠ .selectRow p) : FreshShardStep c p k s i :=
  fun _ h' => absurd (Prog.call_inj h h') hq

theorem of_alone (h : ¬ ∃ j, j ≠ i ∧ k j = k i) : FreshShardStep c p k s i :=
  fun _ _ h' => absurd h' h

theorem of_absent (hp : s.past i = l ++ [⟨i, .selectShard p (k i), none⟩])
    (hr : s.world.rows p = none) : FreshShardStep c p k s i := by
  intro _ _ _ shard s' hl hs
  have hs' : s' = {} := by
    simpa [World.stored, hr] using hs.symm
  generalize hp' : s.past i = past at hl
  rw [hp] at hp'
  cases hl
  case absent => rw [hs', defaultShard_eq]
  case column => cases (List.append_inj' hp' rfl).right
  case envelope =>
    have hp' := congrArg List.getLast? hp'
    simp at hp'

theorem of_column {v : J} (hp : s.past i = l ++ [⟨i, .selectShard p (k i), some (some v)⟩])
    (hd : decodeShard c (k i) v = .ok shard)
    (hs : (s.world.stored c p).map (·.shard (k i)) = some shard) : FreshShardStep c p k s i := by
  intro _ _ _ shard' s' hl hs'
  rw [hs'] at hs
  generalize hp' : s.past i = past at hl
  rw [hp] at hp'
  cases hl
  case absent => cases (List.append_inj' hp' rfl).right
  case column hd' =>
    cases (List.append_inj' hp' rfl).right
    cases hd.symm.trans hd'
    exact Option.some.inj hs
  case envelope =>
    have hp' := congrArg List.getLast? hp'
    simp at hp'

end FreshShardStep

-- Add a folder to the docs, or count one more failure of the operations.
def touch : ShardData → Except PortError ShardData
  | .docs data => .ok (.docs { data with docFolders := data.docFolders ++ ["notes"] })
  | .ops data  => .ok (.ops { data with opsDownStreak := data.opsDownStreak + 1 })
  | data       => .ok data

theorem keepsKind_touch : KeepsKind kind touch := by
  intro d d' hk ht
  subst hk
  cases d <;> cases ht <;> rfl

theorem clean_touch (hs : s₀.Clean) (h : onShard kind touch s₀ = .ok s) : s.Clean := by
  cases kind <;> cases h <;> exact hs

omit [DecidableEq ι] in
theorem foldlM_touch {order : List ι} {d d' : DocsShard}
    (h : order.foldlM (fun d _ => touch d) (.docs d) = .ok (.docs d')) :
    d'.docFolders.length = d.docFolders.length + order.length := by
  induction order generalizing d
  case nil =>
    cases h
    rfl
  case cons i order hi =>
    have := hi h
    simp only [this, List.length_append, List.length_cons, List.length_nil]
    omega

-- Two clients on the docs and one on the operations, whose call is interrupted by all of the first.
theorem mutateShard_serial_mixed : ∃ s,
    (Sys.run (sql Codec.plain) (mutatingShards Codec.plain "cxa" Fin.val
      (fun i : Fin 3 => if i = 2 then .ops else .docs) (fun _ => touch) {})
      [2, 0, 0, 0, 0, 2, 2, 2, 1, 1, 1, 1]).world.stored Codec.plain "cxa" = some s ∧
    ∀ kind, ∃ order : List (Fin 3), order.Nodup ∧
      (∀ i, i ∈ order ↔ (if i = 2 then ShardKind.ops else .docs) = kind) ∧
      order.foldlM (fun d _ => touch d) (({} : ProjectState).shard kind).data =
        .ok (s.shard kind).data := by
  apply mutateShard_serial
  case hw => rfl
  case hc => exact columnsHold_absent rfl
  case hg => exact fun _ => keepsKind_touch
  case hd => exact fun | 0 => rfl | 1 => rfl | 2 => rfl
  case hm =>
    exact .cons (.of_ne rfl nofun) <| .cons (.of_ne rfl nofun) <|
      .cons (.of_absent (l := []) rfl rfl) <| .cons (.of_ne rfl nofun) <|
      .cons (.of_ne rfl nofun) <| .cons (.of_alone (by decide)) <| .cons (.of_ne rfl nofun) <|
      .cons (.of_ne rfl nofun) <| .cons (.of_ne rfl nofun) <|
      .cons (.of_column (l := []) rfl rfl rfl) <| .cons (.of_ne rfl nofun) <|
      .cons (.of_ne rfl nofun) trivial
  case hk =>
    exact .cons (.of_harmless rfl trivial) <| .cons (.of_harmless rfl trivial) <|
      .cons (.of_harmless rfl trivial) <| .cons (.of_harmless rfl trivial) <|
      .cons (.of_clean rfl fun _ => clean_touch ⟨rfl, rfl⟩) <| .cons (.of_harmless rfl trivial) <|
      .cons (.of_harmless rfl trivial) <| .cons (.of_clean rfl fun _ => clean_touch ⟨rfl, rfl⟩) <|
      .cons (.of_harmless rfl trivial) <| .cons (.of_harmless rfl trivial) <|
      .cons (.of_harmless rfl trivial) <|
      .cons (.of_clean rfl fun _ => clean_touch ⟨rfl, rfl⟩) trivial

-- The second client runs from start to end between the first client's load and the read of its merge
-- base.
theorem mutateShard_loses_update : ¬ ∀ (w : World Doc) (handle : Fin 2 → Nat) (s₀ : ProjectState)
    (k : Fin 2 → ShardKind) (g : Fin 2 → ShardData → Except PortError ShardData)
    (sched : List (Fin 2)), w.stored Codec.plain "cxa" = some s₀ → ColumnsHold Codec.plain "cxa" w →
    (∀ i, (Sys.run (sql Codec.plain) (mutatingShards Codec.plain "cxa" handle k g w) sched).prog i =
      .done (.ok ())) →
    ∃ s, (Sys.run (sql Codec.plain) (mutatingShards Codec.plain "cxa" handle k g w)
        sched).world.stored Codec.plain "cxa" = some s ∧
      ∀ kind, ∃ order : List (Fin 2), order.Nodup ∧ (∀ i, i ∈ order ↔ k i = kind) ∧
        order.foldlM (fun d i => g i d) (s₀.shard kind).data = .ok (s.shard kind).data := by
  intro h
  have ⟨s, hs, hk⟩ := h {} Fin.val {} (fun _ => .docs) (fun _ => touch) [0, 1, 1, 1, 1, 0, 0, 0]
    rfl (columnsHold_absent rfl) fun | 0 => rfl | 1 => rfl
  have ⟨order, _, hm, hf⟩ := hk .docs
  have h₁ : s.docFolders.length = 1 := by
    cases hs
    rfl
  have hl : order.length = 1 := by
    have hf : order.foldlM (fun d _ => touch d) (.docs {}) = .ok (.docs s.intoShards.docs) := hf
    have := h₁.symm.trans (foldlM_touch hf)
    simpa using this.symm
  exact length_ne_one ((hm 0).mpr rfl) ((hm 1).mpr rfl) hl
