import CoxAgent.Store.Theorems.Db
import CoxAgent.Store.Theorems.Writers

variable {J ι : Type} {c : Codec J} {p : String} {rev : Int} {s : ProjectState}
variable [DecidableEq ι] {i : ι} {P : Protocol (Sql.iface J) ι (World J)} {st : SqlStateStore}
variable {L : Config (Sql.iface J) ι (World J) → Prop} {cfg : Config (Sql.iface J) ι (World J)}
variable {post : Except PortError Unit → Config (Sql.iface J) ι (World J) → Prop}

-- When a save reads the row again, just before it writes, it is still the row that the client has
-- loaded before.
def RereadFresh (p : String) (i : ι) (cfg : Config (Sql.iface J) ι (World J)) : Prop :=
  ∀ h row deleted, [⟨i, .selectRow p, row⟩, ⟨i, .isDeleted h, deleted⟩] <:+ cfg.past i →
    cfg.world.selectRow p = row

-- The condition on a step of a system: if the step is the read that a save starts with, then it is
-- fresh.
def FreshStep {α : Type} (p : String) (s : Sys (Sql.iface J) ι (World J) α) (i : ι) : Prop :=
  ∀ k, s.prog i = .call (.selectRow p) k → RereadFresh p i s.toConfig

-- The gate leaves what the mutator of the client makes of the stored state as it is.
def GateKeeps (c : Codec J) (p : String) (f : ι → ProjectState → Except PortError ProjectState) (i : ι)
    (w : World J) : Prop :=
  ∀ s s' s'', w.stored c p = some s → f i s = .ok s' → gateSave s' = .ok s'' → s'' = s'

-- The condition on a step of a system: if the step is the write of a save, then the gate has nothing
-- to repair.
def KeptStep {α : Type} (c : Codec J) (p : String) (f : ι → ProjectState → Except PortError ProjectState)
    (s : Sys (Sql.iface J) ι (World J) α) (i : ι) : Prop :=
  ∀ s' rev k, s.prog i = .call (writeOf c p s' rev) k → GateKeeps c p f i s.world

namespace FreshStep

variable {α : Type} {s : Sys (Sql.iface J) ι (World J) α} {l : List (Entry (Sql.iface J) ι)}

theorem reread (h : FreshStep p s i) {q : Sql.Req J} {k : Sql.Rep q → SqlProg J α}
    (hk : s.prog i = .call q k) (hq : q = .selectRow p) : RereadFresh p i s.toConfig := by
  subst hq
  exact h k hk

theorem of_ne {q : Sql.Req J} {k : Sql.Rep q → SqlProg J α} (h : s.prog i = .call q k)
    (hq : q ≠ .selectRow p) : FreshStep p s i :=
  fun _ h' => absurd (Prog.call_inj h h') hq

theorem of_first (h : s.past i = []) : FreshStep p s i := by
  intro _ _ _ _ _ hs
  simp [h] at hs

theorem of_last {e : Entry (Sql.iface J) ι} (h : s.past i = l ++ [e])
    (he : ∀ h, e.req ≠ .isDeleted h) : FreshStep p s i := by
  intro _ _ _ _ _ ⟨l', hs⟩
  rw [h, List.append_cons] at hs
  cases (List.append_inj' hs rfl).right
  exact absurd rfl (he _)

theorem of_eq {h : Nat} {row : Option (Int × J)} {deleted : Bool}
    (hp : s.past i = l ++ [⟨i, .selectRow p, row⟩, ⟨i, .isDeleted h, deleted⟩])
    (hr : s.world.selectRow p = row) : FreshStep p s i := by
  intro _ _ _ _ _ ⟨l', hs⟩
  rw [hp] at hs
  cases (List.append_inj' hs rfl).right
  exact hr

end FreshStep

namespace Protocol.Tame

-- A load, with what is known of the row from then on.
theorem load {α : Type} {post : α → Config (Sql.iface J) ι (World J) → Prop}
    {k : Except PortError ProjectState → SqlProg J α} (h : P.Tame c st.projectId i L)
    (he : ∀ e cfg, L cfg → P.Safe (sql c) i post (k (.error e)) cfg)
    (hk : ∀ row rev s cfg', [⟨i, .selectRow st.projectId, row⟩] <:+ cfg'.past i →
      decodeRow c row = .ok (rev, s) → L cfg' → P.Safe (sql c) i post (k (.ok s)) cfg')
    (hl : L cfg) : P.Safe (sql c) i post (st.load c >>= k) cfg := by
  unfold SqlStateStore.load SqlStateStore.loadVersioned
  simp only [ask_eq, Prog.call_bind, Prog.done_bind, Prog.pure_eq]
  refine h.call trivial hl fun cfg' hm _ hl => ?_
  cases hd : decodeRow c (sql c (.selectRow st.projectId) cfg'.world).1
  case error e => exact he e _ hl
  case ok row =>
    obtain ⟨rev, s⟩ := row
    refine hk _ rev s _ ?_ hd hl
    rw [Config.past_serve_self]
    exact List.suffix_append ..

-- A save of what was made of the state `s₀` that was loaded just before.
theorem save {row : Option (Int × J)} {s₀ : ProjectState} (h : P.Tame c st.projectId i L)
    (ha : ∀ cfg, P.assume i (.selectRow st.projectId) cfg → RereadFresh st.projectId i cfg)
    (hf : ∀ e cfg, L cfg → post (.error e) cfg)
    (hw : ∀ s' rev cfg', gateSave s = .ok s' → cfg'.world.selectRow st.projectId = row →
      P.assume i (writeOf c st.projectId s' rev) cfg' → L cfg' →
      P.SafeWrite c st.projectId i post s' rev cfg')
    (hp : [⟨i, .selectRow st.projectId, row⟩] <:+ cfg.past i)
    (hd : decodeRow c row = .ok (rev, s₀)) (hl : L cfg) :
    P.Safe (sql c) i post (st.save c s) cfg := by
  refine h.persistAtRevision hf (fun s' cfg₁ hm₁ hg hl => ?_) hl
  unfold SqlStateStore.loadVersioned
  simp only [ask_eq, Prog.call_bind, Prog.done_bind, Prog.pure_eq]
  refine h.call trivial hl fun cfg₂ hm₂ hr hl => ?_
  have hr : cfg₂.world.selectRow st.projectId = row := by
    apply ha cfg₂ hr st.handle row (cfg₁.world.deleted st.handle)
    rw [hm₂.left, Config.past_serve_self, hm₁.left]
    obtain ⟨l, hp⟩ := hp
    exact ⟨l, by simp [← hp, sql]⟩
  have hr' : (sql c (.selectRow st.projectId) cfg₂.world).1 = row := hr
  simp only [hr', hd]
  refine h.upsert hf (fun cfg₃ he ha hl hq => hw s' rev cfg₃ hg ?_ ha hl hq) hl
  rw [← hr, World.selectRow, World.selectRow]
  exact congrArg _ (rows_of_read he (hr ▸ hd) hq.row)

theorem mutateState {f : ProjectState → Except PortError ProjectState}
    (h : P.Tame c st.projectId i L)
    (ha : ∀ cfg, P.assume i (.selectRow st.projectId) cfg → RereadFresh st.projectId i cfg)
    (hf : ∀ e cfg, L cfg → post (.error e) cfg)
    (hw : ∀ s s' s'' rev cfg', cfg'.world.stored c st.projectId = some s → f s = .ok s' →
      gateSave s' = .ok s'' → P.assume i (writeOf c st.projectId s'' rev) cfg' → L cfg' →
      P.SafeWrite c st.projectId i post s'' rev cfg')
    (hl : L cfg) : P.Safe (sql c) i post (st.mutateState c f) cfg := by
  suffices hgo : ∀ n last cfg, L cfg →
      P.Safe (sql c) i post (SqlStateStore.mutateState.go c st f n last) cfg from hgo _ _ cfg hl
  intro n
  induction n
  case zero => exact fun last cfg hl => h.fail hf hl
  case succ n hi =>
    intro last cfg hl
    refine h.load (fun e _ hl => h.fail hf hl) (fun row rev s cfg hp hd hl => ?_) hl
    simp only
    cases hs : f s
    case error e => exact h.fail hf hl
    case ok s' =>
      refine .bind (h.save ha ?_ (fun s'' rev cfg' hg hr ha' hl hq => ?_) hp hd hl)
      · intro e cfg hl
        cases e
        case conflict e => exact hi _ _ hl
        all_goals exact h.fail hf hl
      · have hst := stored_of_decodeRow (hr ▸ hd)
        obtain ⟨ha, hp⟩ := hw s s' s'' rev cfg' hst hs hg ha' hl hq
        exact ⟨ha, fun cfg₁ hm₁ cfg₂ hm₂ => hp cfg₂ (hm₁.trans hm₂)⟩

end Protocol.Tame

section Serial

variable (c : Codec J) (p : String) (f : ι → ProjectState → Except PortError ProjectState)
variable (s₀ : ProjectState)

-- The stored state is what the mutators of the clients that have written make of the initial state,
-- one after another.
def Serial (cfg : Config (Sql.iface J) ι (World J)) : Prop :=
  (committed p cfg.log).Nodup ∧ ∃ s, cfg.world.stored c p = some s ∧
    (committed p cfg.log).foldlM (fun s i => f i s) s₀ = .ok s

-- What is assumed of the requests of the clients.
structure RowFresh (i : ι) (q : Sql.Req J) (cfg : Config (Sql.iface J) ι (World J)) : Prop where
  reread : q = .selectRow p → RereadFresh p i cfg
  kept   : ∀ s rev, q = writeOf c p s rev → GateKeeps c p f i cfg.world

end Serial

variable {f : ι → ProjectState → Except PortError ProjectState} {s₀ : ProjectState}

omit [DecidableEq ι] in
theorem Serial.quiet {cfg cfg' : Config (Sql.iface J) ι (World J)} (hq : Quiet p cfg cfg')
    (h : Serial c p f s₀ cfg) : Serial c p f s₀ cfg' := by
  simpa only [Serial, World.stored, hq.rows, hq.committed] using h

omit [DecidableEq ι] in
-- A client that writes what its mutator makes of the stored state extends the serial order.
theorem Serial.write (hn : i ∉ committed p cfg.log) (hst : cfg.world.stored c p = some s)
    {s' : ProjectState} (hf : f i s = .ok s')
    (hq : Written c p s' rev i cfg) (h : Serial c p f s₀ cfg) :
    Serial c p f s₀ (cfg.serve (sql c) i (writeOf c p s' rev)) := by
  have ⟨hd, s₁, hs₁, hfold⟩ := h
  cases hs₁.symm.trans hst
  refine ⟨?_, s', hq.stored, ?_⟩
  · rw [hq.committed]
    exact hd.append (List.nodup_singleton i) (by simpa using hn)
  · rw [hq.committed, List.foldlM_append, hfold]
    simp [bind, Except.bind, pure, Except.pure, hf]

-- Any number of clients that each run `mutate_state` on one project.
def mutating (c : Codec J) (p : String) (handle : ι → Nat)
    (f : ι → ProjectState → Except PortError ProjectState) (w : World J) :
    Sys (Sql.iface J) ι (World J) (Except PortError Unit) :=
  Sys.init w fun i => SqlStateStore.mutateState c ⟨handle i, p⟩ (f i)

variable {handle : ι → Nat} {w : World J} {sched : List ι}

-- A client that has returned successfully has written the row.
theorem mutating_safe (hw : w.stored c p = some s₀) :
    (mutating c p handle f w).Safe (rowProtocol p (Serial c p f s₀) (RowFresh c p f)) (sql c)
      fun i a cfg => a = .ok () → i ∈ committed p cfg.log := by
  intro i
  refine Protocol.Tame.mutateState (rowProtocol_tame fun _ _ => .quiet) (fun cfg h => h.reread rfl)
    ?_ ?_ ?_
  · exact fun e cfg _ h => by contradiction
  · intro s s' s'' rev cfg hst hs hg ha hl hq
    cases ha.kept _ _ rfl s s' s'' hst hs hg
    refine ⟨⟨trivial, .write hl.right hst hs hq, hq.evolves⟩, fun cfg' hm _ => ?_⟩
    exact mem_committed_written hq hm.left
  · exact ⟨⟨.nil, s₀, hw, rfl⟩, List.not_mem_nil⟩

-- If no other write falls between a client's load and the read that its save starts with, and there
-- is nothing for the gate to repair when a client writes, then no update is lost.
theorem mutateState_serial (hw : w.stored c p = some s₀)
    (hm : Sys.Meets (sql c) (FreshStep p) (mutating c p handle f w) sched)
    (hk : Sys.Meets (sql c) (KeptStep c p f) (mutating c p handle f w) sched)
    (hd : ∀ i, (Sys.run (sql c) (mutating c p handle f w) sched).prog i = .done (.ok ())) :
    ∃ (order : List ι) (s : ProjectState), order.Nodup ∧ (∀ i, i ∈ order) ∧
      order.foldlM (fun s i => f i s) s₀ = .ok s ∧
      (Sys.run (sql c) (mutating c p handle f w) sched).world.stored c p = some s := by
  have hm : Sys.Meets (sql c) (rowProtocol p (Serial c p f s₀) (RowFresh c p f)).Assumed
      (mutating c p handle f w) sched := by
    refine (hm.and hk).mono fun s i h q k hq => ⟨fun he => h.left.reread hq he, ?_⟩
    intro s' rev he
    subst he
    exact h.right s' rev k hq
  have ⟨hg, hs⟩ := (mutating_safe hw).run hm
  have ⟨hn, s, hst, hfold⟩ := hg.left ⟨.nil, s₀, hw, rfl⟩
  exact ⟨_, s, hn, fun i => hs.returned (hd i) rfl, hfold, hst⟩

namespace KeptStep

variable {α : Type} {s : Sys (Sql.iface J) ι (World J) α}

omit [DecidableEq ι] in
theorem of_harmless {q : Sql.Req J} {k : Sql.Rep q → SqlProg J α} (h : s.prog i = .call q k)
    (hq : Harmless q) : KeptStep c p f s i := by
  intro s' rev k' h'
  cases Prog.call_inj h h'
  contradiction

omit [DecidableEq ι] in
-- A mutator that keeps a state clean leaves nothing to repair.
theorem of_clean {s₁ : ProjectState} (hs : s.world.stored c p = some s₁)
    (hc : ∀ s', f i s₁ = .ok s' → s'.Clean) : KeptStep c p f s i := by
  intro _ _ _ _ s₂ s' s'' hs₂ hf hg
  cases hs.symm.trans hs₂
  rw [ProjectState.gateSave_clean (hc s' hf)] at hg
  exact (Except.ok.inj hg).symm

end KeptStep

def bump (s : ProjectState) : Except PortError ProjectState :=
  .ok { s with cycle := s.cycle + 1 }

theorem clean_bump {s s' : ProjectState} (hs : s.Clean) (h : bump s = .ok s') : s'.Clean := by
  cases h
  exact hs

omit [DecidableEq ι] in
theorem foldlM_bump {order : List ι} {s s' : ProjectState}
    (h : order.foldlM (fun s _ => bump s) s = .ok s') : s'.cycle = s.cycle + order.length := by
  induction order generalizing s
  case nil =>
    cases h
    rfl
  case cons i order hi =>
    have := hi h
    simp only [this, List.length_cons]
    omega

theorem length_ne_one {order : List (Fin 2)} (h₀ : 0 ∈ order) (h₁ : 1 ∈ order) :
    order.length ≠ 1 := by
  intro hl
  have ⟨i, hi⟩ := List.length_eq_one_iff.mp hl
  simp only [hi, List.mem_singleton] at h₀ h₁
  cases h₀.trans h₁.symm

-- Two clients take turns step by step. The second one to write is told of the conflict and starts
-- over.
theorem mutateState_serial_retry : ∃ (order : List (Fin 2)) (s : ProjectState),
    order.Nodup ∧ (∀ i, i ∈ order) ∧ order.foldlM (fun s _ => bump s) {} = .ok s ∧
    (Sys.run (sql Codec.plain) (mutating Codec.plain "cxa" (fun i : Fin 2 => i) (fun _ => bump) {})
      [0, 1, 0, 1, 0, 1, 0, 1, 1, 1, 1, 1, 1]).world.stored Codec.plain "cxa" = some s := by
  apply mutateState_serial
  case hw => rfl
  case hd => exact fun | 0 => rfl | 1 => rfl
  case hm =>
    exact .cons (.of_first rfl) <| .cons (.of_first rfl) <|
      .cons (.of_ne rfl nofun) <| .cons (.of_ne rfl nofun) <|
      .cons (.of_eq (l := []) rfl rfl) <| .cons (.of_eq (l := []) rfl rfl) <|
      .cons (.of_ne rfl nofun) <| .cons (.of_ne rfl nofun) <| .cons (.of_ne rfl nofun) <|
      .cons (.of_last (l := [_, _, _, _]) rfl nofun) <| .cons (.of_ne rfl nofun) <|
      .cons (.of_eq (l := [_, _, _, _, _]) rfl rfl) <| .cons (.of_ne rfl nofun) trivial
  case hk =>
    exact .cons (.of_harmless rfl trivial) <| .cons (.of_harmless rfl trivial) <|
      .cons (.of_harmless rfl trivial) <| .cons (.of_harmless rfl trivial) <|
      .cons (.of_harmless rfl trivial) <| .cons (.of_harmless rfl trivial) <|
      .cons (.of_clean rfl fun _ => clean_bump ⟨rfl, rfl⟩) <|
      .cons (.of_clean rfl fun _ => clean_bump ⟨rfl, rfl⟩) <| .cons (.of_harmless rfl trivial) <|
      .cons (.of_harmless rfl trivial) <| .cons (.of_harmless rfl trivial) <| .cons (.of_harmless rfl trivial) <|
      .cons (.of_clean rfl fun _ => clean_bump ⟨rfl, rfl⟩) trivial

-- The first client loads, the second one runs from start to end, and the first one goes on. Its save
-- reads the new revision and overwrites the update of the second with what it made of the old state.
theorem mutateState_loses_update : ¬ ∀ (w : World Doc) (handle : Fin 2 → Nat) (s₀ : ProjectState)
    (f : Fin 2 → ProjectState → Except PortError ProjectState) (sched : List (Fin 2)),
    w.stored Codec.plain "cxa" = some s₀ →
    (∀ i, (Sys.run (sql Codec.plain) (mutating Codec.plain "cxa" handle f w) sched).prog i =
      .done (.ok ())) →
    ∃ (order : List (Fin 2)) (s : ProjectState), order.Nodup ∧ (∀ i, i ∈ order) ∧
      order.foldlM (fun s i => f i s) s₀ = .ok s ∧
      (Sys.run (sql Codec.plain) (mutating Codec.plain "cxa" handle f w) sched).world.stored
        Codec.plain "cxa" = some s := by
  intro h
  have ⟨order, s, _, hm, hf, hs⟩ := h {} Fin.val {} (fun _ => bump) [0, 1, 1, 1, 1, 0, 0, 0]
    rfl fun | 0 => rfl | 1 => rfl
  have hc := foldlM_bump hf
  have h₁ : s.cycle = 1 := by
    cases hs
    rfl
  have hl : order.length = 1 := by
    rw [h₁] at hc
    simpa using hc.symm
  exact length_ne_one (hm 0) (hm 1) hl
