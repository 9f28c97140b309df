import CoxAgent.Cycle.Evict
import CoxAgent.Cycle.Theorems.Evict
import CoxAgent.Store.Theorems.Mutate

variable {J ι : Type} {c : Codec J} {p project id : String} {n : Nat} {q : Sql.Req J}
variable {s s' : ProjectState} {t : Ticket} {w : World J}

section Past

variable {past l : List (Entry (Sql.iface J) ι)}

-- The state that a request has loaded.
def loaded (c : Codec J) (p : String) : Entry (Sql.iface J) ι → Option ProjectState
  | ⟨_, .selectRow p', row⟩ => if p' = p then (decodeRow c row).toOption.map Prod.snd else none
  | _                       => none

-- The state that the `n`-th request of a client has loaded.
def loadedAt (c : Codec J) (p : String) (n : Nat) (past : List (Entry (Sql.iface J) ι)) :
    Option ProjectState :=
  past[n]?.bind (loaded c p)

-- The candidates of a sweep come from its first load.
def selected (c : Codec J) (p : String) (past : List (Entry (Sql.iface J) ι)) : List String :=
  loadedAt c p 0 past |>.elim [] fun s => evictionCandidates s |>.take evictionBound

-- The ticket that a client has put into the archive last.
def lastPut (project id : String) : List (Entry (Sql.iface J) ι) → Option Ticket :=
  List.foldl (fun copy e =>
    match e with
    | ⟨_, .archivePut project' t, true⟩ =>
      if project' = project ∧ t.id.asStr = id then some t else copy
    | _ => copy) none

theorem loadedAt_append (h : loadedAt c p n past = some s) : loadedAt c p n (past ++ l) = some s := by
  have ⟨e, he, hs⟩ := Option.bind_eq_some_iff.mp h
  have ⟨hn, _⟩ := List.getElem?_eq_some_iff.mp he
  rw [loadedAt, List.getElem?_append_left hn]
  exact h

theorem stored_of_loaded {i : ι} (h : loaded c p ⟨i, q, (sql c q w).1⟩ = some s) :
    w.stored c p = some s := by
  cases q <;> try contradiction
  case selectRow p' =>
    simp only [loaded] at h
    split at h <;> try contradiction
    case isTrue hp =>
      subst hp
      have hr : (sql c (.selectRow p') w).1 = w.selectRow p' := rfl
      rw [hr] at h
      cases hd : decodeRow c (w.selectRow p')
      case error => simp [hd, Except.toOption] at h
      case ok row =>
        simp only [hd, Except.toOption, Option.map_some, Option.some.injEq] at h
        obtain ⟨rev, s'⟩ := row
        cases h
        exact stored_of_decodeRow hd

theorem selected_append (h : id ∈ selected c p past) : id ∈ selected c p (past ++ l) := by
  unfold selected at h ⊢
  cases hs : loadedAt c p 0 past
  case none => simp [hs] at h
  case some s =>
    rw [loadedAt_append hs]
    simpa [hs] using h

theorem lastPut_snoc {i : ι} {r : Sql.Rep q} (h : ¬ q.IsPut) :
    lastPut project id (past ++ [⟨i, q, r⟩]) = lastPut project id past := by
  simp only [lastPut, List.foldl_append, List.foldl_cons, List.foldl_nil]
  cases q <;> first | rfl | exact absurd trivial h

theorem lastPut_put {project' : String} {i : ι} {stored : Bool} :
    lastPut project id (past ++ [⟨i, .archivePut project' t, stored⟩]) =
      if stored ∧ project' = project ∧ t.id.asStr = id then some t else lastPut project id past := by
  cases stored <;> simp [lastPut]

end Past

variable [DecidableEq ι] {cfg cfg' : Config (Sql.iface J) (Option ι) (World J)}

-- The sweep is the client `none`. Until it commits, each of its candidates that is still stored is
-- evictable, and from the second load on it is as that load has seen it.
def Intact (c : Codec J) (p : String) (cfg : Config (Sql.iface J) (Option ι) (World J)) : Prop :=
  none ∉ committed p cfg.log → ∀ s, cfg.world.stored c p = some s → ∀ t ∈ s.tickets,
    t.id.asStr ∈ selected c p (cfg.past none) → evictable s t = true ∧
      ∀ s₂, loadedAt c p 1 (cfg.past none) = some s₂ →
        ∀ t₂ ∈ s₂.tickets, t₂.id.asStr = t.id.asStr → t₂ = t

structure SweepInv (c : Codec J) (p : String) (cfg : Config (Sql.iface J) (Option ι) (World J)) :
    Prop where
  unique  : ∀ s, cfg.world.stored c p = some s → s.ticketIds.Nodup
  intact  : Intact c p cfg
  archive : ∀ project id t, lastPut project id (cfg.past none) = some t →
              cfg.world.archive project id = some t

theorem SweepInv.init (hp : cfg.past none = [])
    (hu : ∀ s, cfg.world.stored c p = some s → s.ticketIds.Nodup) : SweepInv c p cfg where
  unique  := hu
  intact  := by simp [Intact, hp, selected, loadedAt]
  archive := by simp [hp, lastPut]

theorem eq_of_id {t₂ : Ticket} (h : s.ticketIds.Nodup) (ht : t ∈ s.tickets) (ht₂ : t₂ ∈ s.tickets)
    (he : t₂.id.asStr = t.id.asStr) : t₂ = t :=
  List.inj_on_of_nodup_map h ht₂ ht he

theorem evictable_of_selected (h : s.ticketIds.Nodup) (ht : t ∈ s.tickets)
    (hs : t.id.asStr ∈ (evictionCandidates s).take evictionBound) : evictable s t = true := by
  have hc := List.mem_of_mem_take hs
  simp only [evictionCandidates, List.mem_map, List.mem_filter] at hc
  have ⟨t', ⟨ht', he⟩, hid⟩ := hc
  rwa [← eq_of_id h ht ht' hid]

-- Reads and failed writes of the sweep.
theorem Intact.quiet (hu : ∀ s, cfg.world.stored c p = some s → s.ticketIds.Nodup)
    (hq : Quiet p cfg (cfg.serve (sql c) none q)) (h : Intact c p cfg) :
    Intact c p (cfg.serve (sql c) none q) := by
  intro hn s hs t ht hid
  have hs : cfg.world.stored c p = some s := by
    simpa only [World.stored, hq.rows] using hs
  rw [hq.committed] at hn
  have h := h hn s hs t ht
  rw [Config.past_serve_self] at hid ⊢
  generalize hp : cfg.past none = past at h hid
  -- The first load makes the selection, the second one the copies, and later ones change neither.
  cases past
  case nil =>
    refine ⟨?_, fun s₂ hl => by simp [loadedAt] at hl⟩
    simp only [selected, loadedAt, List.nil_append, List.length_cons, List.length_nil, Nat.zero_add,
      Nat.lt_add_one, getElem?_pos, List.getElem_cons_zero, Option.bind_some] at hid
    cases hl : loaded c p (⟨none, q, (sql c q cfg.world).1⟩ : Entry (Sql.iface J) (Option ι))
    case none => simp [hl] at hid
    case some s₁ =>
      cases (stored_of_loaded hl).symm.trans hs
      exact evictable_of_selected (hu s hs) ht (by simpa [hl] using hid)
  case cons e past =>
    cases past
    case cons => exact h hid
    case nil  =>
      refine ⟨(h hid).left, fun s₂ hl t₂ ht₂ he => ?_⟩
      cases (stored_of_loaded hl).symm.trans hs
      exact eq_of_id (hu s hs) ht ht₂ he

theorem SweepInv.archive_serve (hp : ¬ q.IsPut) (h : SweepInv c p cfg) (project id : String)
    (t : Ticket) (ht : lastPut project id ((cfg.serve (sql c) none q).past none) = some t) :
    (cfg.serve (sql c) none q).world.archive project id = some t := by
  have ha : (cfg.serve (sql c) none q).world.archive = cfg.world.archive := archive_sql hp
  rw [Config.past_serve_self, lastPut_snoc hp] at ht
  rw [ha]
  exact h.archive project id t ht

theorem SweepInv.quiet (hp : ¬ q.IsPut) (hq : Quiet p cfg (cfg.serve (sql c) none q))
    (h : SweepInv c p cfg) : SweepInv c p (cfg.serve (sql c) none q) where
  unique  := by simpa only [World.stored, hq.rows] using h.unique
  intact  := h.intact.quiet h.unique hq
  archive := h.archive_serve hp

theorem archivePut_cases (w : World J) (project : String) (t : Ticket) :
    (∃ w', w.archivePut project t = (false, w') ∧ w'.archive = w.archive) ∨
    (∃ w', w.archivePut project t = (true, w') ∧ w'.archive = Function.update w.archive project
      (Function.update (w.archive project) t.id.asStr (some t))) := by
  unfold World.archivePut
  split
  case h_1 => exact .inl ⟨_, rfl, rfl⟩
  case h_2 => exact .inr ⟨_, rfl, rfl⟩

-- A put that succeeds replaces the copy of the ticket and nothing else.
theorem archive_put {project' : String} : (sql c (.archivePut project' t) w).2.archive project id =
    if (sql c (.archivePut project' t) w).1 ∧ project' = project ∧ t.id.asStr = id then some t
    else w.archive project id := by
  cases archivePut_cases w project' t
  case inl h =>
    obtain ⟨w', h, ha⟩ := h
    simp [sql, h, ha]
  case inr h =>
    obtain ⟨w', h, ha⟩ := h
    simp only [sql, h, ha, true_and]
    by_cases hp : project' = project
    case neg => simp [hp, Ne.symm hp]
    case pos =>
      subst hp
      by_cases hi : t.id.asStr = id
      case pos => simp [hi]
      case neg => simp [hi, Ne.symm hi]

theorem SweepInv.put (h : SweepInv c p cfg) :
    SweepInv c p (cfg.serve (sql c) none (.archivePut project t)) where
  unique  := by simpa only [World.stored, quiet_put.rows] using h.unique
  intact  := h.intact.quiet h.unique quiet_put
  archive := by
    intro project' id t' ht
    rw [Config.past_serve_self, lastPut_put] at ht
    apply archive_put.trans
    split at ht
    case isTrue hp  => rwa [if_pos hp]
    case isFalse hp =>
      rw [if_neg hp]
      exact h.archive project' id t' ht

section Transits

-- The requests of the other clients: they neither delete projects nor use the archive, and what they
-- write has passed the gate.
def Transits (c : Codec J) : Sql.Req J → Prop
  | .guardedSave _ _ data _ _     => ∃ s : ProjectState, s.Clean ∧ data = c.ofState s
  | .deleteTx _ | .archivePut _ _ => False
  | _                             => True

theorem Evolves.transits (h : Transits c q) : Evolves p w (sql c q w).2 := by
  have hs : RowStep c w p q ((sql c q w).2.rows p) := sql_rowStep
  generalize hr : (sql c q w).2.rows p = row at hs
  cases hs
  case same he          => exact .same (hr.trans he)
  case insert _ hn      => exact .born hn hr (by simp)
  case update _ ho      => exact .newer ho hr (Int.lt_succ _)
  case claim _ _ ho _ _ => exact .newer ho hr (Int.lt_succ _)
  case delete           => contradiction

theorem ticketIds_claimIn {i : TicketId} {worker now : String}
    (h : World.claimIn s i worker now = some s') : s'.ticketIds = s.ticketIds := by
  obtain ⟨t, t', _, hc, hr⟩ := ProjectState.ticketMut_ok (ticketMut_of_claimIn h)
  obtain ⟨l₁, l₂, hs, hs', _⟩ := hr.tickets
  simp [ProjectState.ticketIds, hs, hs', (Ticket.claim_preserves hc).left]

theorem unique_transits (hq : Transits c q)
    (h : ∀ s, w.stored c p = some s → s.ticketIds.Nodup) (s : ProjectState)
    (hs : (sql c q w).2.stored c p = some s) : s.ticketIds.Nodup := by
  have hr : RowStep c w p q ((sql c q w).2.rows p) := sql_rowStep
  unfold World.stored at hs
  generalize (sql c q w).2.rows p = row at hr hs
  cases hr
  case same he =>
    subst he
    exact h s hs
  case insert =>
    obtain ⟨s', hc, hd⟩ := hq
    simp only [hd, c.toState_ofState, Except.toOption, Option.some.injEq] at hs
    exact hs ▸ hc.unique
  case update =>
    obtain ⟨s', hc, hd⟩ := hq
    simp only [hd, c.toState_ofState, Except.toOption, Option.some.injEq] at hs
    exact hs ▸ hc.unique
  case claim s₁ s₂ ho hd hc =>
    simp only [c.toState_ofState, Except.toOption, Option.some.injEq] at hs
    rw [← hs, ticketIds_claimIn hc]
    exact h s₁ (by simp [World.stored, ho, hd, Except.toOption])
  case delete => contradiction

end Transits

-- A ticket that a step removes from the hot state is evictable there and equal to its copy in the
-- archive.
def RemovesArchived (c : Codec J) (p project : String) (w w' : World J) : Prop :=
  ∀ s s', w.stored c p = some s → w'.stored c p = some s' → ∀ t ∈ s.tickets,
    t.id.asStr ∉ s'.ticketIds →
    evictable s t = true ∧ w.archive project t.id.asStr = some t

theorem removesArchived_same {w' : World J} (h : w'.rows p = w.rows p) :
    RemovesArchived c p project w w' := by
  intro s s' hs hs' t ht hn
  unfold World.stored at hs hs'
  rw [h, hs] at hs'
  cases hs'
  exact absurd (List.mem_map_of_mem ht) hn

-- What is assumed of the requests: the sweep's last read before its write is fresh, and the others
-- leave its candidates alone.
def SweepAssumes (c : Codec J) (p : String) : Option ι → Sql.Req J →
    Config (Sql.iface J) (Option ι) (World J) → Prop
  | none,   q, cfg => q = .selectRow p → RereadFresh p none cfg
  | some i, q, cfg => Intact c p cfg → Intact c p (cfg.serve (sql c) (some i) q)

def sweepProtocol (c : Codec J) (p project : String) :
    Protocol (Sql.iface J) (Option ι) (World J) :=
  { rowProtocol p (SweepInv c p) (SweepAssumes c p) with
    ensure := fun i q cfg => i = none → RemovesArchived c p project cfg.world (sql c q cfg.world).2 }

-- The other clients.
theorem allows_transits {i : ι} (hq : Transits c q)
    (ha : (sweepProtocol c p project).assume (some i) q cfg) :
    (sweepProtocol c p project).Allows (sql c) (some i) q cfg where
  ensure := nofun
  guar   := by
    refine ⟨fun h => ⟨unique_transits hq h.unique, ha h.intact, ?_⟩, .transits hq⟩
    have hp : ¬ q.IsPut := by
      cases q <;> first | exact id | contradiction
    have hw : (cfg.serve (sql c) (some i) q).world.archive = cfg.world.archive := archive_sql hp
    rw [Config.past_serve_ne (Option.some_ne_none i).symm, hw]
    exact h.archive

-- The candidates that the sweep has put into the archive as its second load has them.
def Archived (c : Codec J) (p project : String) (archived : List String)
    (past : List (Entry (Sql.iface J) (Option ι))) : Prop :=
  ∀ id ∈ archived, id ∈ selected c p past ∧ ∃ t s₂, lastPut project id past = some t ∧
    loadedAt c p 1 past = some s₂ ∧ t ∈ s₂.tickets ∧ t.id.asStr = id

-- What the sweep can count on until it commits.
def Sweeping (c : Codec J) (p project : String) (archived : List String)
    (cfg : Config (Sql.iface J) (Option ι) (World J)) : Prop :=
  SweepInv c p cfg ∧ none ∉ committed p cfg.log ∧ Archived c p project archived (cfg.past none)

variable {archived : List String}

theorem sweeping_tame :
    (sweepProtocol c p project).Tame c p (none : Option ι) (Sweeping c p project archived) where
  evolves hg      := hg.right
  allowed hp hq   := ⟨fun _ => removesArchived_same hq.rows, .quiet hp hq, .same hq.rows⟩
  stable hm hl    := ⟨hm.right.left hl.left,
    by simpa only [mem_committed, hm.left] using hl.right.left, hm.left ▸ hl.right.right⟩
  kept hp hq hl   := by
    refine ⟨hl.left.quiet hp hq, hq.committed ▸ hl.right.left, fun id hi => ?_⟩
    have ⟨hs, t, s₂, ht, hl₂, hm⟩ := hl.right.right id hi
    rw [Config.past_serve_self]
    exact ⟨selected_append hs, t, s₂, (lastPut_snoc hp).trans ht, loadedAt_append hl₂, hm⟩

-- The commit of the sweep.
theorem sweeping_commit {rev : Int}
    {post : Except PortError Unit → Config (Sql.iface J) (Option ι) (World J) → Prop}
    (hpost : ∀ a cfg, post a cfg) (hst : cfg.world.stored c p = some s)
    (hg : gateSave (evict archived s) = .ok s') (hl : Sweeping c p project archived cfg) :
    (sweepProtocol c p project).SafeWrite c p none post s' rev cfg := by
  intro hq
  have hids : s'.ticketIds = (evict archived s).ticketIds := by
    rw [(ProjectState.gateSave_ok_cases hg).right.right.left]
    rfl
  refine ⟨⟨fun _ s₁ s₂ hs₁ hs₂ t ht hn => ?_, fun h => ⟨fun s₁ hs₁ => ?_, ?_, ?_⟩, hq.evolves⟩,
    fun cfg' _ => hpost _ _⟩
  · cases hs₁.symm.trans hst
    cases hs₂.symm.trans hq.stored
    have hi : t.id.asStr ∈ archived := by
      by_contra hi
      rw [hids, ticketIds_evict] at hn
      exact hn (List.mem_filter.mpr ⟨List.mem_map_of_mem ht, by simpa using hi⟩)
    have ⟨hsel, t₂, s₂, hput, hl₂, ht₂, hid⟩ := hl.right.right _ hi
    have ⟨he, hc⟩ := hl.left.intact hl.right.left s hst t ht hsel
    cases hc s₂ hl₂ t₂ ht₂ hid
    exact ⟨he, hl.left.archive _ _ _ hput⟩
  · cases hs₁.symm.trans hq.stored
    exact (ProjectState.gateSave_ok_clean hg).unique
  · intro hn
    rw [hq.committed] at hn
    simp at hn
  · exact h.archive_serve id

omit [DecidableEq ι] in
theorem Archived.put {past : List (Entry (Sql.iface J) (Option ι))} {s₂ : ProjectState}
    {stored : Bool} (h : Archived c p project archived past) (hs : loadedAt c p 1 past = some s₂)
    (ht : t ∈ s₂.tickets) (hsel : t.id.asStr ∈ selected c p past) :
    Archived c p project (archived ++ if stored then [t.id.asStr] else [])
      (past ++ [⟨none, .archivePut project t, stored⟩]) := by
  intro id hi
  rw [lastPut_put]
  by_cases hp : stored = true ∧ t.id.asStr = id
  case pos =>
    rw [if_pos ⟨hp.left, rfl, hp.right⟩]
    exact ⟨selected_append (hp.right ▸ hsel), t, s₂, rfl, loadedAt_append hs, ht, hp.right⟩
  case neg =>
    have hi : id ∈ archived := by
      cases List.mem_append.mp hi
      case inl hi => exact hi
      case inr hi =>
        cases stored
        case false => contradiction
        case true  => exact absurd ⟨rfl, (List.mem_singleton.mp hi).symm⟩ hp
    have ⟨hsel, t', s', hput, hs', hm⟩ := h id hi
    rw [if_neg fun h => hp ⟨h.left, h.right.right⟩]
    exact ⟨selected_append hsel, t', s', hput, loadedAt_append hs', hm⟩

theorem safe_archiveTickets {ids : List String} {s₂ : ProjectState}
    (hsel : ∀ id ∈ ids, id ∈ selected c p (cfg.past none))
    (hs : loadedAt c p 1 (cfg.past none) = some s₂) (hl : Sweeping c p project archived cfg) :
    (sweepProtocol c p project).Safe (sql c) none
      (fun more cfg => Sweeping c p project (archived ++ more) cfg)
      (archiveTickets project s₂ ids) cfg := by
  induction ids generalizing archived cfg
  case nil => exact fun cfg' hm => by simpa using sweeping_tame.stable hm hl
  case cons id ids hi =>
    have hsel' : ∀ id ∈ ids, id ∈ selected c p (cfg.past none) :=
      fun id hi => hsel id (List.mem_cons_of_mem _ hi)
    unfold archiveTickets
    split
    case h_1 => exact hi hsel' hs hl
    case h_2 t ht =>
      have hid : t.id.asStr = id := by simpa using List.find?_some ht
      simp only [ask_eq, Prog.call_bind, Prog.done_bind, Prog.pure_eq]
      intro cfg' hm _
      have hl := sweeping_tame.stable hm hl
      have hpast : (cfg'.serve (sql c) none (.archivePut project t)).past none = _ :=
        Config.past_serve_self
      rw [hm.left] at hpast
      -- The put is the only step of the loop; its result decides what is archived from here on.
      have hnext : Sweeping c p project
          (archived ++ if (sql c (.archivePut project t) cfg'.world).1 then [id] else [])
          (cfg'.serve (sql c) none (.archivePut project t)) := by
        refine ⟨hl.left.put, by rw [quiet_put.committed]; exact hl.right.left, ?_⟩
        rw [hpast]
        subst hid
        exact (hm.left ▸ hl.right.right).put hs (List.mem_of_find?_eq_some ht)
          (hsel _ List.mem_cons_self)
      have hq : Quiet p cfg' (cfg'.serve (sql c) none (.archivePut project t)) := quiet_put
      refine ⟨⟨fun _ => removesArchived_same hq.rows, .put, .same hq.rows⟩, .bind ?_⟩
      refine (hi ?_ ?_ hnext).mono fun more cfg'' hl cfg₃ hm => ?_
      · exact fun id' hi' => hpast ▸ selected_append (hsel' id' hi')
      · exact hpast ▸ loadedAt_append hs
      · have := sweeping_tame.stable hm hl
        split
        case isTrue h  => simpa [h] using this
        case isFalse h => simpa [h] using this

theorem safe_evictTerminalTickets {st : SqlStateStore} (hp : cfg.past none = [])
    (h : SweepInv c st.projectId cfg) :
    (sweepProtocol c st.projectId project).Safe (sql c) none (fun _ _ => True)
      (evictTerminalTickets c st project) cfg := by
  have hn : none ∉ committed st.projectId cfg.log := by simp [mem_committed, hp]
  have hl : Sweeping c st.projectId project [] cfg := ⟨h, hn, nofun⟩
  have hdone {cfg : Config (Sql.iface J) (Option ι) (World J)} :
      (sweepProtocol c st.projectId project).Safe (sql c) none (fun _ _ => True) (.done ()) cfg :=
    fun _ _ => trivial
  unfold evictTerminalTickets SqlStateStore.load SqlStateStore.loadVersioned
  simp only [ask_eq, Prog.call_bind, Prog.done_bind, Prog.pure_eq]
  split
  case isTrue => exact hdone
  case isFalse =>
    refine sweeping_tame.call trivial hl fun cfg₁ hm₁ _ hl₁ => ?_
    cases hd₁ : decodeRow c (sql c (.selectRow st.projectId) cfg₁.world).1
    case error => exact hdone
    case ok row₁ =>
      obtain ⟨rev₁, s₁⟩ := row₁
      simp only [Except.map]
      split
      case isTrue => exact hdone
      case isFalse =>
        refine sweeping_tame.call trivial hl₁ fun cfg₂ hm₂ _ hl₂ => ?_
        cases hd₂ : decodeRow c (sql c (.selectRow st.projectId) cfg₂.world).1
        case error => exact hdone
        case ok row₂ =>
          obtain ⟨rev₂, s₂⟩ := row₂
          have hpast : (cfg₂.serve (sql c) none (.selectRow st.projectId)).past none =
              [⟨none, .selectRow st.projectId, (sql c (.selectRow st.projectId) cfg₁.world).1⟩,
                ⟨none, .selectRow st.projectId, (sql c (.selectRow st.projectId) cfg₂.world).1⟩] := by
            rw [Config.past_serve_self, hm₂.left, Config.past_serve_self, hm₁.left, hp]
            rfl
          refine .bind ((safe_archiveTickets ?_ ?_ hl₂).mono fun archived cfg₃ hl₃ => ?_)
          · intro id hi
            simpa [hpast, selected, loadedAt, loaded, hd₁, Except.toOption] using hi
          · simp [hpast, loadedAt, loaded, hd₂, Except.toOption]
          · split
            case isTrue => exact hdone
            case isFalse =>
              refine .bind (sweeping_tame.mutateState (fun _ ha => ha rfl) ?_ ?_ hl₃)
              · exact fun _ _ _ => hdone
              · intro s s' s'' rev cfg₄ hst hs hg _ hl
                cases hs
                exact sweeping_commit (fun _ _ => hdone) hst hg hl

-- A sweep and other clients of the same project.
def sweeping (c : Codec J) (st : SqlStateStore) (project : String) (w : World J)
    (prog : ι → SqlProg J Unit) : Sys (Sql.iface J) (Option ι) (World J) Unit :=
  Sys.init w fun
    | some i => prog i
    | none   => evictTerminalTickets c st project

-- The condition on a step of the system: the sweep's last read before its write is fresh, and the
-- others leave its candidates alone.
def Undisturbed (c : Codec J) (p : String) (s : Sys (Sql.iface J) (Option ι) (World J) Unit) :
    Option ι → Prop
  | none   => FreshStep p s none
  | some i => Intact c p s.toConfig → Intact c p (s.step (sql c) (some i)).toConfig

variable {st : SqlStateStore} {prog : ι → SqlProg J Unit} {sched : List (Option ι)}

theorem sweeping_safe (hp : ∀ i, (prog i).Calls (Transits c))
    (hu : ∀ s, w.stored c st.projectId = some s → s.ticketIds.Nodup) :
    (sweeping c st project w prog).Safe (sweepProtocol c st.projectId project) (sql c)
      fun _ _ _ => True
  | some i => .of_calls (hp i) fun _ _ => allows_transits
  | none   => safe_evictTerminalTickets rfl (.init rfl hu)

theorem Undisturbed.assumed {s : Sys (Sql.iface J) (Option ι) (World J) Unit} {i : Option ι}
    (h : Undisturbed c p s i) : (sweepProtocol c p project).Assumed s i := by
  intro q k hk
  cases i
  case none   => exact h.reread hk
  case some i =>
    intro hi
    have hi := h hi
    rwa [Sys.step_call hk] at hi

-- If the others leave the candidates of the sweep alone and its last read is fresh, then the tickets
-- that it removes are still evictable and equal to their copies in the archive.
theorem evict_removes_archived (hp : ∀ i, (prog i).Calls (Transits c))
    (hu : ∀ s, w.stored c st.projectId = some s → s.ticketIds.Nodup)
    (hm : Sys.Meets (sql c) (Undisturbed c st.projectId) (sweeping c st project w prog) sched) :
    RemovesArchived c st.projectId project
      (Sys.run (sql c) (sweeping c st project w prog) sched).world
      (Sys.step (sql c) (Sys.run (sql c) (sweeping c st project w prog) sched) none).world := by
  have ⟨_, hs⟩ := (sweeping_safe hp hu).run (hm.mono fun _ _ => Undisturbed.assumed)
  cases hq : (Sys.run (sql c) (sweeping c st project w prog) sched).prog none
  case done =>
    rw [Sys.step_done hq]
    exact removesArchived_same rfl
  case call q k =>
    rw [Sys.step_world hq]
    by_cases hr : q = .selectRow st.projectId
    case pos => exact removesArchived_same (by rw [hr]; rfl)
    case neg => exact hs.ensure hq (fun h => absurd h hr) rfl

theorem transits_mutateState {f : ProjectState → Except PortError ProjectState} :
    (st.mutateState c f).Calls (Transits c) := by
  refine calls_mutateState (fun q h => ?_) fun s _ h => ⟨s, h, rfl⟩
  cases q <;> trivial

namespace Undisturbed

variable {s : Sys (Sql.iface J) (Option ι) (World J) Unit} {i : ι}

-- Only writes of the others can disturb the sweep.
theorem of_harmless {k : Sql.Rep q → SqlProg J Unit} (h : s.prog (some i) = .call q k)
    (hq : Harmless q) : Undisturbed c p s (some i) := by
  intro hi
  have hs : Quiet p s.toConfig (s.serve (sql c) (some i) q) := quiet_harmless hq
  rw [Sys.step_call h]
  simpa only [Intact, World.stored, hs.rows, hs.committed,
    Config.past_serve_ne (Option.some_ne_none i).symm] using hi

end Undisturbed

section Reopened

def shipped : Ticket where
  id     := ⟨"CXA-F001"⟩
  kind   := .feature
  title  := "Search"
  status := .documented

def shippedState : ProjectState where
  tickets := [shipped]

-- A project with one documented ticket.
def shippedWorld : World Doc where
  rows := Function.update (fun _ => none) "cxa" <| some {
    schemaVersion := 1
    revision      := 1
    data          := .state shippedState
    shards        := fun kind => some (shardDoc Codec.plain shippedState kind)
  }

-- The owner finds that the ticket has not shipped after all.
def reopen (s : ProjectState) : Except PortError ProjectState :=
  .ok { s with tickets := s.tickets.map fun t => (t.transitionTo .po .pending).toOption.getD t }

-- The ticket is in the archive when the owner reopens it. The sweep then removes it all the same.
theorem evict_removes_reopened : ¬ ∀ (w : World Doc) (st : SqlStateStore) (project : String)
    (prog : Fin 1 → SqlProg Doc Unit) (sched : List (Option (Fin 1))),
    (∀ i, (prog i).Calls (Transits Codec.plain)) →
    (∀ s, w.stored Codec.plain st.projectId = some s → s.ticketIds.Nodup) →
    RemovesArchived Codec.plain st.projectId project
      (Sys.run (sql Codec.plain) (sweeping Codec.plain st project w prog) sched).world
      (Sys.step (sql Codec.plain)
        (Sys.run (sql Codec.plain) (sweeping Codec.plain st project w prog) sched) none).world := by
  intro h
  have := h shippedWorld ⟨0, "cxa"⟩ "cxa"
    (fun _ => SqlStateStore.mutateState Codec.plain ⟨1, "cxa"⟩ reopen >>= fun _ => .done ())
    [none, none, none, some 0, some 0, some 0, some 0, none, none, none]
    (fun _ => transits_mutateState.bind fun _ => trivial)
    (fun s hs => by cases hs; decide)
    { shippedState with tickets := [{ shipped with status := .pending }] }
    {} rfl rfl { shipped with status := .pending } List.mem_cons_self (by decide)
  have := this.left
  revert this
  decide

-- The owner only looks at the ticket, and comes back when it has been moved.
theorem evict_removes_archived_read : RemovesArchived Codec.plain "cxa" "cxa"
    (Sys.run (sql Codec.plain) (sweeping Codec.plain ⟨0, "cxa"⟩ "cxa" shippedWorld fun _ : Fin 1 =>
        SqlStateStore.mutateState Codec.plain ⟨1, "cxa"⟩ reopen >>= fun _ => .done ())
      [none, none, none, some 0, some 0, none, none, none]).world
    (Sys.step (sql Codec.plain) (Sys.run (sql Codec.plain)
      (sweeping Codec.plain ⟨0, "cxa"⟩ "cxa" shippedWorld fun _ : Fin 1 =>
        SqlStateStore.mutateState Codec.plain ⟨1, "cxa"⟩ reopen >>= fun _ => .done ())
      [none, none, none, some 0, some 0, none, none, none]) none).world := by
  apply evict_removes_archived
  case hp => exact fun _ => transits_mutateState.bind fun _ => trivial
  case hu =>
    intro s hs
    cases hs
    decide
  case hm =>
    exact .cons (.of_first (p := "cxa") rfl) <| .cons (.of_last (l := []) rfl nofun) <|
      .cons (.of_ne rfl nofun) <| .cons (.of_harmless rfl trivial) <|
      .cons (.of_harmless rfl trivial) <| .cons (.of_last (l := [_, _]) rfl nofun) <|
      .cons (.of_ne rfl nofun) <| .cons (.of_eq (l := [_, _, _]) rfl rfl) trivial

end Reopened
