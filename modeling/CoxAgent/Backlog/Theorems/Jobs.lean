import CoxAgent.Backlog.AddTicket
import CoxAgent.Backlog.Theorems.AddTicket
import CoxAgent.Cycle.Theorems.Evict
import CoxAgent.Store.Theorems.Mutate

variable {J ι : Type} {c : Codec J} {p project : String} {q : Sql.Req J} {i : ι}

section Swept

variable {past : List (Entry (Sql.iface J) ι)}

-- The tickets that a client has put into the archive, oldest first.
def swept (project : String) (past : List (Entry (Sql.iface J) ι)) : List String :=
  past.filterMap fun
    | ⟨_, .archivePut project' t, true⟩ => if project' = project then some t.id.asStr else none
    | _                                 => none

theorem swept_snoc {r : Sql.Rep q} (h : ¬ q.IsPut) :
    swept project (past ++ [⟨i, q, r⟩]) = swept project past := by
  cases q <;> first | exact absurd trivial h | simp [swept]

theorem swept_put {t : Ticket} {stored : Bool} :
    swept project (past ++ [⟨i, .archivePut project t, stored⟩]) =
      swept project past ++ if stored then [t.id.asStr] else [] := by
  cases stored <;> simp [swept]

end Swept

-- What a job makes of the stored state when it writes, and the result it then returns. A sweep removes
-- what it has put into the archive before.
def Job.Makes (past : List (Entry (Sql.iface J) ι)) (s : ProjectState) (r : Outcome)
    (s' : ProjectState) : Job → Prop
  | create input now => ∃ id, AddTicketUseCase.append input now s = .ok (id, s') ∧ r = some (.ok id)
  | move m           => m.run s = .ok s' ∧ r = none
  | mutate m         => m.run s = .ok s' ∧ r = none
  | sweep project    => s' = evict (swept project past) s ∧ r = none

namespace Job.Makes

variable {past : List (Entry (Sql.iface J) ι)} {s s' : ProjectState} {r : Outcome} {job : Job}

-- No job touches the name of the project or the version of its layout.
theorem keeps (h : job.Makes past s r s') :
    s'.alias = s.alias ∧ s'.schemaVersion = s.schemaVersion := by
  cases job
  case create =>
    obtain ⟨_, h, _⟩ := h
    obtain ⟨_, _, t, _, he⟩ := AddTicketUseCase.append_ok h
    subst he
    exact ⟨rfl, rfl⟩
  case move m   => exact ⟨(m.moves h.left).alias, (m.moves h.left).schemaVersion⟩
  case mutate m => exact ⟨(m.moves h.left).alias, (m.moves h.left).schemaVersion⟩
  case sweep    =>
    rw [h.left, evict_eq]
    exact ⟨rfl, rfl⟩

end Job.Makes

variable [DecidableEq ι] {P : Protocol (Sql.iface J) ι (World J)} {st : SqlStateStore} {job : Job}
variable {L : Config (Sql.iface J) ι (World J) → Prop} {cfg : Config (Sql.iface J) ι (World J)}
variable {post : Outcome → Config (Sql.iface J) ι (World J) → Prop}

namespace Protocol

-- Client `i` can count on `L` until it writes the row.
structure Calm (P : Protocol (Sql.iface J) ι (World J)) (c : Codec J) (p : String) (i : ι)
    (L : Config (Sql.iface J) ι (World J) → Prop) : Prop where
  evolves : ∀ {cfg cfg'}, P.guar cfg cfg' → Evolves p cfg.world cfg'.world
  allowed : ∀ {cfg q}, Quiet p cfg (cfg.serve (sql c) i q) → P.Allows (sql c) i q cfg
  stable  : ∀ {cfg cfg'}, P.Meanwhile i cfg cfg' → L cfg → L cfg'
  kept    : ∀ {cfg q}, Quiet p cfg (cfg.serve (sql c) i q) → L cfg → L (cfg.serve (sql c) i q)

namespace Calm

theorem tame (h : P.Calm c p i L) : P.Tame c p i L where
  evolves hg     := h.evolves hg
  allowed _ hq   := h.allowed hq
  stable hm hl   := h.stable hm hl
  kept _ hq hl   := h.kept hq hl

-- A sweep can also count on what it has archived so far.
theorem tame_swept (h : P.Calm c p i L) (archived : List String) :
    P.Tame c p i fun cfg => L cfg ∧ swept project (cfg.past i) = archived where
  evolves hg     := h.evolves hg
  allowed _ hq   := h.allowed hq
  stable hm hl   := ⟨h.stable hm hl.left, hm.left ▸ hl.right⟩
  kept hp hq hl  := by
    refine ⟨h.kept hq hl.left, ?_⟩
    rw [Config.past_serve_self, swept_snoc hp]
    exact hl.right

end Calm

-- The writes of the client that go through are allowed if they do what its job is to do.
def Works (P : Protocol (Sql.iface J) ι (World J)) (c : Codec J) (p : String) (i : ι)
    (L : Config (Sql.iface J) ι (World J) → Prop)
    (post : Outcome → Config (Sql.iface J) ι (World J) → Prop) (job : Job) : Prop :=
  ∀ s r s' s'' rev cfg, cfg.world.stored c p = some s → job.Makes (cfg.past i) s r s' →
    gateSave s' = .ok s'' → P.assume i (writeOf c p s'' rev) cfg → L cfg →
    Written c p s'' rev i cfg → P.Allows (sql c) i (writeOf c p s'' rev) cfg ∧
      ∀ cfg', P.Meanwhile i (cfg.serve (sql c) i (writeOf c p s'' rev)) cfg' → post r cfg'

namespace Calm

variable (h : P.Calm c st.projectId i L)
variable (ha : ∀ cfg, P.assume i (.selectRow st.projectId) cfg → RereadFresh st.projectId i cfg)
variable (hn : ∀ cfg, post none cfg) (he : ∀ e cfg, post (some (.error e)) cfg)
include h ha

include he in
theorem safe_create {input : AddTicketInput} {now : String}
    (hw : P.Works c st.projectId i L post (.create input now)) (hl : L cfg) :
    P.Safe (sql c) i post ((Job.create input now).prog c st) cfg := by
  refine .bind (h.tame.load ?_ (fun row rev s cfg hp hd hl => ?_) hl)
  · exact fun e cfg _ cfg' _ cfg'' _ => he _ cfg''
  · simp only
    cases hs : AddTicketUseCase.append input now s
    case error e => exact fun cfg' _ cfg'' _ => he _ cfg''
    case ok r =>
      obtain ⟨id, s'⟩ := r
      refine .bind (h.tame.save ha ?_ (fun s'' rev cfg' hg hr ha' hl hq => ?_) hp hd hl)
      · exact fun e cfg _ cfg' _ cfg'' _ => he _ cfg''
      · have hst := stored_of_decodeRow (hr ▸ hd)
        obtain ⟨ha, hp⟩ := hw s _ s' s'' rev cfg' hst ⟨id, hs, rfl⟩ hg ha' hl hq
        exact ⟨ha, fun cfg₁ hm₁ cfg₂ hm₂ cfg₃ hm₃ => hp cfg₃ ((hm₁.trans hm₂).trans hm₃)⟩

include hn in
theorem safe_move {m : Mover} (hw : P.Works c st.projectId i L post (.move m)) (hl : L cfg) :
    P.Safe (sql c) i post ((Job.move m).prog c st) cfg := by
  refine h.tame.load ?_ (fun row rev s cfg hp hd hl => ?_) hl
  · exact fun e cfg _ cfg' _ => hn cfg'
  · simp only
    cases hs : m.run s
    case error e => exact fun cfg' _ => hn cfg'
    case ok s' =>
      refine .bind (h.tame.save ha ?_ (fun s'' rev cfg' hg hr ha' hl hq => ?_) hp hd hl)
      · exact fun e cfg _ cfg' _ => hn cfg'
      · have hst := stored_of_decodeRow (hr ▸ hd)
        obtain ⟨ha, _⟩ := hw s none s' s'' rev cfg' hst ⟨hs, rfl⟩ hg ha' hl hq
        exact ⟨ha, fun cfg₁ _ cfg₂ _ => hn cfg₂⟩

include hn in
theorem safe_mutate {m : Mover} (hw : P.Works c st.projectId i L post (.mutate m)) (hl : L cfg) :
    P.Safe (sql c) i post ((Job.mutate m).prog c st) cfg := by
  refine .bind (h.tame.mutateState ha ?_ (fun s s' s'' rev cfg' hst hs hg ha' hl hq => ?_) hl)
  · exact fun e cfg _ cfg' _ => hn cfg'
  · obtain ⟨ha, _⟩ := hw s none s' s'' rev cfg' hst ⟨hs, rfl⟩ hg ha' hl hq
    exact ⟨ha, fun cfg₁ _ cfg₂ _ => hn cfg₂⟩

omit ha in
-- The list of what is archived so far goes along with the puts.
theorem safe_archiveTickets {s : ProjectState} {ids archived : List String} (hl : L cfg)
    (hs : swept project (cfg.past i) = archived) :
    P.Safe (sql c) i (fun more cfg => L cfg ∧ swept project (cfg.past i) = archived ++ more)
      (archiveTickets project s ids) cfg := by
  induction ids generalizing archived cfg
  case nil =>
    intro cfg' hm
    refine ⟨h.stable hm hl, ?_⟩
    rw [hm.left, hs, List.append_nil]
  case cons id ids hi =>
    unfold archiveTickets
    split
    case h_1 => exact hi hl hs
    case h_2 t ht =>
      have hid : t.id.asStr = id := by simpa using List.find?_some ht
      simp only [ask_eq, Prog.call_bind, Prog.done_bind, Prog.pure_eq]
      intro cfg' hm _
      refine ⟨h.allowed quiet_put, .bind ?_⟩
      have hs' : swept project ((cfg'.serve (sql c) i (.archivePut project t)).past i) = archived ++
          if (sql c (.archivePut project t) cfg'.world).1 then [t.id.asStr] else [] := by
        rw [Config.past_serve_self, hm.left, ← hs]
        exact swept_put
      refine (hi (h.kept quiet_put (h.stable hm hl)) hs').mono fun more cfg₂ hl cfg₃ hm => ?_
      refine ⟨h.stable hm hl.left, ?_⟩
      rw [hm.left, hl.right, hid]
      split <;> simp

include hn in
theorem safe_sweep (hw : P.Works c st.projectId i L post (.sweep project)) (hl : L cfg)
    (hp : cfg.past i = []) : P.Safe (sql c) i post ((Job.sweep project).prog c st) cfg := by
  have hdone {cfg : Config (Sql.iface J) ι (World J)} :
      P.Safe (sql c) i (fun _ cfg => P.Safe (sql c) i post (.done none) cfg) (.done ()) cfg :=
    fun _ _ cfg' _ => hn cfg'
  have hs : swept project (cfg.past i) = [] := by rw [hp]; rfl
  refine .bind ?_
  unfold evictTerminalTickets
  split
  case isTrue => exact hdone
  case isFalse =>
    refine (h.tame_swept []).load (fun _ _ _ => hdone) (fun _ _ s₁ cfg₁ _ _ hl => ?_) ⟨hl, hs⟩
    simp only
    split
    case isTrue => exact hdone
    case isFalse =>
      refine (h.tame_swept []).load (fun _ _ _ => hdone) (fun _ _ s₂ cfg₂ _ _ hl => ?_) hl
      refine .bind ((h.safe_archiveTickets hl.left hl.right).mono fun archived cfg₃ hl => ?_)
      split
      case isTrue => exact hdone
      case isFalse =>
        refine .bind ((h.tame_swept archived).mutateState ha (fun _ _ _ => hdone) ?_ hl)
        intro s s' s'' rev cfg₄ hst hs hg ha' hl hq
        cases hs
        have hm : (Job.sweep project).Makes (cfg₄.past i) s none (evict archived s) :=
          ⟨by rw [hl.right], rfl⟩
        exact ⟨(hw s none _ s'' rev cfg₄ hst hm hg ha' hl.left hq).left, fun _ _ => hdone⟩

include hn he in
-- A job is safe if what it writes is.
theorem safe_job (hw : P.Works c st.projectId i L post job) (hl : L cfg) (hp : cfg.past i = []) :
    P.Safe (sql c) i post (job.prog c st) cfg := by
  cases job
  case create => exact h.safe_create ha he hw hl
  case move   => exact h.safe_move ha hn hw hl
  case mutate => exact h.safe_mutate ha hn hw hl
  case sweep  => exact h.safe_sweep ha hn hw hl hp

end Calm

end Protocol

section Fit

variable (c p) (jobs : ι → Job)
variable (ok : Job → List (Entry (Sql.iface J) ι) → ProjectState → Prop)

-- What is assumed of the requests: a save still finds the row that was loaded before it, and a write
-- that goes through finds a stored state that is fit for the job.
def JobAssume (i : ι) (q : Sql.Req J) (cfg : Config (Sql.iface J) ι (World J)) : Prop :=
  (q = .selectRow p → RereadFresh p i cfg) ∧
  (Commits p ⟨i, q, (sql c q cfg.world).1⟩ = true → ∀ s, cfg.world.stored c p = some s →
    ok (jobs i) (cfg.past i) s)

-- The condition on a step of the system.
def FitStep (s : Sys (Sql.iface J) ι (World J) Outcome) (i : ι) : Prop :=
  ∀ q k, s.prog i = .call q k → JobAssume c p jobs ok i q s.toConfig

end Fit

-- A write that goes through finds a state that is fit for the job.
theorem JobAssume.fit {jobs : ι → Job}
    {ok : Job → List (Entry (Sql.iface J) ι) → ProjectState → Prop} {s s' : ProjectState} {rev : Int}
    (h : JobAssume c p jobs ok i (writeOf c p s' rev) cfg) (hq : Written c p s' rev i cfg)
    (hs : cfg.world.stored c p = some s) : ok (jobs i) (cfg.past i) s := by
  refine h.right ?_ s hs
  rw [hq.reply, commits_writeOf]
  rfl

namespace FitStep

variable {jobs : ι → Job} {ok : Job → List (Entry (Sql.iface J) ι) → ProjectState → Prop}
variable {s : Sys (Sql.iface J) ι (World J) Outcome} {k : Sql.Rep q → SqlProg J Outcome}

theorem of_read {k : Option (Int × J) → SqlProg J Outcome} (h : s.prog i = .call (.selectRow p) k)
    (hf : FreshStep p s i) : FitStep c p jobs ok s i := by
  intro q k' h'
  cases h.symm.trans h'
  exact ⟨fun _ => hf k h, nofun⟩

theorem of_harmless (h : s.prog i = .call q k) (hq : q ≠ .selectRow p) (hh : Harmless q) :
    FitStep c p jobs ok s i := by
  intro q' k' h'
  cases h.symm.trans h'
  refine ⟨fun he => absurd he hq, fun hc => ?_⟩
  cases q <;> contradiction

theorem of_fit {st : ProjectState} (h : s.prog i = .call q k) (hq : q ≠ .selectRow p)
    (hs : s.world.stored c p = some st) (hf : ok (jobs i) (s.past i) st) :
    FitStep c p jobs ok s i := by
  intro q' k' h'
  cases h.symm.trans h'
  refine ⟨fun he => absurd he hq, fun _ st' hs' => ?_⟩
  cases hs.symm.trans hs'
  exact hf

end FitStep

-- Clients whose every write keeps an invariant.
def jobProtocol (c : Codec J) (p : String) (jobs : ι → Job)
    (ok : Job → List (Entry (Sql.iface J) ι) → ProjectState → Prop)
    (Inv : Config (Sql.iface J) ι (World J) → Prop) : Protocol (Sql.iface J) ι (World J) :=
  rowProtocol p Inv (JobAssume c p jobs ok)
