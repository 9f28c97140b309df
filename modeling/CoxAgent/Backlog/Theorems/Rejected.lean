import CoxAgent.Backlog.Theorems.Jobs
import CoxAgent.Domain.Theorems.Lifecycle
import CoxAgent.Lib.Lists

variable {J ι : Type} {c : Codec J} {p u : String} {s s' : ProjectState} {t t' : Ticket} {w : World J}

-- The state has a rejected ticket with the title.
def HasRejected (u : String) (s : ProjectState) : Prop :=
  ∃ t ∈ s.tickets, t.title = u ∧ t.status = .rejected

-- The project can be loaded, and it has a rejected ticket with the title.
def Rejected (c : Codec J) (p u : String) (w : World J) : Prop :=
  ∃ s, w.stored c p = some s ∧ s.schemaVersion ≤ schemaVersionSupported ∧ HasRejected u s

-- A state that is fit for a job: a sweep leaves a rejected ticket with the title if there is one.
def KeepsRejected (u : String) : Job → List (Entry (Sql.iface J) ι) → ProjectState → Prop
  | .sweep project, past, s => HasRejected u s →
      ∃ t ∈ s.tickets, t.title = u ∧ t.status = .rejected ∧ t.id.asStr ∉ swept project past
  | _, _, _                 => True

-- There is no way out of a rejection.
theorem Ticket.MovesTo.rejected (h : t.MovesTo t') (ht : t.status = .rejected) :
    t'.title = t.title ∧ t'.status = .rejected := by
  cases h
  case inl h => exact ⟨by rw [h], by rw [h, ht]⟩
  case inr h =>
    obtain ⟨actor, dst, h⟩ := h
    obtain ⟨hm, he⟩ := Ticket.transitionTo_ok h
    have hd : dst = .rejected := by
      have := hm.edge
      rw [ht] at this
      revert this
      cases t.kind <;> cases dst <;> decide
    subst he hd
    exact ⟨rfl, rfl⟩

theorem ProjectState.Moves.hasRejected (hm : s.Moves s') (h : HasRejected u s) :
    HasRejected u s' := by
  obtain ⟨t, ht, hu, hr⟩ := h
  obtain ⟨t', ht', hm⟩ := hm.tickets.exists_right t ht
  obtain ⟨hu', hr'⟩ := hm.rejected hr
  exact ⟨t', ht', hu'.trans hu, hr'⟩

-- No job but the sweep can lose a rejected ticket.
theorem Job.Makes.hasRejected {past : List (Entry (Sql.iface J) ι)} {r : Outcome} {job : Job}
    (hm : job.Makes past s r s') (hk : KeepsRejected u job past s) (h : HasRejected u s) :
    HasRejected u s' := by
  cases job
  case create =>
    obtain ⟨_, hm, _⟩ := hm
    obtain ⟨_, _, t', _, he⟩ := AddTicketUseCase.append_ok hm
    obtain ⟨t, ht, hr⟩ := h
    exact ⟨t, by simp [he, ht], hr⟩
  case move m   => exact (m.moves hm.left).hasRejected h
  case mutate m => exact (m.moves hm.left).hasRejected h
  case sweep    =>
    obtain ⟨t, ht, hu, hr, hn⟩ := hk h
    rw [hm.left]
    exact ⟨_, mem_tickets_evict.mpr ⟨t, ht, hn, rfl⟩, hu, hr⟩

-- What is stored in a layout that this build understands can be loaded.
theorem decodeRow_of_stored (h : w.stored c p = some s)
    (hv : s.schemaVersion ≤ schemaVersionSupported) :
    ∃ rev, decodeRow c (w.selectRow p) = .ok (rev, s) := by
  unfold World.stored at h
  unfold World.selectRow
  cases hr : w.rows p
  case none =>
    simp only [hr, Option.some.injEq] at h
    subst h
    exact ⟨0, rfl⟩
  case some row =>
    simp only [hr] at h
    cases hs : c.toState row.data
    case error => simp [hs, Except.toOption] at h
    case ok s₁ =>
      simp only [hs, Except.toOption, Option.some.injEq] at h
      subst h
      exact ⟨row.revision, by simp [decodeRow, hs, not_lt.mpr hv]⟩

variable [DecidableEq ι] {jobs : ι → Job} {i j : ι} {cfg : Config (Sql.iface J) ι (World J)}
variable {handle : ι → Nat} {sched sched' : List ι} {q : Sql.Req J} {s'' : ProjectState} {rev : Int}
variable {input : AddTicketInput} {now : String} {r : Outcome}

def rejectedProtocol (c : Codec J) (p : String) (jobs : ι → Job) (u : String) :
    Protocol (Sql.iface J) ι (World J) :=
  jobProtocol c p jobs (KeepsRejected u) (Rejected c p u ·.world)

-- Nothing is known of the project before the rejection, so the clients count on nothing.
theorem rejectedProtocol_calm : (rejectedProtocol c p jobs u).Calm c p i fun _ => True where
  evolves hg   := hg.right
  allowed hq   := ⟨trivial, by simp only [Rejected, World.stored, hq.rows, imp_self], .same hq.rows⟩
  stable _ _   := trivial
  kept _ _     := trivial

theorem Rejected.write (hst : cfg.world.stored c p = some s)
    (hm : (jobs i).Makes (cfg.past i) s r s') (hg : gateSave s' = .ok s'')
    (hk : KeepsRejected u (jobs i) (cfg.past i) s) (hq : Written c p s'' rev i cfg)
    (h : Rejected c p u cfg.world) :
    Rejected c p u (cfg.serve (sql c) i (writeOf c p s'' rev)).world := by
  obtain ⟨s₁, hs₁, hv, h⟩ := h
  cases hs₁.symm.trans hst
  obtain ⟨ht, _, hv'⟩ := ProjectState.gateSave_keeps hg
  refine ⟨s'', hq.stored, ?_, ?_⟩
  · rw [hv', hm.keeps.right]
    exact hv
  · unfold HasRejected
    rw [ht]
    exact hm.hasRejected hk h

theorem backlog_rejected_safe : (backlog c p handle jobs w).Safe (rejectedProtocol c p jobs u) (sql c)
    fun _ _ _ => True := by
  intro i
  apply Protocol.Calm.safe_job
  case h  => exact rejectedProtocol_calm
  case ha => exact fun _ ha => ha.left rfl
  case hn => exact fun _ => trivial
  case he => exact fun _ _ => trivial
  case hl => trivial
  case hp => rfl
  case hw =>
    intro s r s' s'' rev cfg hst hm hg ha _ hq
    have hk := ha.fit hq hst
    exact ⟨⟨trivial, fun h => h.write hst hm hg hk hq, hq.evolves⟩, fun _ _ => trivial⟩

-- The creation has not started yet, or it has been refused.
def Refusing (c : Codec J) (p : String) (handle : ι → Nat) (input : AddTicketInput) (now : String)
    (i : ι) (s : Sys (Sql.iface J) ι (World J) Outcome) : Prop :=
  s.prog i = (Job.create input now).prog c ⟨handle i, p⟩ ∨
  ∃ e, AddTicketUseCase.Refuses input.title e ∧ s.prog i = .done (some (.error e))

omit [DecidableEq ι] in
theorem create_refused {row : Option (Int × J)} {e : AppError} (handle : Nat)
    (hd : decodeRow c row = .ok (rev, s)) (ha : AddTicketUseCase.append input now s = .error e) :
    ∃ k : Option (Int × J) → SqlProg J Outcome,
      (Job.create input now).prog c ⟨handle, p⟩ = .call (.selectRow p) k ∧
      k row = .done (some (.error e)) := by
  refine ⟨_, rfl, ?_⟩
  simp [Prog.bind, hd, ha, Except.map]

-- A creation that starts with the rejected ticket in sight ends with its first step.
theorem step_refused {s : Sys (Sql.iface J) ι (World J) Outcome}
    (hd : duplicatesExisting input.title [u]) (hr : Rejected c p u s.world)
    (h : Refusing c p handle input now i s) :
    (∃ e, AddTicketUseCase.Refuses input.title e ∧
      (s.step (sql c) i).prog i = .done (some (.error e))) ∧
    (s.step (sql c) i).world = s.world := by
  cases h
  case inr h =>
    obtain ⟨e, he, h⟩ := h
    rw [Sys.step_done h]
    exact ⟨⟨e, he, h⟩, rfl⟩
  case inl h =>
    obtain ⟨st, hst, hv, t, ht, hu, hs⟩ := hr
    obtain ⟨rev, hrow⟩ := decodeRow_of_stored hst hv
    obtain ⟨e, ha, he⟩ : ∃ e, AddTicketUseCase.append input now st = .error e ∧ _ :=
      AddTicketUseCase.append_refuses ht hs (hu ▸ hd)
    obtain ⟨k, hp, hk⟩ := create_refused (handle i) hrow ha
    rw [hp] at h
    refine ⟨⟨e, he, ?_⟩, Sys.step_world h⟩
    rw [Sys.step_prog_self h]
    exact hk

-- In every run in which no other write falls between a client's load and the read that its save starts
-- with, and no sweep removes the last rejected ticket with the title, a creation that starts after the
-- rejection and duplicates the title is refused and changes nothing, whenever it is its turn.
theorem rejected_stays_refused
    (hm : Sys.Meets (sql c) (FitStep c p jobs (KeepsRejected u)) (backlog c p handle jobs w)
      (sched ++ sched'))
    (hr : Rejected c p u (Sys.run (sql c) (backlog c p handle jobs w) sched).world)
    (hi : i ∉ sched) (hj : jobs i = .create input now) (hd : duplicatesExisting input.title [u]) :
    (∃ e, AddTicketUseCase.Refuses input.title e ∧
      (Sys.run (sql c) (backlog c p handle jobs w) (sched ++ sched' ++ [i])).prog i =
        .done (some (.error e))) ∧
    (Sys.run (sql c) (backlog c p handle jobs w) (sched ++ sched' ++ [i])).world =
      (Sys.run (sql c) (backlog c p handle jobs w) (sched ++ sched')).world := by
  let P := rejectedProtocol c p jobs u
  let Q (s : Sys (Sql.iface J) ι (World J) Outcome) :=
    s.Safe P (sql c) (fun _ _ _ => True) ∧ Rejected c p u s.world ∧
      Refusing c p handle input now i s
  obtain ⟨hm, hm'⟩ := Sys.meets_append.mp hm
  have hq : Q (Sys.run (sql c) (backlog c p handle jobs w) (sched ++ sched')) := by
    rw [Sys.run_append]
    refine hm'.inv (P := Q) (fun s j hs hq => ?_) ⟨?_, hr, .inl ?_⟩
    · obtain ⟨hsafe, hr, href⟩ := hq
      obtain ⟨hg, hsafe⟩ := hsafe.step hs
      refine ⟨hsafe, hg.left hr, ?_⟩
      by_cases hij : i = j
      case pos =>
        subst hij
        exact .inr (step_refused hd hr href).left
      case neg =>
        unfold Refusing
        rwa [Sys.step_prog_ne hij]
    · exact (backlog_rejected_safe.run (P := P) hm).right
    · rw [Sys.run_prog_ne hi, ← hj]
      rfl
  rw [Sys.run_append]
  exact step_refused hd hq.right.left hq.right.right

section Refiled

def triageInput : AddTicketInput where
  ticketType := .feature
  title      := "Bug triage"

-- The same ritual under another name.
def sprintInput : AddTicketInput where
  ticketType := .feature
  title      := "Sprint triage"

-- One feature is shipped, and the next one is already committed to.
def sprintState : ProjectState where
  tickets := [{ id := ⟨"F001"⟩, kind := .feature, title := "Login", status := .documented }]
  sprint  := some {
    number       := 1
    goal         := "Ship"
    startedCycle := 0
    lengthCycles := 5
    committed    := [⟨"F002"⟩]
  }

def sprintWorld : World Doc where
  rows := Function.update (fun _ => none) "cxa" <| some {
    schemaVersion := 1
    revision      := 1
    data          := .state sprintState
    shards        := fun kind => some (shardDoc Codec.plain sprintState kind)
  }

-- A ritual is filed and turned down by the owner, the board is swept, and the ritual is filed again.
def ritual (id : TicketId) : Nat → Job
  | 0 => .create triageInput "noon"
  | 1 => .mutate (.single id .po .rejected fun _ => .corrupt "not rejected")
  | 2 => .sweep "cxa"
  | _ => .create sprintInput "noon"

theorem ritual_fit : Sys.Meets (sql Codec.plain)
    (FitStep Codec.plain "cxa" (ritual ⟨"F002"⟩) (KeepsRejected triageInput.title))
    (backlog Codec.plain "cxa" (fun i => i) (ritual ⟨"F002"⟩) sprintWorld)
    ([0, 0, 0, 0, 1, 1, 1, 1] ++ [2, 2, 2, 2, 2, 2, 2]) :=
  .cons (.of_read rfl (.of_first rfl)) <|
  .cons (.of_harmless rfl nofun trivial) <|
  .cons (.of_read rfl (.of_eq (l := []) rfl rfl)) <|
  .cons (.of_fit rfl nofun rfl trivial) <|
  .cons (.of_read rfl (.of_first rfl)) <|
  .cons (.of_harmless rfl nofun trivial) <|
  .cons (.of_read rfl (.of_eq (l := []) rfl rfl)) <|
  .cons (.of_fit rfl nofun rfl trivial) <|
  .cons (.of_read rfl (.of_first rfl)) <|
  .cons (.of_read rfl (.of_last (l := []) rfl nofun)) <|
  .cons (.of_fit rfl nofun rfl fun _ => ⟨_, .tail _ (.head _), rfl, rfl, nofun⟩) <|
  .cons (.of_read rfl (.of_last (l := [_, _]) rfl nofun)) <|
  .cons (.of_harmless rfl nofun trivial) <|
  .cons (.of_read rfl (.of_eq (l := [_, _, _]) rfl rfl)) <|
  .cons (.of_fit rfl nofun rfl fun _ =>
    ⟨_, .tail _ (.head _), rfl, rfl, of_decide_eq_true (p := _ ∉ ["F001"]) rfl⟩) trivial

theorem rejected_stays_refused_ritual : duplicatesExisting sprintInput.title [triageInput.title] ∧
    (∃ e, AddTicketUseCase.Refuses sprintInput.title e ∧
      (Sys.run (sql Codec.plain)
        (backlog Codec.plain "cxa" (fun i => i) (ritual ⟨"F002"⟩) sprintWorld)
        ([0, 0, 0, 0, 1, 1, 1, 1] ++ [2, 2, 2, 2, 2, 2, 2] ++ [3])).prog 3 =
          .done (some (.error e))) ∧
    (Sys.run (sql Codec.plain)
      (backlog Codec.plain "cxa" (fun i => i) (ritual ⟨"F002"⟩) sprintWorld)
      ([0, 0, 0, 0, 1, 1, 1, 1] ++ [2, 2, 2, 2, 2, 2, 2] ++ [3])).world =
    (Sys.run (sql Codec.plain)
      (backlog Codec.plain "cxa" (fun i => i) (ritual ⟨"F002"⟩) sprintWorld)
      ([0, 0, 0, 0, 1, 1, 1, 1] ++ [2, 2, 2, 2, 2, 2, 2])).world :=
  ⟨by decide, rejected_stays_refused ritual_fit
    ⟨_, rfl, Nat.le_refl 1, _, .tail _ (.head _), rfl, rfl⟩ (by decide) rfl (by decide)⟩

-- Without the sprint nothing holds the rejected ticket back from the sweep. The ritual is filed again,
-- and it even gets the id of the rejected ticket.
theorem rejected_refiled : ¬ ∀ (w : World Doc) (handle : Nat → Nat) (jobs : Nat → Job)
    (sched sched' : List Nat) (i : Nat) (input : AddTicketInput) (now u : String),
    Rejected Codec.plain "cxa" u
      (Sys.run (sql Codec.plain) (backlog Codec.plain "cxa" handle jobs w) sched).world →
    i ∉ sched → jobs i = .create input now → duplicatesExisting input.title [u] →
    ∀ r, (Sys.run (sql Codec.plain) (backlog Codec.plain "cxa" handle jobs w)
        (sched ++ sched')).prog i = .done (some r) →
      ∃ e, AddTicketUseCase.Refuses input.title e ∧ r = .error e := by
  intro h
  obtain ⟨e, _, he⟩ := h {} (fun i => i) (ritual ⟨"F001"⟩) [0, 0, 0, 0, 1, 1, 1, 1]
    [2, 2, 2, 2, 2, 2, 2, 3, 3, 3, 3] 3 sprintInput "noon" triageInput.title
    ⟨_, rfl, Nat.le_refl 1, _, .head _, rfl, rfl⟩ (by decide) rfl (by decide)
    (.ok ⟨"F001"⟩) rfl
  contradiction

end Refiled
