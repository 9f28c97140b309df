import CoxAgent.Domain.Theorems.Lifecycle
import CoxAgent.Recovery.Claims
import CoxAgent.Store.Theorems.Db

section Claims

variable {s s' : ProjectState} {t t' : Ticket} {id : TicketId}

namespace ProjectState

theorem claimant_congr (h : s'.tickets = s.tickets) : s'.claimant id = s.claimant id := by
  unfold claimant ticket
  rw [h]

theorem Replaces.claimant (h : s.Replaces s' t t') (hid : t'.id = t.id) :
    s'.claimant id = if t.id = id then t'.claimedBy else s.claimant id := by
  unfold ProjectState.claimant
  rw [h.ticket hid]
  split <;> rfl

-- A claim that is won puts the name on a ticket without one.
theorem claimant_claimIn {worker now : String} {id' : TicketId}
    (h : World.claimIn s id worker now = some s') :
    s.claimant id = none ∧ s'.claimant id' = if id = id' then some worker else s.claimant id' := by
  obtain ⟨t, t', hid, hc, hr⟩ := ticketMut_ok (ticketMut_of_claimIn h)
  obtain ⟨hn, _, ht⟩ := Ticket.claim_ok hc
  have hid' : t'.id = t.id := by rw [ht]
  have hb : t'.claimedBy = some worker := by rw [ht]
  subst hid
  refine ⟨?_, by rw [hr.claimant hid', hb]⟩
  simpa [claimant, hr.ticket_eq] using hn

end ProjectState

section Release

open RecoverUseCase ProjectState

-- Recovery touches no ticket but those it takes for orphaned.
theorem claimant_release {ids : List TicketId} (h : release s ids = .ok s') (hn : id ∉ ids) :
    s'.claimant id = s.claimant id := by
  induction ids generalizing s
  case nil =>
    cases h
    rfl
  case cons id' ids hi =>
    obtain ⟨hne, hn⟩ := not_or.mp (mt List.mem_cons.mpr hn)
    obtain ⟨s₁, h₁, h⟩ := Except.bind_eq_ok.mp h
    rw [hi h hn]
    cases hm : s.ticketMut id' (·.releaseClaim .system)
    case none =>
      simp only [hm, Option.getD_none] at h₁
      cases h₁
      rfl
    case some r =>
      simp only [hm, Option.getD_some] at h₁
      subst h₁
      obtain ⟨t, t', hid, hc, hr⟩ := ticketMut_ok hm
      obtain ⟨_, _, ht⟩ := Ticket.releaseClaim_ok hc
      rw [hr.claimant (by rw [ht]), if_neg (hid ▸ Ne.symm hne)]

end Release

section TakeOver

open ClaimsUseCase ProjectState

variable {req : Takeover}

theorem swap_ok (h : swap req t = .ok t') : t'.id = t.id ∧ t'.claimedBy = some req.worker := by
  unfold swap at h
  split at h
  case h_1 => contradiction
  case h_2 ht =>
    cases h
    obtain ⟨_, _, _, he⟩ := Ticket.takeOver_ok ht
    exact ⟨by rw [he], by rw [he]⟩

theorem claimFresh_ok (h : claimFresh req t = .ok t') :
    t'.id = t.id ∧ t'.claimedBy = some req.worker := by
  unfold claimFresh at h
  split at h
  case isTrue => contradiction
  case isFalse =>
    split at h
    case h_1 => contradiction
    case h_2 ht =>
      cases h
      obtain ⟨_, _, he⟩ := Ticket.claim_ok ht
      exact ⟨by rw [he], by rw [he]⟩

theorem takeoverInState_ok {outcome : TakeoverOutcome}
    (h : takeoverInState req s = .ok (outcome, s')) :
    ∃ t t', t'.id = t.id ∧ t'.claimedBy = some req.worker ∧
      ∃ s₁, s.Replaces s₁ t t' ∧ s'.tickets = s₁.tickets := by
  unfold takeoverInState at h
  split at h
  case h_1 => contradiction
  case h_2 view _ =>
    split at h <;> try contradiction
    split at h <;> try contradiction
    simp only at h
    split at h <;> try contradiction
    case _ s₁ hm =>
      cases h
      obtain ⟨t, t', _, ht, hr⟩ := ticketMut_ok hm
      refine ⟨t, t', ?_⟩
      split at ht
      case isTrue  => exact ⟨(swap_ok ht).left, (swap_ok ht).right, s₁, hr, rfl⟩
      case isFalse => exact ⟨(claimFresh_ok ht).left, (claimFresh_ok ht).right, s₁, hr, rfl⟩

-- A takeover puts a name on a ticket and takes none away.
theorem claimant_takeOver (h : s.claimant id ≠ none) : (takeOver req s).claimant id ≠ none := by
  unfold takeOver
  split
  case h_2 => exact h
  case h_1 ht =>
    obtain ⟨t, t', hid, hb, s₁, hr, hs⟩ := takeoverInState_ok ht
    rw [claimant_congr hs, hr.claimant hid, hb]
    split
    case isTrue  => simp
    case isFalse => exact h

end TakeOver

end Claims

section Safe

variable {J ι : Type} {c : Codec J} {p : String} {w w' : World J} {id : TicketId} {q : Sql.Req J}
variable {row : Option (Int × J)}

theorem claimant_rows (h : w'.rows p = w.rows p) : w'.claimant c p id = w.claimant c p id := by
  unfold World.claimant World.stored
  rw [h]

theorem claimant_stored {s : ProjectState} (h : w.stored c p = some s) :
    w.claimant c p id = s.claimant id := by
  simp [World.claimant, h]

-- The name on the ticket is gone.
def Releases (c : Codec J) (p : String) (w w' : World J) (id : TicketId) : Prop :=
  w.claimant c p id ≠ none ∧ w'.claimant c p id = none

-- A claim gives a name to one ticket that had none, or it changes nothing.
theorem claimant_claimTx (c : Codec J) (w : World J) (p : String) (id id' : TicketId)
    (worker now : String) :
    (sql c (.claimTx p id' worker now) w).1 ≠ .ok true ∧
      (sql c (.claimTx p id' worker now) w).2 = w ∨
    w.claimant c p id' = none ∧ (sql c (.claimTx p id' worker now) w).2.claimant c p id =
      if id' = id then some worker else w.claimant c p id := by
  cases w.claimTx_cases c p id' worker now
  case inl h =>
    obtain ⟨r, hr, h⟩ := h
    exact .inl ⟨by simpa [sql, h] using hr, by simp [sql, h]⟩
  case inr h =>
    obtain ⟨row, s, s', hr, hd, hc, h⟩ := h
    have hs : w.stored c p = some s := by
      simp [World.stored, hr, hd, Except.toOption]
    have hs' : (sql c (.claimTx p id' worker now) w).2.stored c p = some s' := by
      simp [sql, h, World.stored, c.toState_ofState, Except.toOption]
    rw [claimant_stored hs, claimant_stored hs', claimant_stored hs]
    exact .inr (ProjectState.claimant_claimIn hc)

theorem not_releases_claimTx {id' : TicketId} {worker now : String} :
    ¬ Releases c p w (sql c (.claimTx p id' worker now) w).2 id := by
  rintro ⟨h, h'⟩
  cases claimant_claimTx c w p id id' worker now
  case inl hc => exact h (hc.right ▸ h')
  case inr hc =>
    rw [hc.right] at h'
    split at h'
    case isTrue  => contradiction
    case isFalse => exact h h'

variable [DecidableEq ι] {i : ι} {cfg : Config (Sql.iface J) ι (World J)}

-- The client has loaded the row that is still there, and the ticket is one that recovery releases.
def Recovers (c : Codec J) (p : String) (i : ι) (cfg : Config (Sql.iface J) ι (World J))
    (id : TicketId) : Prop :=
  ∃ row rest s, cfg.past i = ⟨i, .selectRow p, row⟩ :: rest ∧ cfg.world.selectRow p = row ∧
    cfg.world.stored c p = some s ∧ id ∈ RecoverUseCase.orphaned s

-- Only recovery takes names off tickets.
def recoveryProtocol (c : Codec J) (p : String) : Protocol (Sql.iface J) ι (World J) where
  guar cfg cfg'   := Evolves p cfg.world cfg'.world
  assume i q cfg  := q = .selectRow p → RereadFresh p i cfg
  ensure i q cfg  := ∀ id, Releases c p cfg.world (sql c q cfg.world).2 id → Recovers c p i cfg id
  guar_refl _     := .refl
  guar_trans h h' := h.trans h'

theorem recovery_allows (hq : Quiet p cfg (cfg.serve (sql c) i q)) :
    (recoveryProtocol c p).Allows (sql c) i q cfg where
  ensure id h := by
    have hr : (sql c q cfg.world).2.rows p = cfg.world.rows p := hq.rows
    exact absurd ((claimant_rows hr).symm.trans h.right) h.left
  guar        := .same hq.rows

-- What the client knows of its own past stays true when it makes more requests.
theorem recovery_tame {F : List (Entry (Sql.iface J) ι) → Prop} (hF : ∀ l e, F l → F (l ++ [e])) :
    (recoveryProtocol c p).Tame c p i fun cfg => F (cfg.past i) where
  evolves hg    := hg
  allowed _ hq  := recovery_allows hq
  stable hm hl  := hm.left ▸ hl
  kept _ _ hl   := by
    rw [Config.past_serve_self]
    exact hF _ _ hl

section Shift

variable {st : SqlStateStore} {worker : String} {shift : SqlProg J Unit}

theorem recovery_tame_true : (recoveryProtocol c p).Tame c p i fun _ => True :=
  recovery_tame (F := fun _ => True) fun _ _ _ => trivial

-- A claim takes no name off a ticket.
theorem recovery_allows_claim {now : String} :
    (recoveryProtocol c p).Allows (sql c) i (.claimTx p id worker now) cfg where
  ensure _ h := absurd h not_releases_claimTx
  guar       := .claim

-- Neither does a write that keeps them all, except when it recovers.
theorem recovery_allows_write {s s' : ProjectState} {rev : Int}
    (hs : cfg.world.stored c p = some s) (hw : Written c p s' rev i cfg)
    (h : ∀ id, s.claimant id ≠ none → s'.claimant id = none → Recovers c p i cfg id) :
    (recoveryProtocol c p).Allows (sql c) i (writeOf c p s' rev) cfg where
  ensure id hr := by
    obtain ⟨hn, hn'⟩ := hr
    have hs' : (sql c (writeOf c p s' rev) cfg.world).2.stored c p = some s' := hw.stored
    rw [claimant_stored hs] at hn
    rw [claimant_stored hs'] at hn'
    exact h id hn hn'
  guar         := hw.evolves

theorem claimTicket_safe {now : String} :
    (recoveryProtocol c st.projectId).Safe (sql c) i (fun _ _ => True)
      (st.claimTicket id worker now) cfg := by
  unfold SqlStateStore.claimTicket
  simp only [ask_eq, Prog.call_bind, Prog.done_bind, Prog.pure_eq]
  refine recovery_tame_true.call trivial trivial fun _ _ _ _ => ?_
  split
  case isTrue  => exact fun _ _ => trivial
  case isFalse => exact fun _ _ _ => ⟨recovery_allows_claim, fun _ _ => trivial⟩

theorem takeoverClaim_safe {req : Takeover} :
    (recoveryProtocol c st.projectId).Safe (sql c) i (fun _ _ => True)
      (ClaimsUseCase.takeoverClaim c st req) cfg := by
  refine recovery_tame_true.mutateState (fun _ h => h rfl) (fun _ _ _ => trivial)
    (fun s s' s'' rev cfg' hst hs hg _ _ hw => ⟨?_, fun _ _ => trivial⟩) trivial
  cases hs
  refine recovery_allows_write hst hw fun id hn hn' => ?_
  rw [ProjectState.claimant_congr (ProjectState.gateSave_keeps hg).left] at hn'
  exact absurd hn' (claimant_takeOver hn)

theorem Shift.safe (h : Shift c st worker shift) (cfg : Config (Sql.iface J) ι (World J)) :
    (recoveryProtocol c st.projectId).Safe (sql c) i (fun _ _ => True) shift cfg := by
  induction h generalizing cfg
  case rest          => exact fun _ _ => trivial
  case claim _ hi    => exact .bind (claimTicket_safe.mono fun r cfg _ => hi r cfg)
  case takeover _ hi => exact .bind (takeoverClaim_safe.mono fun r cfg _ => hi r cfg)

end Shift

section Boot

open RecoverUseCase

variable {st : SqlStateStore} {worker : String} {shift : SqlProg J Unit} {s s' : ProjectState}

-- All names that recovery takes off are on tickets in progress in the state that it has loaded.
theorem orphaned_of_release (h : release s (orphaned s) = .ok s') (hn : s.claimant id ≠ none)
    (hn' : s'.claimant id = none) : id ∈ orphaned s := by
  by_contra hid
  rw [claimant_release h hid] at hn'
  exact hn hn'

-- The save of recovery, where the load was the first request of the process.
theorem recovery_save_safe {rev : Int} (hs : release s (orphaned s) = .ok s')
    (hp : cfg.past i = [⟨i, .selectRow st.projectId, row⟩]) (hd : decodeRow c row = .ok (rev, s)) :
    (recoveryProtocol c st.projectId).Safe (sql c) i (fun _ _ => True) (st.save c s') cfg := by
  let F (past : List (Entry (Sql.iface J) ι)) :=
    ∃ rest, past = ⟨i, .selectRow st.projectId, row⟩ :: rest
  have hF : ∀ l e, F l → F (l ++ [e]) := by
    rintro _ e ⟨rest, rfl⟩
    exact ⟨rest ++ [e], rfl⟩
  refine (recovery_tame hF).save (fun _ h => h rfl) (fun _ _ _ => trivial)
    (fun s'' rev cfg' hg hr _ hl hw => ⟨?_, fun _ _ => trivial⟩) ⟨[], hp.symm⟩ hd ⟨[], hp⟩
  obtain ⟨rest, hl⟩ := hl
  have hst := stored_of_decodeRow (hr ▸ hd)
  refine recovery_allows_write hst hw fun id hn hn' => ⟨row, rest, s, hl, hr, hst, ?_⟩
  rw [ProjectState.claimant_congr (ProjectState.gateSave_keeps hg).left] at hn'
  exact orphaned_of_release hs hn hn'

theorem execute_safe (hp : cfg.past i = []) :
    (recoveryProtocol c st.projectId).Safe (sql c) i (fun _ _ => True) (execute c st) cfg := by
  unfold execute SqlStateStore.load SqlStateStore.loadVersioned
  simp only [ask_eq, Prog.call_bind, Prog.done_bind, Prog.pure_eq]
  intro cfg' hm _
  refine ⟨recovery_allows (quiet_harmless trivial), ?_⟩
  have hp' : (cfg'.serve (sql c) i (.selectRow st.projectId)).past i =
      [⟨i, .selectRow st.projectId, (sql c (.selectRow st.projectId) cfg'.world).1⟩] := by
    rw [Config.past_serve_self, hm.left, hp]
    rfl
  generalize (sql c (.selectRow st.projectId) cfg'.world).1 = row at hp' ⊢
  generalize cfg'.serve (sql c) i (.selectRow st.projectId) = cfg at hp' ⊢
  beta_reduce
  cases hd : decodeRow c row
  case error e => exact fun _ _ => trivial
  case ok read =>
    obtain ⟨rev, s⟩ := read
    simp only [Except.map]
    split
    case isTrue  => exact fun _ _ => trivial
    case isFalse =>
      cases hs : release s (orphaned s)
      case error e => exact fun _ _ => trivial
      case ok s'   =>
        refine .bind ((recovery_save_safe hs hp' hd).mono fun r cfg _ => ?_)
        cases r <;> exact fun _ _ => trivial

theorem process_safe (h : Shift c st worker shift) (hp : cfg.past i = []) :
    (recoveryProtocol c st.projectId).Safe (sql c) i (fun _ _ => True) (process c st shift) cfg := by
  refine .bind ((execute_safe hp).mono fun r cfg _ => ?_)
  cases r
  case error => exact fun _ _ => trivial
  case ok    => exact h.safe cfg

end Boot

end Safe
