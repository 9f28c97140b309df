import CoxAgent.Forge.Sync

namespace Ticket

variable {t : Ticket}

theorem closeMerged_of_not (h : t.closeMerged.2 = false) : t.closeMerged.1 = t := by
  cases hk : t.kind <;> cases hs : t.status <;>
    simp_all [closeMerged, finish, mergedEnd, transitionTo, checkTransition, transitionAllowed,
      canTransition, enter]

theorem finish_id : t.finish.1.id = t.id := by
  unfold finish transitionTo
  dsimp only
  cases t.checkTransition (mergedEnd t.kind).1 (mergedEnd t.kind).2
  case error => rfl
  case ok    => exact (t.enter_preserves _).left

theorem closeMerged_id : t.closeMerged.1.id = t.id := by
  have hstart {t'} (h : t.transitionTo (mergedEnd t.kind).1 .inProgress = .ok t') : t'.id = t.id := by
    unfold transitionTo at h
    split at h
    case h_1 => contradiction
    case h_2 => exact Except.ok.inj h ▸ (t.enter_preserves _).left
  unfold closeMerged
  split
  case h_1 =>
    split
    case h_1 t' h => exact finish_id.trans (hstart h)
    case h_2      => rfl
  case h_2 =>
    split
    case h_1 t' h => exact finish_id.trans (hstart h)
    case h_2      => rfl
  case h_3 => exact finish_id
  case h_4 => rfl

end Ticket

namespace ProjectState

variable {s : ProjectState} {number : Nat} {ticket now : String} {e : EditIo} {tid : TicketId}

-- The state is the same, but for what is logged about a release.
def OnlyLogged (s s' : ProjectState) : Prop :=
  ∃ activity chat, s' = { s with activity, chat }

-- The ticket is where a merge can close it, or past that.
def Closable (s : ProjectState) (tid : TicketId) : Prop :=
  ∀ t, s.ticket tid = some t → t.status.landed ∨ t.closeMerged.2

theorem mem_seenMergedPrs_closeTicket {n : Nat} :
    n ∈ (s.closeTicket ticket number e tid).seenMergedPrs.keys ↔
      n ∈ s.seenMergedPrs.keys ∨ n = number ∧ s.Closable tid := by
  have hdone : ((s.ticket tid).any (·.closeMerged.2) ||
      ((s.modifyTicket tid (·.closeMerged.1)).ticket tid).all (·.status.landed)) = true ↔
        s.Closable tid := by
    rw [ticket_modifyTicket (fun _ => Ticket.closeMerged_id)]
    unfold Closable
    cases ht : s.ticket tid
    case none   => simp
    case some t =>
      cases hm : t.closeMerged.2
      case true  => simp [hm]
      case false => simp [hm, Ticket.closeMerged_of_not hm]
  unfold closeTicket
  by_cases hc : s.Closable tid
  case pos =>
    simp only [hdone.mpr hc, if_true]
    split <;> simp [postComment, modifyTicket, hc, or_comm]
  case neg =>
    simp only [mt hdone.mp hc]
    split <;> simp [postComment, modifyTicket, hc]

theorem seenMergedPrs_noteMerge : (s.noteMerge ticket number now).seenMergedPrs = s.seenMergedPrs := by
  unfold noteMerge stampMerge
  split <;> rfl

theorem closable_noteMerge : (s.noteMerge ticket number now).Closable tid ↔ s.Closable tid := by
  unfold noteMerge stampMerge
  split <;> rfl

-- The pass marks the pull requests of tickets that it finds, or puts, at their end.
theorem mem_seenMergedPrs_syncMerged {n : Nat} :
    n ∈ (s.syncMerged ticket number e).seenMergedPrs.keys ↔
      n ∈ s.seenMergedPrs.keys ∨ n = number ∧ ¬Text.Blank ticket ∧ s.Closable ⟨ticket⟩ := by
  unfold syncMerged
  split
  case isTrue h => grind
  case isFalse  =>
    unfold TicketId.new Text.Blank
    by_cases hb : Text.trim ticket = ""
    case pos => simp [hb, seenMergedPrs_noteMerge]
    case neg => simp [hb, mem_seenMergedPrs_closeTicket, closable_noteMerge, seenMergedPrs_noteMerge]

theorem seenMergedPrs_addLesson {lesson : String} :
    (s.addLesson now lesson).seenMergedPrs = s.seenMergedPrs := by
  unfold addLesson
  dsimp only
  split <;> rfl

theorem seenMergedPrs_journalNote {note : String} :
    (s.journalNote ticket note).seenMergedPrs = s.seenMergedPrs := by
  unfold journalNote
  dsimp only
  split <;> rfl

theorem seenMergedPrs_postComment {id author body : String} {about : Option String} :
    (s.postComment id now author body about).seenMergedPrs = s.seenMergedPrs := by
  rw [postComment]

theorem seenMergedPrs_syncClosed : (s.syncClosed ticket number e).seenMergedPrs = s.seenMergedPrs := by
  unfold syncClosed
  simp only [seenMergedPrs_postComment, seenMergedPrs_journalNote, seenMergedPrs_addLesson]

theorem OnlyLogged.refl : s.OnlyLogged s :=
  ⟨s.activity, s.chat, rfl⟩

theorem OnlyLogged.said {id agent action user body channel : String} :
    s.OnlyLogged (s.logActivity now agent action none |>.postChatIn id now user body channel []) :=
  ⟨_, _, rfl⟩

theorem OnlyLogged.closable {s' : ProjectState} (h : s.OnlyLogged s') : s'.Closable tid ↔ s.Closable tid := by
  obtain ⟨_, _, rfl⟩ := h
  rfl

theorem OnlyLogged.seenMergedPrs {s' : ProjectState} (h : s.OnlyLogged s') :
    s'.seenMergedPrs = s.seenMergedPrs := by
  obtain ⟨_, _, rfl⟩ := h
  rfl

theorem OnlyLogged.tickets {s' : ProjectState} (h : s.OnlyLogged s') : s'.tickets = s.tickets := by
  obtain ⟨_, _, rfl⟩ := h
  rfl

end ProjectState

namespace PortRun

variable {base head : String} {io : TagIo} {o : SyncRun}

-- A tag that was pushed is announced, and else the state is left alone.
theorem tagMergedRelease_state :
    (o.tagMergedRelease base head io).state = o.state ∨
      ∃ action msg, (o.tagMergedRelease base head io).state =
        (o.state.logActivity io.edit.now "SM" action none
          |>.postChatIn io.edit.mint io.edit.now "SM" msg agentsChannel []) := by
  unfold tagMergedRelease
  split
  case h_1 => exact .inl rfl
  case h_2 =>
    split
    case isTrue  => exact .inl rfl
    case isFalse =>
      dsimp only
      by_cases hk : io.known
      case pos => exact .inl (by rw [if_pos hk]; rfl)
      case neg =>
        rw [if_neg hk]
        by_cases ht : !io.tagged
        case pos => exact .inl (by rw [if_pos ht]; rfl)
        case neg =>
          rw [if_neg ht]
          by_cases hp : !io.pushed
          case pos => exact .inl (by rw [if_pos hp]; rfl)
          case neg =>
            rw [if_neg hp, state_act, state_edit]
            split
            case isTrue  => exact .inl rfl
            case isFalse => exact .inr ⟨_, _, rfl⟩

theorem tagMergedRelease_logged : o.state.OnlyLogged (o.tagMergedRelease base head io).state := by
  obtain hs | ⟨action, msg, hs⟩ := @tagMergedRelease_state base head io o
  case inl =>
    rw [hs]
    exact .refl
  case inr =>
    rw [hs]
    exact .said

-- The release is tagged first, which leaves what the sync reads alone.
def tagIfRelease (base : String) (pr : MergedPr) (o : SyncRun) : SyncRun :=
  if Text.startsWith pr.head "release/v" then o.tagMergedRelease base pr.head pr.tag else o

theorem tagIfRelease_logged {pr : MergedPr} : o.state.OnlyLogged (o.tagIfRelease base pr).state := by
  unfold tagIfRelease
  split
  case isTrue  => exact tagMergedRelease_logged
  case isFalse => exact .refl

theorem syncMergedPr_eq {pr : MergedPr} :
    o.syncMergedPr base pr =
      (o.tagIfRelease base pr).edit pr.edit (·.syncMerged (headTicket pr.head) pr.number pr.edit) :=
  rfl

end PortRun

-- The pass reaches the store, and puts the ticket at its end, or finds it there, or finds no ticket.
structure MergedPr.Settles (pr : MergedPr) (s : ProjectState) : Prop where
  stored   : pr.edit.fails = false
  named    : ¬Text.Blank (headTicket pr.head)
  closable : s.Closable ⟨headTicket pr.head⟩

namespace SyncEvent

variable {base : String} {o : SyncRun} {e : SyncEvent} {es : List SyncEvent} {n : Nat}

def Unparks : SyncEvent → Prop
  | unpark _ _ => True
  | _          => False

theorem step_keeps_seen (he : ¬e.Unparks) (h : n ∈ o.state.seenMergedPrs.keys) :
    n ∈ (e.step base o).state.seenMergedPrs.keys := by
  cases e
  case unpark id e   => exact absurd trivial he
  case other f keeps => exact keeps _ _ h
  case closed pr     =>
    have hs : (o.syncClosedPr pr).state.seenMergedPrs = o.state.seenMergedPrs := by
      unfold PortRun.syncClosedPr
      split
      case isTrue  => rfl
      case isFalse =>
        rw [PortRun.state_edit]
        split
        case isTrue  => rfl
        case isFalse => exact ProjectState.seenMergedPrs_syncClosed
    exact hs ▸ h
  case merged pr     =>
    have ht := (@PortRun.tagIfRelease_logged base o pr).seenMergedPrs
    rw [step, PortRun.syncMergedPr_eq, PortRun.state_edit]
    split
    case isTrue  => exact ht ▸ h
    case isFalse => exact ProjectState.mem_seenMergedPrs_syncMerged.mpr (.inl (ht ▸ h))

theorem foldl_keeps_seen (he : ∀ e ∈ es, ¬e.Unparks) (h : n ∈ o.state.seenMergedPrs.keys) :
    n ∈ (es.foldl (step base) o).state.seenMergedPrs.keys := by
  induction es generalizing o
  case nil          => exact h
  case cons e es hi =>
    rw [List.forall_mem_cons] at he
    exact hi he.right (step_keeps_seen he.left h)

-- A pass that sees a marked pull request again does nothing about it.
theorem syncMergedPr_logged {pr : MergedPr} (h : pr.number ∈ o.state.seenMergedPrs.keys) :
    o.state.OnlyLogged (o.syncMergedPr base pr).state := by
  have ht := @PortRun.tagIfRelease_logged base o pr
  have hs : (o.tagIfRelease base pr).state.syncMerged (headTicket pr.head) pr.number pr.edit =
      (o.tagIfRelease base pr).state := by
    rw [ProjectState.syncMerged, if_pos (ht.seenMergedPrs ▸ h)]
  rw [PortRun.syncMergedPr_eq, PortRun.state_edit, hs]
  split <;> exact ht

-- The second sync of a merged pull request, and each one after that, does nothing about it.
def SyncedOnce (base : String) (o : SyncRun) (es : List SyncEvent) : Prop :=
  ∀ pre pr mid pr' post, es = pre ++ merged pr :: (mid ++ merged pr' :: post) → pr.edit.fails = false →
    pr'.number = pr.number → pr'.head = pr.head →
    let o' := (pre ++ merged pr :: mid).foldl (step base) o
    o'.state.OnlyLogged (o'.syncMergedPr base pr').state

variable {pre mid : List SyncEvent} {pr pr' : MergedPr}

-- Once a pass has settled a merged pull request the later ones do nothing about it, until a person gives
-- a ticket another try.
theorem settled_once (hs : pr.Settles (pre.foldl (step base) o).state) (hm : ∀ e ∈ mid, ¬e.Unparks)
    (hn : pr'.number = pr.number) :
    let o' := (pre ++ merged pr :: mid).foldl (step base) o
    o'.state.OnlyLogged (o'.syncMergedPr base pr').state := by
  intro o'
  have hmark : pr.number ∈ (step base (pre.foldl (step base) o) (merged pr)).state.seenMergedPrs.keys := by
    have ht := @PortRun.tagIfRelease_logged base (pre.foldl (step base) o) pr
    rw [step, PortRun.syncMergedPr_eq, PortRun.state_edit, if_neg (by simp [hs.stored]),
      ProjectState.mem_seenMergedPrs_syncMerged]
    exact .inr ⟨rfl, hs.named, ht.closable.mpr hs.closable⟩
  apply syncMergedPr_logged
  rw [hn]
  simpa [o'] using foldl_keeps_seen hm hmark

-- A finished ticket stays finished when its pull request is seen again.
theorem settled_once_finished :
    let t : Ticket := { id := ⟨"CX-B001"⟩, kind := .bug, title := "crash", status := .fixed }
    let o : SyncRun := { state := { tickets := [t], ticketFailAttempts := .single "CX-B001" 2 } }
    let pr : MergedPr := { number := 7, head := "fix/CX-B001" }
    let o' := ([] ++ merged pr :: []).foldl (step "main") o
    o'.state.OnlyLogged (o'.syncMergedPr "main" pr).state :=
  settled_once ⟨rfl, by decide, by
    intro t ht
    cases ht
    exact .inl rfl⟩ (by simp) rfl

-- The bug is on hold when its pull request is merged, and a person takes it up again before the next pass.
def resumedBetween : List SyncEvent :=
  let pr : MergedPr := { number := 7, head := "fix/CX-B001" }
  let resume (t : Ticket) := (t.transitionTo .user .open).toOption.getD t
  [merged pr, other (·.modifyTicket ⟨"CX-B001"⟩ resume) fun _ _ h => h, merged pr]

def heldBug : SyncRun where
  state := { tickets := [{ id := ⟨"CX-B001"⟩, kind := .bug, title := "crash", status := .onHold }] }

def statusesAfter (k : Nat) : List Status :=
  ((resumedBetween.take k).foldl (step "main") heldBug).state.tickets.map (·.status)

-- The second pass closes the bug, as the first could not.
theorem not_syncedOnce :
    ¬SyncedOnce "main" heldBug resumedBetween ∧
      (List.range 4).map statusesAfter = [[.onHold], [.onHold], [.open], [.fixed]] := by
  refine ⟨fun h => ?_, by decide⟩
  have ht := congrArg (List.map Ticket.status) (h [] _ [_] _ [] rfl rfl rfl rfl).tickets
  revert ht
  decide

end SyncEvent
