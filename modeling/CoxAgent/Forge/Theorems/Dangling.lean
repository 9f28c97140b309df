import CoxAgent.Forge.Theorems.Sync
import CoxAgent.Lib.Run
import CoxAgent.State.Theorems.Integrity

namespace ProjectState

variable {s s' s'' : ProjectState}

-- What the passes leave alone of all that the audit looks at.
structure SameBut (s s' : ProjectState) : Prop where
  ids         : s'.ticketIds = s.ticketIds
  docs        : s'.docs = s.docs
  channels    : s'.channels = s.channels
  sprintQueue : s'.sprintQueue = s.sprintQueue
  spend       : s'.spend = s.spend ∧ s'.spendTodayUsd = s.spendTodayUsd
  deploys     : s'.deployIndex = s.deployIndex ∧ s'.lastGoodDeploy = s.lastGoodDeploy

theorem SameBut.trans (h : s.SameBut s') (h' : s'.SameBut s'') : s.SameBut s'' where
  ids         := h'.ids.trans h.ids
  docs        := h'.docs.trans h.docs
  channels    := h'.channels.trans h.channels
  sprintQueue := h'.sprintQueue.trans h.sprintQueue
  spend       := ⟨h'.spend.left.trans h.spend.left, h'.spend.right.trans h.spend.right⟩
  deploys     := ⟨h'.deploys.left.trans h.deploys.left, h'.deploys.right.trans h.deploys.right⟩

-- No two comments have one id, and no two messages.
structure Feeds (s : ProjectState) : Prop where
  comments : (s.comments.map (·.id)).Nodup
  chat     : (s.chat.map (·.id)).Nodup

theorem Feeds.congr (h : s.Feeds) (hc : s'.comments = s.comments) (hm : s'.chat = s.chat) : s'.Feeds :=
  ⟨hc ▸ h.comments, hm ▸ h.chat⟩

theorem SameBut.unrepairable (h : s.SameBut s') (hu : s.unrepairable = []) (hf : s'.Feeds) :
    s'.unrepairable = [] := by
  simp only [ProjectState.unrepairable, auditIdUniqueness, auditCounters, auditSpend, h.ids, h.docs,
    h.channels, h.sprintQueue, h.spend, h.deploys, duplicates_eq_nil.mpr hf.comments,
    duplicates_eq_nil.mpr hf.chat, List.append_eq_nil_iff, List.map_eq_nil_iff] at hu ⊢
  tauto

theorem feeds_of_unrepairable (h : s.unrepairable = []) : s.Feeds := by
  simp only [ProjectState.unrepairable, auditIdUniqueness, List.append_eq_nil_iff, List.map_eq_nil_iff] at h
  exact ⟨duplicates_eq_nil.mp (by tauto), duplicates_eq_nil.mp (by tauto)⟩

-- Every key of the audited maps names a ticket.
theorem references_iff :
    s.auditTicketReferences = [] ↔
      (∀ key ∈ s.holdReasons.keys, key ∈ s.ticketIds) ∧
      (∀ key ∈ s.ticketAttachments.keys, key ∈ s.ticketIds) ∧
      (∀ key ∈ s.costHolds.keys, key ∈ s.ticketIds) ∧
      (∀ key ∈ s.ticketEvidence.keys, key ∈ s.ticketIds) ∧
      (∀ key ∈ s.ticketLastMerge.keys, key ∈ s.ticketIds) ∧
      (∀ key ∈ s.ticketRedesigns.keys, key ∈ s.ticketIds) ∧
      (∀ key ∈ s.ticketFailAttempts.keys, key ∈ s.ticketIds) ∧
      (∀ key ∈ s.autoApprovedAt.keys, key ∈ s.ticketIds) ∧
      (∀ key ∈ s.ticketJournal.keys, key ∈ s.ticketIds) ∧
      (∀ key ∈ s.ticketFailures.keys, key ∈ s.ticketIds) ∧
      (∀ key ∈ s.sweptTickets.keys, key ∈ s.ticketIds) ∧
      (∀ key ∈ s.costApproved.keys, key ∈ s.ticketIds) ∧
      (∀ key ∈ s.ticketSessions.keys, sessionTicket key ∈ s.ticketIds) := by
  simp [auditTicketReferences_eq_nil, audited, live, keyTicket]

variable {ticket now : String} {number : Nat} {e : EditIo} {tid : TicketId}

theorem nodup_push {α : Type} {id : α → String} {l : List α} {a : α} {cap : Nat}
    (h : (l.map id).Nodup) (ha : id a ∉ l.map id) :
    (((l ++ [a]).drop cap).map id).Nodup := by
  rw [List.map_drop]
  apply List.Nodup.sublist (List.drop_sublist _ _)
  rw [List.map_append]
  exact h.append (List.nodup_singleton _) (by simpa using ha)

theorem references_congr (hi : s'.ticketIds = s.ticketIds) (ha : s'.audited = s.audited) :
    s'.auditTicketReferences = [] ↔ s.auditTicketReferences = [] := by
  simp only [auditTicketReferences_eq_nil, live, hi, ha]

section Post

variable {id author body : String} {about : Option String}

theorem sameBut_postComment : s.SameBut (s.postComment id now author body about) := by
  constructor <;> simp only [postComment, ticketIds, and_self]

theorem audited_postComment : (s.postComment id now author body about).audited = s.audited := by
  simp only [postComment, audited]

theorem feeds_postComment (h : s.Feeds) (hf : id ∉ s.comments.map (·.id)) :
    (s.postComment id now author body about).Feeds := by
  constructor <;> simp only [postComment]
  · exact nodup_push h.comments hf
  · exact h.chat

theorem feeds_said {agent action user msg channel : String} (h : s.Feeds) (hf : id ∉ s.chat.map (·.id)) :
    (s.logActivity now agent action none |>.postChatIn id now user msg channel []).Feeds := by
  constructor <;> simp only [postChatIn, logActivity]
  · exact h.comments
  · exact nodup_push h.chat hf

end Post

section Merged

theorem sameBut_noteMerge : s.SameBut (s.noteMerge ticket number now) := by
  unfold noteMerge stampMerge
  split <;> exact ⟨rfl, rfl, rfl, rfl, ⟨rfl, rfl⟩, ⟨rfl, rfl⟩⟩

theorem feeds_noteMerge (h : s.Feeds) : (s.noteMerge ticket number now).Feeds := by
  unfold noteMerge stampMerge
  split <;> exact h.congr rfl rfl

theorem references_noteMerge (h : s.auditTicketReferences = []) :
    (s.noteMerge ticket number now).auditTicketReferences = [] := by
  rw [references_iff] at h ⊢
  unfold noteMerge stampMerge
  obtain ⟨h₁, h₂, h₃, h₄, h₅, h₆, h₇, h₈, h₉, h₁₀, h₁₁, h₁₂, h₁₃⟩ := h
  have h₇' : ∀ key ∈ (s.ticketFailAttempts.remove ticket).keys, key ∈ s.ticketIds :=
    fun key hk => h₇ key (BTreeMap.mem_keys_remove.mp hk).left
  have h₉' : ∀ key ∈ (s.ticketJournal.remove ticket).keys, key ∈ s.ticketIds :=
    fun key hk => h₉ key (BTreeMap.mem_keys_remove.mp hk).left
  have h₁₃' : ∀ key ∈ (s.ticketSessions.retain fun k => !Text.startsWith k (ticket ++ "/")).keys,
      sessionTicket key ∈ s.ticketIds := by
    intro key hk
    rw [BTreeMap.keys_retain, List.mem_filter] at hk
    exact h₁₃ key hk.left
  split
  case isFalse  => exact ⟨h₁, h₂, h₃, h₄, h₅, h₆, h₇', h₈, h₉', h₁₀, h₁₁, h₁₂, h₁₃'⟩
  case isTrue hm =>
    have h₅' : ∀ key ∈ (s.ticketLastMerge.insert ticket now).keys, key ∈ s.ticketIds := by
      intro key hk
      cases BTreeMap.mem_keys_insert.mp hk
      case inl hk => exact hk ▸ hm
      case inr hk => exact h₅ key hk
    exact ⟨h₁, h₂, h₃, h₄, h₅', h₆, h₇', h₈, h₉', h₁₀, h₁₁, h₁₂, h₁₃'⟩

theorem sameBut_closeTicket : s.SameBut (s.closeTicket ticket number e tid) := by
  have hi : (s.modifyTicket tid (·.closeMerged.1)).ticketIds = s.ticketIds :=
    modifyTicket_ticketIds fun _ => Ticket.closeMerged_id
  have hm : s.SameBut (s.modifyTicket tid (·.closeMerged.1)) := ⟨hi, rfl, rfl, rfl, ⟨rfl, rfl⟩, ⟨rfl, rfl⟩⟩
  unfold closeTicket
  dsimp only
  split
  case isFalse => split <;> exact hm.trans ⟨rfl, rfl, rfl, rfl, ⟨rfl, rfl⟩, ⟨rfl, rfl⟩⟩
  case isTrue  =>
    refine SameBut.trans ?_ sameBut_postComment
    split <;> exact hm.trans ⟨rfl, rfl, rfl, rfl, ⟨rfl, rfl⟩, ⟨rfl, rfl⟩⟩

theorem audited_closeTicket : (s.closeTicket ticket number e tid).audited = s.audited := by
  unfold closeTicket
  dsimp only
  split
  case isFalse => split <;> rfl
  case isTrue  =>
    rw [audited_postComment]
    split <;> rfl

theorem feeds_closeTicket (h : s.Feeds) (hf : e.mint ∉ s.comments.map (·.id)) :
    (s.closeTicket ticket number e tid).Feeds := by
  unfold closeTicket
  dsimp only
  split
  case isFalse => split <;> exact h.congr rfl rfl
  case isTrue  =>
    split <;> exact feeds_postComment (h.congr rfl rfl) hf

theorem sameBut_syncMerged : s.SameBut (s.syncMerged ticket number e) := by
  unfold syncMerged
  split
  case isTrue  => exact ⟨rfl, rfl, rfl, rfl, ⟨rfl, rfl⟩, ⟨rfl, rfl⟩⟩
  case isFalse =>
    dsimp only
    cases TicketId.new ticket
    case error => exact sameBut_noteMerge
    case ok    => exact sameBut_noteMerge.trans sameBut_closeTicket

-- A merge plants nothing, whatever the branch is called.
theorem references_syncMerged (h : s.auditTicketReferences = []) :
    (s.syncMerged ticket number e).auditTicketReferences = [] := by
  unfold syncMerged
  split
  case isTrue  => exact h
  case isFalse =>
    dsimp only
    cases TicketId.new ticket
    case error => exact references_noteMerge h
    case ok    =>
      exact (references_congr sameBut_closeTicket.ids audited_closeTicket).mpr (references_noteMerge h)

theorem feeds_syncMerged (h : s.Feeds) (hf : e.mint ∉ s.comments.map (·.id)) :
    (s.syncMerged ticket number e).Feeds := by
  unfold syncMerged
  split
  case isTrue  => exact h
  case isFalse =>
    dsimp only
    cases TicketId.new ticket
    case error => exact feeds_noteMerge h
    case ok    =>
      apply feeds_closeTicket (feeds_noteMerge h)
      unfold noteMerge stampMerge
      split <;> exact hf

end Merged

section Closed

variable {lesson note : String}

theorem sameBut_addLesson : s.SameBut (s.addLesson now lesson) := by
  unfold addLesson
  dsimp only
  split <;> exact ⟨rfl, rfl, rfl, rfl, ⟨rfl, rfl⟩, ⟨rfl, rfl⟩⟩

theorem audited_addLesson : (s.addLesson now lesson).audited = s.audited := by
  unfold addLesson
  dsimp only
  split <;> rfl

theorem feeds_addLesson : (s.addLesson now lesson).comments = s.comments ∧
    (s.addLesson now lesson).chat = s.chat := by
  unfold addLesson
  dsimp only
  split <;> exact ⟨rfl, rfl⟩

theorem sameBut_journalNote : s.SameBut (s.journalNote ticket note) := by
  unfold journalNote
  dsimp only
  split <;> exact ⟨rfl, rfl, rfl, rfl, ⟨rfl, rfl⟩, ⟨rfl, rfl⟩⟩

theorem feeds_journalNote : (s.journalNote ticket note).comments = s.comments ∧
    (s.journalNote ticket note).chat = s.chat := by
  unfold journalNote
  dsimp only
  split <;> exact ⟨rfl, rfl⟩

-- A note that has any text is kept under its ticket, which need not be one.
theorem references_journalNote (hn : (Text.trim note).toList ≠ []) :
    (s.journalNote ticket note).auditTicketReferences = [] ↔
      s.auditTicketReferences = [] ∧ ticket ∈ s.ticketIds := by
  have he : String.ofList ((Text.trim note).toList.take journalNoteChars) ≠ "" := by
    intro h
    have hl := congrArg String.toList h
    simp [journalNoteChars] at hl
    exact hn (by simp [hl])
  unfold journalNote
  simp only [he, if_false]
  rw [references_iff, references_iff]
  simp only [ticketIds, BTreeMap.mem_keys_insert, forall_eq_or_imp]
  constructor
  case mp  =>
    rintro ⟨h₁, h₂, h₃, h₄, h₅, h₆, h₇, h₈, ⟨ht, h₉⟩, h⟩
    exact ⟨⟨h₁, h₂, h₃, h₄, h₅, h₆, h₇, h₈, h₉, h⟩, ht⟩
  case mpr =>
    rintro ⟨⟨h₁, h₂, h₃, h₄, h₅, h₆, h₇, h₈, h₉, h⟩, ht⟩
    exact ⟨h₁, h₂, h₃, h₄, h₅, h₆, h₇, h₈, ⟨ht, h₉⟩, h⟩

theorem trim_ne_nil {c : Char} {cs : List Char} {text : String} (h : text.toList = c :: cs)
    (hc : Text.isWhitespace c = false) : (Text.trim text).toList ≠ [] := by
  rw [Text.trim, String.toList_ofList, h, Text.trimChars, List.dropWhile_cons_of_neg (by simp [hc]), ne_eq,
    List.rdropWhile_eq_nil_iff]
  intro hw
  simpa [hc] using hw c (by simp)

theorem closedNote_ne_nil :
    (Text.trim s!"human closed PR #{number} unmerged — redesign, don't recode").toList ≠ [] :=
  trim_ne_nil (by simp [String.toList_append]; rfl) (by decide)

theorem sameBut_syncClosed : s.SameBut (s.syncClosed ticket number e) := by
  unfold syncClosed
  refine SameBut.trans ?_ sameBut_postComment
  refine SameBut.trans ?_ sameBut_journalNote
  refine SameBut.trans ?_ sameBut_addLesson
  exact ⟨rfl, rfl, rfl, rfl, ⟨rfl, rfl⟩, ⟨rfl, rfl⟩⟩

theorem references_syncClosed :
    (s.syncClosed ticket number e).auditTicketReferences = [] ↔
      s.auditTicketReferences = [] ∧ ticket ∈ s.ticketIds := by
  unfold syncClosed
  rw [references_congr sameBut_postComment.ids audited_postComment, references_journalNote closedNote_ne_nil,
    references_congr sameBut_addLesson.ids audited_addLesson, sameBut_addLesson.ids]
  rfl

theorem feeds_syncClosed (h : s.Feeds) (hf : e.mint ∉ s.comments.map (·.id)) :
    (s.syncClosed ticket number e).Feeds := by
  unfold syncClosed
  refine feeds_postComment ?_ ?_
  · refine h.congr ?_ ?_
    · rw [feeds_journalNote.left, feeds_addLesson.left]
    · rw [feeds_journalNote.right, feeds_addLesson.right]
  · rw [feeds_journalNote.left, feeds_addLesson.left]
    exact hf

end Closed

end ProjectState

namespace PortRun

variable {base head : String} {io : TagIo} {o : SyncRun}

theorem feeds_tagMergedRelease (h : o.state.Feeds) (hf : io.edit.mint ∉ o.state.chat.map (·.id)) :
    (o.tagMergedRelease base head io).state.Feeds := by
  obtain hs | ⟨action, msg, hs⟩ := @tagMergedRelease_state base head io o
  case inl =>
    rw [hs]
    exact h
  case inr =>
    rw [hs]
    exact ProjectState.feeds_said h hf

end PortRun

namespace SyncEvent

variable {base : String} {o : SyncRun} {e : SyncEvent} {prs : List MergedPr} {prs' : List ClosedPr}

-- The ids that an event mints are new.
def Fresh (o : SyncRun) : SyncEvent → Prop
  | merged pr =>
    pr.edit.mint ∉ o.state.comments.map (·.id) ∧ pr.tag.edit.mint ∉ o.state.chat.map (·.id)
  | closed pr => pr.edit.mint ∉ o.state.comments.map (·.id)
  | _         => True

-- The branch of a pull request that is found closed names a ticket.
def Names (o : SyncRun) : SyncEvent → Prop
  | closed pr =>
    pr.loads → pr.number ∉ o.state.seenClosedPrs.keys → pr.edit.fails = false →
      headTicket pr.head ∈ o.state.ticketIds
  | _         => True

theorem step_merged {pr : MergedPr} (h : o.state.auditStructuralIntegrity = [])
    (hf : (merged pr).Fresh o) : (step base o (merged pr)).state.auditStructuralIntegrity = [] := by
  have ⟨hu, hr⟩ := ProjectState.audit_eq_nil.mp h
  have hfeeds := ProjectState.feeds_of_unrepairable hu
  -- The tag of a release only logs.
  obtain ⟨activity, chat, ht⟩ := @PortRun.tagIfRelease_logged base o pr
  have htf : (o.tagIfRelease base pr).state.Feeds := by
    unfold PortRun.tagIfRelease
    split
    case isTrue  => exact PortRun.feeds_tagMergedRelease hfeeds hf.right
    case isFalse => exact hfeeds
  have htc : (o.tagIfRelease base pr).state.comments = o.state.comments := by rw [ht]
  have hts : o.state.SameBut (o.tagIfRelease base pr).state := by
    rw [ht]
    exact ⟨rfl, rfl, rfl, rfl, ⟨rfl, rfl⟩, ⟨rfl, rfl⟩⟩
  have htr : (o.tagIfRelease base pr).state.auditTicketReferences = [] := by
    rw [ProjectState.references_congr hts.ids (by rw [ht]; rfl)]
    exact hr
  rw [step, PortRun.syncMergedPr_eq, PortRun.state_edit, ProjectState.audit_eq_nil]
  split
  case isTrue  => exact ⟨hts.unrepairable hu htf, htr⟩
  case isFalse =>
    have hs := hts.trans
      (@ProjectState.sameBut_syncMerged _ (headTicket pr.head) pr.number pr.edit)
    exact ⟨hs.unrepairable hu (ProjectState.feeds_syncMerged htf (htc ▸ hf.left)),
      ProjectState.references_syncMerged htr⟩

-- What a pass finds closed is passed over, or it is recorded.
theorem step_closed_cases (pr : ClosedPr) :
    ((closed pr).Names o ∧ (step base o (closed pr)).state = o.state) ∨
      (((closed pr).Names o ↔ headTicket pr.head ∈ o.state.ticketIds) ∧
        (step base o (closed pr)).state = o.state.syncClosed (headTicket pr.head) pr.number pr.edit) := by
  unfold step PortRun.syncClosedPr Names
  by_cases hk : !pr.loads ∨ pr.number ∈ o.state.seenClosedPrs.keys
  case pos =>
    refine .inl ⟨fun hl hn => ?_, by simp_all⟩
    simp_all
  case neg =>
    obtain ⟨hl, hn⟩ : pr.loads = true ∧ pr.number ∉ o.state.seenClosedPrs.keys := by simpa using hk
    cases hf : pr.edit.fails
    case true  => exact .inl ⟨by simp [hf], by simp [hl, hn, hf, PortRun.state_edit]⟩
    case false => exact .inr ⟨by simp [hl, hn, hf], by simp [hl, hn, hf, PortRun.state_edit]⟩

theorem sameBut_step_closed {pr : ClosedPr} : o.state.SameBut (step base o (closed pr)).state := by
  obtain ⟨-, hs⟩ | ⟨-, hs⟩ := @step_closed_cases base o pr
  case inl => exact hs ▸ ⟨rfl, rfl, rfl, rfl, ⟨rfl, rfl⟩, ⟨rfl, rfl⟩⟩
  case inr => exact hs ▸ ProjectState.sameBut_syncClosed

theorem references_step_closed {pr : ClosedPr} :
    (step base o (closed pr)).state.auditTicketReferences = [] ↔
      o.state.auditTicketReferences = [] ∧ (closed pr).Names o := by
  obtain ⟨hn, hs⟩ | ⟨hn, hs⟩ := @step_closed_cases base o pr
  case inl => simp [hs, hn]
  case inr => rw [hs, hn, ProjectState.references_syncClosed]

theorem step_closed {pr : ClosedPr} (h : o.state.auditStructuralIntegrity = [])
    (hf : (closed pr).Fresh o) :
    (step base o (closed pr)).state.auditStructuralIntegrity = [] ↔ (closed pr).Names o := by
  have ⟨hu, hr⟩ := ProjectState.audit_eq_nil.mp h
  have hfeeds := ProjectState.feeds_of_unrepairable hu
  have hfeeds' : (step base o (closed pr)).state.Feeds := by
    obtain ⟨-, hs⟩ | ⟨-, hs⟩ := @step_closed_cases base o pr
    case inl => exact hs ▸ hfeeds
    case inr => exact hs ▸ ProjectState.feeds_syncClosed hfeeds hf
  rw [ProjectState.audit_eq_nil, references_step_closed]
  simp [sameBut_step_closed.unrepairable hu hfeeds', hr]

theorem references_of_foldl_closed
    (h : ((prs'.map closed).foldl (step base) o).state.auditTicketReferences = []) :
    o.state.auditTicketReferences = [] := by
  induction prs' generalizing o
  case nil           => exact h
  case cons pr prs hi => exact (references_step_closed.mp (hi h)).left

theorem foldl_merged (h : o.state.auditStructuralIntegrity = [])
    (hf : Run.Meets (step base) (fun o e => e.Fresh o) o (prs.map merged)) :
    ((prs.map merged).foldl (step base) o).state.auditStructuralIntegrity = [] ∧
      Run.Meets (step base) (fun o e => e.Names o) o (prs.map merged) := by
  induction prs generalizing o
  case nil            => exact ⟨h, trivial⟩
  case cons pr prs hi =>
    obtain ⟨ha, hn⟩ := hi (step_merged h hf.left) hf.right
    exact ⟨ha, trivial, hn⟩

theorem foldl_closed_iff (h : o.state.auditStructuralIntegrity = [])
    (hf : Run.Meets (step base) (fun o e => e.Fresh o) o (prs'.map closed)) :
    ((prs'.map closed).foldl (step base) o).state.auditStructuralIntegrity = [] ↔
      Run.Meets (step base) (fun o e => e.Names o) o (prs'.map closed) := by
  induction prs' generalizing o
  case nil            => exact iff_of_true h trivial
  case cons pr prs hi =>
    rw [List.map_cons, List.foldl_cons]
    by_cases hn : (closed pr).Names o
    case pos =>
      rw [hi ((step_closed h hf.left).mpr hn) hf.right]
      exact (and_iff_right hn).symm
    case neg =>
      refine iff_of_false (fun ha => ?_) (fun hm => hn hm.left)
      have hr := references_of_foldl_closed (ProjectState.audit_eq_nil.mp ha).right
      exact hn (references_step_closed.mp hr).right

-- The passes plant no dangling reference if each pull request that they find closed names a ticket.
theorem forgeSync_clean_iff (h : o.state.auditStructuralIntegrity = [])
    (hf : Run.Meets (step base) (fun o e => e.Fresh o) o (ofPass prs prs')) :
    (forgeSync base (some prs) (some prs') o).state.auditStructuralIntegrity = [] ↔
      Run.Meets (step base) (fun o e => e.Names o) o (ofPass prs prs') := by
  rw [ofPass, Run.meets_append] at hf ⊢
  obtain ⟨ha, hn⟩ := foldl_merged h hf.left
  rw [forgeSync_eq_foldl, ofPass, List.foldl_append, foldl_closed_iff ha hf.right]
  exact (and_iff_right hn).symm

theorem forgeSync_clean_iff_named :
    let t : Ticket := { id := ⟨"CX-F001"⟩, kind := .feature, title := "export", status := .ready }
    let o : SyncRun := { state := { tickets := [t] } }
    let pr : ClosedPr := { number := 7, head := "feat/CX-F001", edit := { mint := "c1" } }
    (forgeSync "main" (some []) (some [pr]) o).state.auditStructuralIntegrity = [] ↔
      Run.Meets (step "main") (fun o e => e.Names o) o (ofPass [] [pr]) :=
  forgeSync_clean_iff (by decide) ⟨List.not_mem_nil, trivial⟩

-- A branch of the operators names no ticket.
theorem forgeSync_dangling :
    let o : SyncRun := { state := {} }
    let pr : ClosedPr := { number := 7, head := "fix/heal-names-refs", edit := { mint := "c1" } }
    o.state.auditStructuralIntegrity = [] ∧
      (forgeSync "main" (some []) (some [pr]) o).state.auditStructuralIntegrity ≠ [] := by
  intro o pr
  refine ⟨by decide, fun h => ?_⟩
  have hr : (step "main" o (closed pr)).state.auditTicketReferences = [] :=
    (ProjectState.audit_eq_nil.mp h).right
  have hn : headTicket pr.head ∈ o.state.ticketIds :=
    (references_step_closed.mp hr).right rfl List.not_mem_nil rfl
  exact List.not_mem_nil hn

end SyncEvent
