import CoxAgent.Cycle.Theorems.Evict
import CoxAgent.Lib.Run
import CoxAgent.Release.Cut
import CoxAgent.Release.Theorems.Manifest

-- When verified work is released exactly once.

-- The subject names a ticket of the project.
def Names (tickets : List Ticket) (subject : String) : Prop :=
  ∃ t ∈ tickets, t.id.asStr ∈ ReleaseCandidates.refs subject

-- The subject names tickets of the project, and all of them are complete.
def NamesComplete (tickets : List Ticket) (subject : String) : Prop :=
  Names tickets subject ∧
    ∀ t ∈ tickets, t.id.asStr ∈ ReleaseCandidates.refs subject → ReleaseCandidates.isVerifiedComplete t

-- The subject of a commit is on the list of a release that considered it.
def ReleaseCut.Carries (cut : ReleaseCut) (i : Nat) (subject : String) : Prop :=
  cut.since ≤ i ∧ i < cut.upto ∧ Text.trim subject ∈ cut.included.map Text.trim

instance {tickets : List Ticket} {subject : String} : Decidable (Names tickets subject) := by
  unfold Names
  infer_instance

instance {tickets : List Ticket} {subject : String} : Decidable (NamesComplete tickets subject) := by
  unfold NamesComplete
  infer_instance

instance {cut : ReleaseCut} {i : Nat} {subject : String} : Decidable (cut.Carries i subject) := by
  unfold ReleaseCut.Carries
  infer_instance

namespace ReleaseLine

-- Verified work is on the list of exactly one release: every commit whose tickets were complete at the
-- time of a cut at or after it.
def ReleasedOnce (w : ReleaseLine) : Prop :=
  ∀ i x, w.commits[i]? = some x → (∃ cut ∈ w.cuts, i < cut.upto ∧ NamesComplete cut.tickets x) →
    w.cuts.countP (·.Carries i x) = 1

section Covered

variable (days : String → String → Nat) (c : ReleasesConfig)

-- Whether the consideration opens a pull request.
def Opens (w : ReleaseLine) (io : CutIo) : Prop :=
  (maybeCutRelease days c true io w.project w.pending.toList w.subjectsSinceLastTag).isSome

-- No tag leaves work behind. When a release is cut no other one is open, and what names tickets since the
-- last tag ships on the board. Until it is merged nothing lands that names a ticket, the commit of the
-- merge included, and no ticket gets an id that a commit has named before.
def Covered (w : ReleaseLine) : ReleaseEvent → Prop
  | .commit x  => w.pending.isSome → ¬Names w.tickets x
  | .mint t    => ∀ x ∈ w.commits, t.id.asStr ∉ ReleaseCandidates.refs x
  | .move ..   => True
  | .evict _   => True
  | .cut io    => w.Opens days c io → w.pending = none ∧
      (c.cutOnlyVerified → ∀ x ∈ w.commits.drop w.tagged, Names w.tickets x →
        ReleaseCandidates.Included w.project x)
  | .merge x   => w.pending.isSome → ¬Names w.tickets x

end Covered

section Decidable

variable (days : String → String → Nat) (c : ReleasesConfig)

instance (w : ReleaseLine) (io : CutIo) : Decidable (w.Opens days c io) :=
  inferInstanceAs (Decidable (Option.isSome _ = true))

instance decidableCovered (w : ReleaseLine) : (e : ReleaseEvent) → Decidable (w.Covered days c e)
  | .commit x  => inferInstanceAs (Decidable (w.pending.isSome → ¬Names w.tickets x))
  | .mint t    => inferInstanceAs (Decidable (∀ x ∈ w.commits, t.id.asStr ∉ ReleaseCandidates.refs x))
  | .move ..   => instDecidableTrue
  | .evict _   => instDecidableTrue
  | .cut io    => inferInstanceAs (Decidable (w.Opens days c io → w.pending = none ∧
      (c.cutOnlyVerified → ∀ x ∈ w.commits.drop w.tagged, Names w.tickets x →
        ReleaseCandidates.Included w.project x)))
  | .merge x   => inferInstanceAs (Decidable (w.pending.isSome → ¬Names w.tickets x))

end Decidable

-- How many commits are tagged or considered by the release that is open.
def reach (w : ReleaseLine) : Nat :=
  if w.pending.isSome then w.commits.length else w.tagged

-- What names tickets within reach is carried once, and nothing beyond it has been considered.
structure Accounted (w : ReleaseLine) : Prop where
  tagged : w.tagged ≤ w.commits.length
  upto   : ∀ cut ∈ w.cuts, cut.upto ≤ w.reach
  once   : ∀ i x, w.commits[i]? = some x → i < w.reach → Names w.tickets x →
             w.cuts.countP (·.Carries i x) = 1
  known  : ∀ cut ∈ w.cuts, ∀ x, Names cut.tickets x → Names w.tickets x

variable {days : String → String → Nat} {c : ReleasesConfig} {w w' : ReleaseLine}

theorem Accounted.releasedOnce (h : w.Accounted) : w.ReleasedOnce := by
  rintro i x hx ⟨cut, hcut, hi, hn⟩
  exact h.once i x hx (Nat.lt_of_lt_of_le hi (h.upto cut hcut)) (h.known cut hcut x hn.left)

-- An edit of the board that keeps what the commits name.
theorem Accounted.congr (h : w.Accounted) (hcommits : w'.commits = w.commits) (htagged : w'.tagged = w.tagged)
    (hpending : w'.pending = w.pending) (hcuts : w'.cuts = w.cuts)
    (hnames : ∀ x ∈ w.commits, Names w'.tickets x → Names w.tickets x)
    (hmono : ∀ x, Names w.tickets x → Names w'.tickets x) : w'.Accounted := by
  have hreach : w'.reach = w.reach := by rw [reach, reach, hpending, hcommits, htagged]
  constructor
  case tagged => rw [htagged, hcommits]; exact h.tagged
  case upto   => rw [hcuts, hreach]; exact h.upto
  case once   =>
    rw [hcuts, hreach, hcommits]
    exact fun i x hx hi hn => h.once i x hx hi (hnames x (List.mem_of_getElem? hx) hn)
  case known  =>
    rw [hcuts]
    exact fun cut hcut x hn => hmono x (h.known cut hcut x hn)

theorem names_iff {tickets : List Ticket} {x : String} :
    Names tickets x ↔ ∃ id ∈ tickets.map (·.id.asStr), id ∈ ReleaseCandidates.refs x := by
  simp [Names]

theorem names_congr {l l' : List Ticket} (h : ∀ id, id ∈ l.map (·.id.asStr) ↔ id ∈ l'.map (·.id.asStr))
    (x : String) : Names l x ↔ Names l' x := by
  simp only [names_iff, h]

theorem mem_ids_sweep {confirmed : String → Bool} (id : String) :
    id ∈ (w.sweep confirmed).tickets.map (·.id.asStr) ↔ id ∈ w.tickets.map (·.id.asStr) := by
  -- What leaves the board is in the cold store.
  simp only [tickets, sweep, List.map_append, List.mem_append]
  generalize ((evictionCandidates w.project).take 50).filter confirmed = archived
  have hids : (evict archived w.project).tickets.map (·.id.asStr) =
      (w.project.tickets.map (·.id.asStr)).filter (· ∉ archived) := ticketIds_evict
  have hcold : id ∈ (w.project.tickets.filter (·.id.asStr ∈ archived)).map (·.id.asStr) ↔
      id ∈ w.project.tickets.map (·.id.asStr) ∧ id ∈ archived := by
    simp only [List.mem_map, List.mem_filter, decide_eq_true_eq]
    constructor
    case mp  => rintro ⟨t, ⟨ht, ha⟩, rfl⟩; exact ⟨⟨t, ht, rfl⟩, ha⟩
    case mpr => rintro ⟨⟨t, ht, rfl⟩, ha⟩; exact ⟨t, ⟨ht, ha⟩, rfl⟩
  rw [hids, hcold, List.mem_filter, decide_eq_true_eq]
  by_cases ha : id ∈ archived <;> simp [ha, or_comm]

theorem tryTransition_id {t : Ticket} {role : Role} {dst : Status} :
    (t.tryTransition role dst).id = t.id := by
  unfold Ticket.tryTransition Ticket.transitionTo
  cases t.checkTransition role dst
  case error => rfl
  case ok    => exact (t.enter_preserves dst).left

theorem names_modifyTicket {id : TicketId} {role : Role} {dst : Status} (x : String) :
    Names ({ w with project := w.project.modifyTicket id (·.tryTransition role dst) } : ReleaseLine).tickets x ↔
      Names w.tickets x := by
  have hids : (w.project.modifyTicket id (·.tryTransition role dst)).ticketIds = w.project.ticketIds :=
    ProjectState.modifyTicket_ticketIds fun _ => tryTransition_id
  simp only [ProjectState.ticketIds] at hids
  simp only [names_iff, tickets, List.map_append, hids]

theorem names_mint {t : Ticket} {x : String} (ht : t.id.asStr ∉ ReleaseCandidates.refs x) :
    Names ({ w with project := { w.project with tickets := w.project.tickets ++ [t] } } : ReleaseLine).tickets x ↔
      Names w.tickets x := by
  simp only [Names, tickets, List.mem_append, List.mem_singleton]
  constructor
  case mp =>
    rintro ⟨t', (ht' | rfl) | ht', hid⟩
    case inl.inl => exact ⟨t', .inl ht', hid⟩
    case inl.inr => exact absurd hid ht
    case inr     => exact ⟨t', .inr ht', hid⟩
  case mpr =>
    rintro ⟨t', ht' | ht', hid⟩
    case inl => exact ⟨t', .inl (.inl ht'), hid⟩
    case inr => exact ⟨t', .inr ht', hid⟩

-- A commit at the head of the branch: it is out of reach, or it names no ticket.
theorem Accounted.extend {x : String} (h : w.Accounted) (hcommits : w'.commits = w.commits ++ [x])
    (htickets : w'.tickets = w.tickets) (hcuts : w'.cuts = w.cuts) (htagged : w'.tagged ≤ w.commits.length + 1)
    (hr : w'.reach = w.reach ∨ w.reach = w.commits.length ∧ w'.reach = w.commits.length + 1 ∧ ¬Names w.tickets x) :
    w'.Accounted := by
  have hle : w.reach ≤ w.commits.length := by
    have := h.tagged
    unfold reach
    split <;> omega
  constructor
  case tagged => simpa [hcommits] using htagged
  case upto =>
    rw [hcuts]
    intro cut hcut
    have := h.upto cut hcut
    omega
  case known => rw [hcuts, htickets]; exact h.known
  case once =>
    rw [hcuts, hcommits, htickets]
    intro i y hy hi hn
    by_cases hlt : i < w.commits.length
    case pos =>
      rw [List.getElem?_append_left hlt] at hy
      exact h.once i y hy (by omega) hn
    case neg =>
      -- The new commit is within reach only if it names nothing.
      obtain ⟨-, -, hx⟩ := hr.resolve_left (by omega)
      have hi' : i = w.commits.length := by omega
      rw [hi', List.getElem?_concat_length] at hy
      cases hy
      exact absurd hn hx

theorem Accounted.commit {x : String} (h : w.Accounted) (hx : w.pending.isSome → ¬Names w.tickets x) :
    ({ w with commits := w.commits ++ [x] } : ReleaseLine).Accounted := by
  refine h.extend rfl rfl rfl (Nat.le_succ_of_le h.tagged) ?_
  by_cases hp : w.pending.isSome
  case pos => exact .inr ⟨by simp [reach, hp], by simp [reach, hp], hx hp⟩
  case neg => exact .inl (by simp [reach, hp])

theorem Accounted.land {x : String} (h : w.Accounted) (hp : w.pending.isSome) (hx : ¬Names w.tickets x) :
    (w.land x).Accounted := by
  refine h.extend rfl rfl rfl (Nat.le_refl _) (.inr ⟨by simp [reach, hp], ?_, hx⟩)
  simp [reach, ReleaseLine.land]

theorem tickets_recordCut {s : ProjectState} {io : CutIo} {pr : ReleasePr} :
    (s.recordCut io pr).tickets = s.tickets := by
  unfold ProjectState.recordCut
  split
  case isTrue  => rfl
  case isFalse => rw [ProjectState.postChatIn_tickets]

-- The release carries what the manifest of its subjects includes.
theorem included_of_maybeCutRelease {g : Bool} {io : CutIo} {s : ProjectState} {openPrs subjects : List String}
    {pr : ReleasePr} (h : maybeCutRelease days c g io s openPrs subjects = some pr) :
    pr.included = (releaseManifest c s subjects).1 := by
  unfold maybeCutRelease at h
  iterate 4
    split at h
    case isTrue => contradiction
  dsimp only at h
  split at h
  case h_2 => contradiction
  case h_1 =>
    split at h
    case isFalse => contradiction
    case isTrue =>
      obtain ⟨number, -, hpr⟩ := Option.map_eq_some_iff.mp h
      rw [← hpr]

theorem carries_included {io : CutIo} {pr : ReleasePr} {x : String}
    (ho : maybeCutRelease days c true io w.project w.pending.toList w.subjectsSinceLastTag = some pr)
    (hx : x ∈ w.commits.drop w.tagged)
    (hc : c.cutOnlyVerified → ReleaseCandidates.Included w.project x) :
    Text.trim x ∈ pr.included.map Text.trim := by
  have hm : x ∈ w.subjectsSinceLastTag := List.mem_reverse.mpr hx
  rw [included_of_maybeCutRelease ho, releaseManifest]
  split
  case isFalse => exact List.mem_map_of_mem hm
  case isTrue hv =>
    dsimp only
    rw [ReleaseCandidates.included_filterIncluded]
    refine List.mem_map.mpr ⟨Text.trim x, List.mem_map_of_mem (List.mem_filter.mpr ⟨hm, ?_⟩), Text.trim_trim x⟩
    exact decide_eq_true (hc hv)

theorem Accounted.record {io : CutIo} {pr : ReleasePr} (h : w.Accounted)
    (ho : maybeCutRelease days c true io w.project w.pending.toList w.subjectsSinceLastTag = some pr)
    (hc : w.Covered days c (.cut io)) : (w.record io pr).Accounted := by
  obtain ⟨hp, hcover⟩ := hc (Option.isSome_iff_exists.mpr ⟨pr, ho⟩)
  have htickets : (w.record io pr).tickets = w.tickets := by
    rw [tickets, ReleaseLine.record, tickets_recordCut, tickets]
  have hreach : w.reach = w.tagged := by simp [reach, hp]
  have hreach' : (w.record io pr).reach = w.commits.length := by simp [reach, ReleaseLine.record]
  constructor
  case tagged => exact h.tagged
  case upto =>
    rw [hreach']
    intro cut hcut
    rcases List.mem_append.mp hcut with hcut | hcut
    case inl =>
      have := h.upto cut hcut
      have := h.tagged
      omega
    case inr =>
      rw [List.mem_singleton.mp hcut]
  case known =>
    rw [htickets]
    intro cut hcut x hn
    rcases List.mem_append.mp hcut with hcut | hcut
    case inl => exact h.known cut hcut x hn
    case inr =>
      rw [List.mem_singleton.mp hcut] at hn
      exact hn
  case once =>
    rw [hreach', htickets]
    intro i x hx hi hn
    rw [ReleaseLine.record, List.countP_append, List.countP_singleton]
    by_cases hlt : i < w.tagged
    case pos =>
      -- An earlier release has it, and this one starts after it.
      rw [h.once i x hx (by omega) hn, if_neg]
      intro hcarries
      exact absurd (of_decide_eq_true hcarries).1 (by simpa using hlt)
    case neg =>
      have hold : w.cuts.countP (·.Carries i x) = 0 := by
        rw [List.countP_eq_zero]
        intro cut hcut hcarries
        have hupto := h.upto cut hcut
        have hi' := (of_decide_eq_true hcarries).2.1
        omega
      have hmem : x ∈ w.commits.drop w.tagged := by
        obtain ⟨k, rfl⟩ := Nat.exists_eq_add_of_le (Nat.le_of_not_lt hlt)
        rw [← List.getElem?_drop] at hx
        exact List.mem_of_getElem? hx
      rw [hold, if_pos]
      exact decide_eq_true ⟨Nat.le_of_not_lt hlt, hi, carries_included ho hmem fun hv => hcover hv x hmem hn⟩

-- Every covered event keeps the account.
theorem Accounted.step {e : ReleaseEvent} (h : w.Accounted) (hc : w.Covered days c e) :
    (w.step days c e).Accounted := by
  cases e
  case commit x => exact h.commit hc
  case mint t =>
    refine h.congr rfl rfl rfl rfl (fun x hx => (names_mint (hc x hx)).mp) fun x => ?_
    rintro ⟨t', ht', hid⟩
    refine ⟨t', ?_, hid⟩
    simp only [ReleaseLine.step, tickets, List.mem_append] at ht' ⊢
    tauto
  case move id role dst =>
    exact h.congr rfl rfl rfl rfl (fun x _ => (names_modifyTicket x).mp) fun x => (names_modifyTicket x).mpr
  case evict confirmed =>
    exact h.congr rfl rfl rfl rfl (fun x _ => (names_congr mem_ids_sweep x).mp)
      fun x => (names_congr mem_ids_sweep x).mpr
  case cut io =>
    rw [ReleaseLine.step]
    split
    case h_1 => exact h
    case h_2 pr ho => exact h.record ho hc
  case merge x =>
    rw [ReleaseLine.step]
    split
    case isTrue hp  => exact h.land hp (hc hp)
    case isFalse => exact h

-- In a run whose events are all covered, verified work is released exactly once. The run starts with an
-- empty branch.
theorem released_once {s : ProjectState} {es : List ReleaseEvent}
    (hm : Run.Meets (step days c) (Covered days c) { project := s } es) :
    (es.foldl (step days c) { project := s }).ReleasedOnce := by
  have hinit : ({ project := s } : ReleaseLine).Accounted := by
    constructor <;> simp [reach]
  exact (Run.inv (fun w e hc h => h.step hc) hm hinit).releasedOnce

-- A feature that is done when its commit is considered.
theorem released_once_done :
    let s : ProjectState := { tickets := [{ id := ⟨"CX-F001"⟩, kind := .feature, title := "read", status := .done }] }
    let c : ReleasesConfig := { enabled := true, cutEveryDays := 7 }
    let io : CutIo := { today := "2026-08-17", cargo := some {}, opened := some 1 }
    let es : List ReleaseEvent := [.commit "feat(CX-F001): read", .cut io, .merge "release: v0.1.0"]
    (es.foldl (step (fun _ _ => 7) c) { project := s }).ReleasedOnce := by
  intro s c io es
  exact released_once (by decide)

-- A feature that is done after a release has tagged its commit is in no release, and neither is a bug
-- that is verified but swept into the cold store before the cut.
theorem not_released_once :
    let feature (id : String) (status : Status) : Ticket := { id := ⟨id⟩, kind := .feature, title := id, status }
    let bug : Ticket := { id := ⟨"CX-B001"⟩, kind := .bug, title := "crash", status := .verified }
    let run tickets (es : List ReleaseEvent) := es.foldl
      (step (fun _ _ => 7) { enabled := true, cutEveryDays := 7 }) { project := { tickets } }
    let io (n : Nat) : CutIo := { today := "2026-08-17", cargo := some {}, opened := some n }
    ¬(run [feature "CX-F001" .inProgress, feature "CX-F002" .done]
      [.commit "feat(CX-F001): read", .commit "feat(CX-F002): write", .cut (io 1), .merge "release: v0.1.0",
        .move ⟨"CX-F001"⟩ .devFeature .done, .commit "fix(CX-F002): write", .cut (io 2)]).ReleasedOnce ∧
    ¬(run [bug, feature "CX-F002" .done]
      [.commit "fix(CX-B001): crash", .commit "feat(CX-F002): write", .evict fun _ => true,
        .cut (io 1)]).ReleasedOnce := by
  intro feature bug run io
  constructor
  case left =>
    intro h
    have hn := h 0 "feat(CX-F001): read" (by decide) (by decide)
    revert hn
    decide
  case right =>
    intro h
    have hn := h 0 "fix(CX-B001): crash" (by decide) (by decide)
    revert hn
    decide

end ReleaseLine
