import CoxAgent.Release.Manifest
import CoxAgent.State.Theorems.Integrity

namespace ProjectState

open Relation

-- The ticket lacks a finished prerequisite, or its goal holds work that is unfinished or lacks one.
def Held (s : ProjectState) (t : Ticket) : Prop :=
  s.isBlocked t ∨
  ∃ g ∈ s.goals, t.goalId = some g.id ∧
    ∃ m ∈ s.goalMembers g, ¬ isVerifiedComplete m ∨ s.isBlocked m

variable {s : ProjectState} {t : Ticket} {goal : Goal} {bundle : RcBundle}

section Bundles

variable (hu : (s.tickets.map (·.id)).Nodup)
include hu

theorem mem_blockedIds (ht : t ∈ s.tickets) : t.id ∈ s.blockedIds ↔ s.isBlocked t := by
  simp only [blockedIds, blockedCandidates, List.map_map, List.mem_map, List.mem_filter,
    Function.comp_apply]
  constructor
  · rintro ⟨t', ⟨ht', hb⟩, he⟩
    rwa [← List.inj_on_of_nodup_map hu ht' ht he]
  · intro hb
    exact ⟨t, ⟨ht, hb⟩, rfl⟩

-- A bundle lists the tickets that it is made from.
theorem dependencyOrder_perm {members : List Ticket} (hs : members.Sublist s.tickets) :
    (dependencyOrder members).Perm (members.map (·.id)) :=
  Topo.order_perm ((hs.map _).nodup hu)

theorem mem_dependencyOrder {members : List Ticket} (hs : members.Sublist s.tickets)
    (ht : t ∈ s.tickets) : t.id ∈ dependencyOrder members ↔ t ∈ members := by
  rw [(dependencyOrder_perm hu hs).mem_iff, List.mem_map]
  constructor
  · rintro ⟨t', ht', he⟩
    rwa [← List.inj_on_of_nodup_map hu (hs.subset ht') ht he]
  · intro hm
    exact ⟨t, hm, rfl⟩

omit hu in
theorem mem_goalMembers :
    t ∈ s.goalMembers goal ↔ t ∈ s.tickets ∧ t.status ≠ .rejected ∧ t.goalId = some goal.id := by
  simp [goalMembers]

omit hu in
theorem not_rejected (h : isVerifiedComplete t) : t.status ≠ .rejected := by
  intro hr
  simp [isVerifiedComplete, hr] at h

theorem goalBundle_eq_some : s.goalBundle goal = some bundle ↔
    s.goalMembers goal ≠ [] ∧
    (∀ m ∈ s.goalMembers goal, isVerifiedComplete m ∧ ¬ s.isBlocked m) ∧
    bundle = ⟨s!"{goal.id.asStr}: {goal.title}", dependencyOrder (s.goalMembers goal)⟩ := by
  have hall : (s.goalMembers goal).all (fun t => isVerifiedComplete t && t.id ∉ s.blockedIds) ↔
      ∀ m ∈ s.goalMembers goal, isVerifiedComplete m ∧ ¬ s.isBlocked m := by
    simp only [List.all_eq_true, Bool.and_eq_true, decide_eq_true_eq]
    refine forall₂_congr fun m hm => ?_
    rw [mem_blockedIds hu (mem_goalMembers.mp hm).left]
  simp only [goalBundle, List.isEmpty_iff]
  split
  case isTrue he  => simp [he]
  case isFalse he =>
    split
    case isTrue hc =>
      constructor
      · intro h
        exact ⟨he, hall.mp hc, (Option.some.inj h).symm⟩
      · rintro ⟨_, _, rfl⟩
        rfl
    case isFalse hc =>
      constructor
      · intro h
        cases h
      · rintro ⟨_, hm, _⟩
        exact absurd (hall.mpr hm) hc

theorem goalBundle_member (hb : s.goalBundle goal = some bundle) {id : TicketId}
    (hid : id ∈ bundle.members) : ∃ t ∈ s.goalMembers goal, t.id = id := by
  obtain ⟨_, _, rfl⟩ := (goalBundle_eq_some hu).mp hb
  exact List.mem_map.mp ((dependencyOrder_perm hu List.filter_sublist).mem_iff.mp hid)

theorem mem_unattributed : t ∈ s.unattributed ↔
    t ∈ s.tickets ∧ isVerifiedComplete t ∧ ¬ s.isBlocked t ∧
    ∀ g ∈ s.goals, t.goalId ≠ some g.id := by
  simp only [unattributed, List.mem_filter, Bool.and_eq_true, decide_eq_true_eq, Bool.not_eq_true',
    List.any_eq_false, and_assoc]
  refine and_congr_right fun ht => ?_
  rw [mem_blockedIds hu ht]

omit hu in
-- The bundles: the goals that ship, and the work of no goal.
theorem mem_bundles : bundle ∈ s.assemble.bundles ↔
    (∃ g ∈ s.goals, s.goalBundle g = some bundle) ∨
    s.unattributed ≠ [] ∧ bundle = ⟨"Unattributed", dependencyOrder s.unattributed⟩ := by
  simp only [assemble, List.mem_append, List.mem_filterMap, unattributedBundle, Option.mem_toList,
    List.isEmpty_iff]
  split
  case isTrue he  => simp [he]
  case isFalse he => simp [he, eq_comm]

-- What a bundle is made from.
theorem bundle_members (h : bundle ∈ s.assemble.bundles) :
    ∃ members, members.Sublist s.tickets ∧ bundle.members = dependencyOrder members ∧
      ∀ m ∈ members, isVerifiedComplete m ∧ ¬ s.isBlocked m := by
  rcases mem_bundles.mp h with ⟨g, _, hb⟩ | ⟨_, rfl⟩
  · obtain ⟨_, hm, rfl⟩ := (goalBundle_eq_some hu).mp hb
    exact ⟨s.goalMembers g, List.filter_sublist, rfl, hm⟩
  · refine ⟨s.unattributed, List.filter_sublist, rfl, fun m hm => ?_⟩
    have ⟨_, hv, hn, _⟩ := (mem_unattributed hu).mp hm
    exact ⟨hv, hn⟩

-- Exactly the finished tickets that nothing holds back ship.
theorem mem_rcMembers (ht : t ∈ s.tickets) :
    t.id ∈ s.rcMembers ↔ isVerifiedComplete t ∧ ¬ s.Held t := by
  rw [rcMembers, List.mem_flatMap]
  constructor
  case mp =>
    rintro ⟨bundle, hb, hm⟩
    rcases mem_bundles.mp hb with ⟨g, _, hg⟩ | ⟨_, rfl⟩
    · obtain ⟨_, hall, rfl⟩ := (goalBundle_eq_some hu).mp hg
      have hmem := (mem_dependencyOrder hu List.filter_sublist ht).mp hm
      have hgoal := (mem_goalMembers.mp hmem).right.right
      refine ⟨(hall t hmem).left, ?_⟩
      rintro (hblock | ⟨g', _, hg', m, hm', hbad⟩)
      · exact (hall t hmem).right hblock
      · have hid : g'.id = g.id := Option.some.inj (hg'.symm.trans hgoal)
        have hm'' : m ∈ s.goalMembers g := by
          rw [mem_goalMembers] at hm' ⊢
          exact hid ▸ hm'
        rcases hbad with hv | hblock
        · exact hv (hall m hm'').left
        · exact (hall m hm'').right hblock
    · have hmem := (mem_dependencyOrder hu List.filter_sublist ht).mp hm
      have ⟨_, hv, hn, hg⟩ := (mem_unattributed hu).mp hmem
      refine ⟨hv, ?_⟩
      rintro (hblock | ⟨g, hgm, hgoal, _⟩)
      · exact hn hblock
      · exact hg g hgm hgoal
  case mpr =>
    intro ⟨hv, hh⟩
    have hn : ¬ s.isBlocked t := fun hb => hh (.inl hb)
    by_cases hg : ∃ g ∈ s.goals, t.goalId = some g.id
    case pos =>
      obtain ⟨g, hgm, hgoal⟩ := hg
      have hmem : t ∈ s.goalMembers g := mem_goalMembers.mpr ⟨ht, not_rejected hv, hgoal⟩
      have hall : ∀ m ∈ s.goalMembers g, isVerifiedComplete m ∧ ¬ s.isBlocked m := by
        intro m hm
        by_contra hbad
        refine hh (.inr ⟨g, hgm, hgoal, m, hm, ?_⟩)
        tauto
      have hb := (goalBundle_eq_some hu).mpr ⟨List.ne_nil_of_mem hmem, hall, rfl⟩
      exact ⟨_, mem_bundles.mpr (.inl ⟨g, hgm, hb⟩),
        (mem_dependencyOrder hu List.filter_sublist ht).mpr hmem⟩
    case neg =>
      have hmem : t ∈ s.unattributed :=
        (mem_unattributed hu).mpr ⟨ht, hv, hn, fun g hgm he => hg ⟨g, hgm, he⟩⟩
      exact ⟨_, mem_bundles.mpr (.inr ⟨List.ne_nil_of_mem hmem, rfl⟩),
        (mem_dependencyOrder hu List.filter_sublist ht).mpr hmem⟩

theorem rcMembers_ticket {id : TicketId} (h : id ∈ s.rcMembers) :
    ∃ t ∈ s.tickets, t.id = id ∧ isVerifiedComplete t := by
  obtain ⟨bundle, hb, hm⟩ := List.mem_flatMap.mp h
  obtain ⟨members, hs, he, hall⟩ := bundle_members hu hb
  rw [he, (dependencyOrder_perm hu hs).mem_iff] at hm
  obtain ⟨t, ht, rfl⟩ := List.mem_map.mp hm
  exact ⟨t, hs.subset ht, rfl, (hall t ht).left⟩

-- A ticket has one goal, so the bundles share nothing.
theorem rcMembers_nodup (hg : (s.goals.map (·.id)).Nodup) : s.rcMembers.Nodup := by
  have goal_eq {g g' : Goal} {b b' : RcBundle} (hb : s.goalBundle g = some b)
      (hb' : s.goalBundle g' = some b') {id : TicketId} (hid : id ∈ b.members)
      (hid' : id ∈ b'.members) : g.id = g'.id := by
    obtain ⟨t, ht, rfl⟩ := goalBundle_member hu hb hid
    obtain ⟨t', ht', he⟩ := goalBundle_member hu hb' hid'
    have ⟨htm, _, htg⟩ := mem_goalMembers.mp ht
    have ⟨htm', _, htg'⟩ := mem_goalMembers.mp ht'
    rw [List.inj_on_of_nodup_map hu htm' htm he] at htg'
    exact Option.some.inj (htg.symm.trans htg')
  refine List.nodup_flatMap.mpr ⟨fun b hb => ?_, ?_⟩
  · obtain ⟨members, hs, he, _⟩ := bundle_members hu hb
    rw [he]
    exact (dependencyOrder_perm hu hs).nodup_iff.mpr ((hs.map _).nodup hu)
  · refine List.pairwise_append.mpr ⟨?_, ?_, ?_⟩
    · refine List.pairwise_filterMap.mpr ((List.pairwise_map.mp hg).imp ?_)
      intro g g' hne b hb b' hb' id hid hid'
      exact hne (goal_eq hb hb' hid hid')
    · cases s.unattributedBundle <;> simp
    · intro b hb b' hb' id hid hid'
      obtain ⟨g, hgm, hgb⟩ := List.mem_filterMap.mp hb
      simp only [unattributedBundle, Option.mem_toList] at hb'
      split at hb' <;> cases hb'
      obtain ⟨t, ht, rfl⟩ := goalBundle_member hu hgb hid
      have ⟨htm, _, htg⟩ := mem_goalMembers.mp ht
      have ht' := (mem_dependencyOrder hu List.filter_sublist htm).mp hid'
      exact ((mem_unattributed hu).mp ht').right.right.right g hgm htg

-- Without a cycle every bundle lists prerequisites first.
theorem bundle_ordered (hc : ∀ id, ¬ TransGen s.DependsOn id id) (hb : bundle ∈ s.assemble.bundles) :
    ∀ t ∈ s.tickets, ∀ pre post, bundle.members = pre ++ t.id :: post →
      ∀ dep ∈ t.dependsOn, dep ∈ bundle.members → dep ∈ pre := by
  intro t ht pre post he dep hd hm
  obtain ⟨members, hs, hbm, _⟩ := bundle_members hu hb
  have hw : WellFounded (Dfs.Dep s.dependencies) := by
    refine (Dfs.acyclic_iff_wellFounded fun _ => dependencies_absent).mp fun id hid => ?_
    exact hc id (onCycle_of_dep hid)
  have hdeps : ∀ t ∈ s.tickets, s.dependencies t.id = t.dependsOn := fun t ht => by
    simp [dependencies, ticket_eq_of_nodup hu ht]
  have ho := Topo.order_ordered hw (fun t ht => hdeps t (hs.subset ht)) ((hs.map _).nodup hu)
  rw [hbm, (dependencyOrder_perm hu hs).mem_iff] at hm
  exact ho pre t.id post (hbm.symm.trans he) dep (hdeps t ht ▸ hd) hm

theorem resolves_iff {dep : TicketId} :
    s.resolves dep ↔ ∃ d ∈ s.tickets, d.id = dep ∧ isVerifiedComplete d := by
  constructor
  case mp =>
    intro h
    obtain ⟨d, hd, hv⟩ := Option.any_eq_true _ _ |>.mp h
    obtain ⟨hmem, hid⟩ := ProjectState.ticket_mem hd
    exact ⟨d, hmem, hid, hv⟩
  case mpr =>
    rintro ⟨d, hd, rfl, hv⟩
    simp [resolves, ticket_eq_of_nodup hu hd, hv]

-- The prerequisites of what ships are finished. They ship unless something holds them back.
theorem rcMembers_prerequisite (ht : t ∈ s.tickets) (hm : t.id ∈ s.rcMembers) {dep : TicketId}
    (hd : dep ∈ t.dependsOn) :
    ∃ d ∈ s.tickets, d.id = dep ∧ isVerifiedComplete d ∧ (dep ∈ s.rcMembers ↔ ¬ s.Held d) := by
  have ⟨hv, hh⟩ := (mem_rcMembers hu ht).mp hm
  have hn : ¬ s.isBlocked t := fun hb => hh (.inl hb)
  have hr : s.resolves dep := by
    by_contra hr
    apply hn
    simp only [isBlocked, hv, Bool.true_and, List.any_eq_true]
    exact ⟨dep, hd, by simpa using hr⟩
  obtain ⟨d, hdm, rfl, hdv⟩ := (resolves_iff hu).mp hr
  exact ⟨d, hdm, rfl, hdv, by simp [mem_rcMembers hu hdm, hdv]⟩

end Bundles

-- A release candidate is duplicate free, holds finished work only, takes a goal as a whole or not at
-- all, and lists prerequisites first. A prerequisite that is missing from it is finished too, but
-- held back on its own account.
theorem rc_self_contained (hu : (s.tickets.map (·.id)).Nodup) (hg : (s.goals.map (·.id)).Nodup)
    (hc : ∀ id, ¬ TransGen s.DependsOn id id) :
    s.rcMembers.Nodup ∧
    (∀ id ∈ s.rcMembers, ∃ t ∈ s.tickets, t.id = id ∧ isVerifiedComplete t) ∧
    (∀ goal ∈ s.goals,
      (∀ t ∈ s.goalMembers goal, t.id ∈ s.rcMembers) ∨
      (∀ t ∈ s.goalMembers goal, t.id ∉ s.rcMembers)) ∧
    (∀ bundle ∈ s.assemble.bundles, ∀ t ∈ s.tickets, ∀ pre post,
      bundle.members = pre ++ t.id :: post →
      ∀ dep ∈ t.dependsOn, dep ∈ bundle.members → dep ∈ pre) ∧
    ∀ t ∈ s.tickets, t.id ∈ s.rcMembers → ∀ dep ∈ t.dependsOn,
      ∃ d ∈ s.tickets, d.id = dep ∧ isVerifiedComplete d ∧ (dep ∈ s.rcMembers ↔ ¬ s.Held d) := by
  refine ⟨rcMembers_nodup hu hg, fun id => rcMembers_ticket hu, fun goal hgm => ?_,
    fun bundle hb => bundle_ordered hu hc hb, fun t ht hm dep => rcMembers_prerequisite hu ht hm⟩
  by_cases hall : ∀ m ∈ s.goalMembers goal, isVerifiedComplete m ∧ ¬ s.isBlocked m
  case pos =>
    refine .inl fun t hm => ?_
    have ⟨ht, _, htg⟩ := mem_goalMembers.mp hm
    refine (mem_rcMembers hu ht).mpr ⟨(hall t hm).left, ?_⟩
    rintro (hb | ⟨g, _, hgoal, m, hm', hbad⟩)
    · exact (hall t hm).right hb
    · have hid : g.id = goal.id := Option.some.inj (hgoal.symm.trans htg)
      have hm'' : m ∈ s.goalMembers goal := by
        rw [mem_goalMembers] at hm' ⊢
        exact hid ▸ hm'
      have := hall m hm''
      tauto
  case neg =>
    refine .inr fun t hm hr => ?_
    have ⟨ht, _, htg⟩ := mem_goalMembers.mp hm
    push Not at hall
    obtain ⟨m, hm', hbad⟩ := hall
    refine ((mem_rcMembers hu ht).mp hr).right (.inr ⟨goal, hgm, htg, m, hm', ?_⟩)
    tauto

-- The login needs the tokens, which are done, but their goal still has work to do.
def tokensHeld : ProjectState where
  goals   := [⟨⟨"G1"⟩, "sign in", .active⟩, ⟨⟨"G2"⟩, "sessions", .active⟩]
  tickets := [
    { id := ⟨"FEAT-001"⟩, kind := .feature, title := "login", status := .done,
      dependsOn := [⟨"FEAT-002"⟩], goalId := some ⟨"G1"⟩ },
    { id := ⟨"FEAT-002"⟩, kind := .feature, title := "tokens", status := .done,
      goalId := some ⟨"G2"⟩ },
    { id := ⟨"FEAT-003"⟩, kind := .feature, title := "refresh", status := .pending,
      goalId := some ⟨"G2"⟩ }]

theorem tokensHeld_acyclic : ∀ id, ¬ TransGen tokensHeld.DependsOn id id :=
  (valid_iff.mp (validate_ok_iff.mp (by decide))).right.right

theorem rc_not_closed :
    (tokensHeld.tickets.map (·.id)).Nodup ∧ (tokensHeld.goals.map (·.id)).Nodup ∧
    (∀ id, ¬ TransGen tokensHeld.DependsOn id id) ∧
    ∃ t ∈ tokensHeld.tickets, t.id ∈ tokensHeld.rcMembers ∧
      ∃ dep ∈ t.dependsOn, dep ∉ tokensHeld.rcMembers :=
  ⟨by decide, by decide, tokensHeld_acyclic, by decide⟩

theorem rc_self_contained_tokensHeld :
    tokensHeld.rcMembers = [⟨"FEAT-001"⟩] ∧ tokensHeld.rcMembers.Nodup ∧
    ∃ d ∈ tokensHeld.tickets, d.id = ⟨"FEAT-002"⟩ ∧ isVerifiedComplete d ∧
      (⟨"FEAT-002"⟩ ∈ tokensHeld.rcMembers ↔ ¬ tokensHeld.Held d) := by
  have h := rc_self_contained (s := tokensHeld) (by decide) (by decide) tokensHeld_acyclic
  exact ⟨by decide, h.left, h.right.right.right.right _ List.mem_cons_self (by decide) _ (by decide)⟩

end ProjectState
