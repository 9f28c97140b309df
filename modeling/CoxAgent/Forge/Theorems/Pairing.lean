import CoxAgent.Backlog.Theorems.Recognised
import CoxAgent.Lib.Lists

-- When two pull requests are taken for the same ticket.

open Scan

-- An id as the policy reads it.
def IdWord (w : List Char) : Prop :=
  ∃ letters code, w = letters ++ '-' :: code ∧ (∀ c ∈ letters, c.isUpper) ∧ 2 ≤ letters.length ∧
    (∀ c ∈ code, c.isAlphanum) ∧ code.any (·.isDigit)

-- Nothing that reads as an id starts before the word, and it does not go on behind it.
def First (w title : List Char) : Prop :=
  ∃ p q, title = p ++ (w ++ q) ∧ Ends fieldChars q ∧
    ∀ p' w' q', title = p' ++ (w' ++ q') → IdWord w' → p.length ≤ p'.length

-- An id that was minted for a project with this alias.
def Minted («alias» : String) (id : TicketId) : Prop :=
  ∃ s type, s.alias = «alias» ∧ mintId type s = .ok id

-- The title mentions this ticket of the project and no other.
structure Mentions (s : ProjectState) (title : String) (id : TicketId) : Prop where
  ticket : id ∈ s.tickets.map (·.id)
  named  : id.asStr.toList <:+: title.toList
  only   : ∀ t ∈ s.tickets, t.id.asStr.toList <:+: title.toList → t.id = id

-- The alias is one that the policy knows, and the id comes first in the title.
structure Carries (s : ProjectState) (title : String) (id : TicketId) : Prop where
  upper : s.alias.toList.all (·.isUpper)
  long  : 2 ≤ s.alias.length
  first : First id.asStr.toList title.toList

-- Both titles start with one word that reads as an id and is none of a ticket of the project.
def Shadowed (s : ProjectState) (t u : String) : Prop :=
  ∃ w, IdWord w ∧ (∀ x ∈ s.tickets, x.id.asStr.toList ≠ w) ∧ First w t.toList ∧ First w u.toList

-- What two titles have to say so that the policy tells the tickets apart.
def ToldApart (s : ProjectState) (t u : String) (a b : TicketId) : Prop :=
  if a = b then
    Carries s t a ∧ Carries s u b ∨ Shadowed s t u
  else
    ¬Shadowed s t u

section Scanner

variable {cs w : List Char} {title r : String}

theorem ends_dropWhile : Ends fieldChars (cs.dropWhile (·.isAlphanum)) := by
  intro c hc
  have hn := List.head?_dropWhile_not (·.isAlphanum) cs
  rw [Option.mem_def.mp hc] at hn
  exact hn

-- At one place there is the longest word that reads as an id.
theorem ticketIdAt_eq_some :
    ticketIdAt cs = some r ↔ IdWord r.toList ∧ ∃ q, cs = r.toList ++ q ∧ Ends fieldChars q := by
  constructor
  case mp =>
    intro h
    simp only [ticketIdAt] at h
    split at h
    case isTrue => contradiction
    case isFalse hlen =>
      split at h
      case h_2 => contradiction
      case h_1 tail htail =>
        split at h
        case isFalse => contradiction
        case isTrue hd =>
          cases h
          have hcs := List.prefix_iff_eq_append.mp (List.takeWhile_prefix (l := cs) (·.isUpper))
          rw [htail] at hcs
          rw [String.toList_ofList]
          refine ⟨⟨_, _, rfl, fun c => List.mem_takeWhile_imp, by omega, fun c => List.mem_takeWhile_imp, hd⟩,
            tail.dropWhile (·.isAlphanum), ?_, ends_dropWhile⟩
          rw [List.append_assoc, List.cons_append, List.takeWhile_append_dropWhile, hcs]
  case mpr =>
    rintro ⟨⟨letters, code, hr, hu, hlen, hc, hd⟩, q, hcs, hq⟩
    have h := ticketIdAt_id hu hlen hc hd hq
    rwa [← hr, String.ofList_toList, ← List.cons_append, ← List.append_assoc, ← hr, ← hcs] at h

-- A word that reads as an id is found, perhaps as a longer one.
theorem ticketIdAt_ne_none : ticketIdAt cs ≠ none ↔ ∃ w q, cs = w ++ q ∧ IdWord w := by
  constructor
  case mp =>
    intro h
    have ⟨r, hr⟩ := Option.ne_none_iff_exists'.mp h
    have ⟨hw, q, hcs, _⟩ := ticketIdAt_eq_some.mp hr
    exact ⟨_, q, hcs, hw⟩
  case mpr =>
    rintro ⟨w, q, hcs, letters, code, hw, hu, hlen, hc, hd⟩
    -- The letters and digits behind the word belong to the id that is found.
    have hc' : ∀ c ∈ code ++ q.takeWhile (·.isAlphanum), c.isAlphanum :=
      List.forall_mem_append.mpr ⟨hc, fun c => List.mem_takeWhile_imp⟩
    have hd' : (code ++ q.takeWhile (·.isAlphanum)).any (·.isDigit) := by
      rw [List.any_append, hd, Bool.true_or]
    have h := ticketIdAt_id hu hlen hc' hd' (@ends_dropWhile q)
    rw [List.append_assoc, List.takeWhile_append_dropWhile] at h
    rw [hcs, hw, List.append_assoc, List.cons_append, h]
    exact Option.some_ne_none _

theorem ticketIdIn_eq_some :
    ticketIdIn title = some r ↔ IdWord r.toList ∧ First r.toList title.toList := by
  rw [ticketIdIn, Lists.findSome?_tails_eq_some (by decide)]
  constructor
  case mp =>
    rintro ⟨p, q, hl, hq, hf⟩
    obtain ⟨hw, l, hcs, hends⟩ := ticketIdAt_eq_some.mp hq
    refine ⟨hw, p, l, by rw [hl, hcs], hends, fun p' w' q' ht hw' => ?_⟩
    exact hf p' (w' ++ q') ht (ticketIdAt_ne_none.mpr ⟨w', q', rfl, hw'⟩)
  case mpr =>
    rintro ⟨hw, p, q, hl, hends, hf⟩
    refine ⟨p, r.toList ++ q, hl, ticketIdAt_eq_some.mpr ⟨hw, q, rfl, hends⟩, fun p' q' ht hq' => ?_⟩
    obtain ⟨w', l, hcs, hw'⟩ := ticketIdAt_ne_none.mp hq'
    exact hf p' w' l (by rw [ht, hcs]) hw'

end Scanner

-- The two open pull requests are paired if one word comes first in both titles.
theorem competingPr_eq_some {n m : Nat} {t u : String} {titles : List (Nat × String)} (hn : n ≠ m)
    (ho : titles.Perm [(n, t), (m, u)]) :
    competingPr n t titles = some m ↔ ∃ w, IdWord w ∧ First w t.toList ∧ First w u.toList := by
  have hm (o : Nat × String) : o ∈ titles ↔ o = (n, t) ∨ o = (m, u) := by simp [ho.mem_iff]
  constructor
  case mp =>
    intro h
    simp only [competingPr, Option.bind_eq_bind, Option.bind_eq_some_iff] at h
    obtain ⟨r, hr, o, hf, -⟩ := h
    have hp := List.find?_some hf
    simp only [decide_eq_true_eq] at hp
    have hou : o = (m, u) := ((hm o).mp (List.mem_of_find?_eq_some hf)).resolve_left fun he =>
      hp.1 (congrArg Prod.fst he)
    have ⟨hw, ht⟩ := ticketIdIn_eq_some.mp hr
    have ⟨_, hu⟩ := ticketIdIn_eq_some.mp (hou ▸ hp.2)
    exact ⟨_, hw, ht, hu⟩
  case mpr =>
    rintro ⟨w, hw, ht, hu⟩
    rw [← String.toList_ofList (l := w)] at hw ht hu
    have ht' := ticketIdIn_eq_some.mpr ⟨hw, ht⟩
    have hu' := ticketIdIn_eq_some.mpr ⟨hw, hu⟩
    have hf : titles.find? (fun o => o.1 ≠ n ∧ ticketIdIn o.2 = some (.ofList w)) = some (m, u) := by
      have hsome : (titles.find? fun o => o.1 ≠ n ∧ ticketIdIn o.2 = some (.ofList w)).isSome := by
        rw [List.find?_isSome]
        exact ⟨(m, u), (hm _).mpr (.inr rfl), by simp [hu', hn.symm]⟩
      have ⟨o, ho⟩ := Option.isSome_iff_exists.mp hsome
      have hp := List.find?_some ho
      simp only [decide_eq_true_eq] at hp
      rw [ho, ((hm o).mp (List.mem_of_find?_eq_some ho)).resolve_left fun he =>
        hp.1 (congrArg Prod.fst he)]
    simp only [competingPr, ht', Option.bind_eq_bind, Option.bind_some, hf, Option.pure_def]

section Tickets

variable {s : ProjectState} {t u : String} {a b id : TicketId} {w l : List Char}

theorem First.infix (h : First w l) : w <:+: l := by
  have ⟨p, q, hl, _⟩ := h
  exact ⟨p, q, by rw [hl, List.append_assoc]⟩

-- The ids of a project read as ids if its alias is two capitals or more.
theorem Minted.idWord_iff (h : Minted s.alias id) :
    IdWord id.asStr.toList ↔ s.alias.toList.all (·.isUpper) ∧ 2 ≤ s.alias.length := by
  have ⟨s', type, ha, hm⟩ := h
  have hid := mintId_toList hm
  rw [ha] at hid
  constructor
  case mp =>
    rintro ⟨letters, code, hw, hu, hlen, hc, -⟩
    have hdash : '-' ∉ code := fun hd => absurd (hc _ hd) (by decide)
    split at hid
    case isTrue =>
      have hmem : '-' ∈ letters ++ '-' :: code := List.mem_append_right _ List.mem_cons_self
      rw [← hw, hid] at hmem
      exact absurd hmem dash_not_mem_code
    case isFalse =>
      have ⟨hl, _⟩ := Text.append_sep_inj dash_not_mem_code hdash (hid.symm.trans hw)
      exact ⟨List.all_eq_true.mpr (hl ▸ hu), by rwa [← String.length_toList, hl]⟩
  case mpr =>
    rintro ⟨hu, hlen⟩
    have hne : s.alias ≠ "" := fun he => absurd hlen (by simp [he])
    rw [if_neg hne] at hid
    exact ⟨_, _, hid, List.all_eq_true.mp hu, hlen, fun c hc => isAlphanum_of_upperOrDigit (code_upperOrDigit c hc),
      any_isDigit zeroPad_mem_isDigit Text.zeroPad_ne_nil⟩

-- A ticket of the project whose id comes first in a title is the one that the title mentions.
theorem Mentions.eq (h : Mentions s t a) {x : Ticket} (hx : x ∈ s.tickets)
    (hf : First x.id.asStr.toList t.toList) : x.id = a :=
  h.only x hx hf.infix

-- For two different tickets it is a word of neither.
theorem paired_iff_of_ne (ht : Mentions s t a) (hu : Mentions s u b) (hab : a ≠ b) :
    (∃ w, IdWord w ∧ First w t.toList ∧ First w u.toList) ↔ Shadowed s t u := by
  constructor
  case mpr => exact fun ⟨w, hw, _, hf⟩ => ⟨w, hw, hf⟩
  case mp =>
    rintro ⟨w, hw, hft, hfu⟩
    refine ⟨w, hw, fun x hx he => hab ?_, hft, hfu⟩
    exact (ht.eq hx (he ▸ hft)).symm.trans (hu.eq hx (he ▸ hfu))

theorem paired_iff_of_eq (hm : ∀ x ∈ s.tickets, Minted s.alias x.id) (ht : Mentions s t a) :
    (∃ w, IdWord w ∧ First w t.toList ∧ First w u.toList) ↔
      Carries s t a ∧ Carries s u a ∨ Shadowed s t u := by
  have ⟨y, hy, hya⟩ := List.mem_map.mp ht.ticket
  have hma : Minted s.alias a := hya ▸ hm y hy
  constructor
  case mp =>
    rintro ⟨w, hw, hft, hfu⟩
    by_cases hx : ∃ x ∈ s.tickets, x.id.asStr.toList = w
    case pos =>
      obtain ⟨x, hx, rfl⟩ := hx
      have hxa := ht.eq hx hft
      rw [hxa] at hw hft hfu
      have ⟨hup, hlen⟩ := hma.idWord_iff.mp hw
      exact .inl ⟨⟨hup, hlen, hft⟩, ⟨hup, hlen, hfu⟩⟩
    case neg => exact .inr ⟨w, hw, fun x hm he => hx ⟨x, hm, he⟩, hft, hfu⟩
  case mpr =>
    rintro (⟨hct, hcu⟩ | ⟨w, hw, _, hf⟩)
    case inl => exact ⟨_, hma.idWord_iff.mpr ⟨hct.upper, hct.long⟩, hct.first, hcu.first⟩
    case inr => exact ⟨w, hw, hf⟩

theorem Carries.of_ticketIdIn (hm : Minted s.alias id) (h : ticketIdIn t = some id.asStr) : Carries s t id := by
  have ⟨hw, hf⟩ := ticketIdIn_eq_some.mp h
  have ⟨hup, hlen⟩ := hm.idWord_iff.mp hw
  exact ⟨hup, hlen, hf⟩

-- In a title that starts with its ticket the id comes first, whatever follows.
theorem Carries.conventional {kind text : String} (hm : Minted s.alias id) (hk : '-' ∉ kind.toList)
    (hup : s.alias.toList.all (·.isUpper)) (hlen : 2 ≤ s.alias.length) :
    Carries s (conventional kind id text) id := by
  have ⟨s', type, ha, hid⟩ := hm
  rw [← ha] at hup hlen
  exact .of_ticketIdIn hm (ticketIdIn_conventional hk hid (List.all_eq_true.mp hup) hlen)

theorem distinct_of_carries (hm : ∀ x ∈ s.tickets, Minted s.alias x.id) (ht : Mentions s t a)
    (hct : Carries s t a) (hcu : Carries s u b) : ToldApart s t u a b := by
  rw [ToldApart]
  split
  case isTrue  => exact .inl ⟨hct, hcu⟩
  case isFalse =>
    rintro ⟨w, hw, hforeign, hft, -⟩
    have ⟨x, hx, hxa⟩ := List.mem_map.mp ht.ticket
    have ha : IdWord a.asStr.toList := (hxa ▸ hm x hx).idWord_iff.mpr ⟨hct.upper, hct.long⟩
    rw [← String.toList_ofList (l := w)] at hw hft
    have he := (ticketIdIn_eq_some.mpr ⟨hw, hft⟩).symm.trans (ticketIdIn_eq_some.mpr ⟨ha, hct.first⟩)
    apply hforeign x hx
    rw [hxa, ← Option.some.inj he, String.toList_ofList]

-- Two pull requests are paired if and only if they are for one ticket, as long as the titles are distinct. The
-- scanner does not know which words are ids of the project.
theorem PullRequest.competing_iff (hm : ∀ x ∈ s.tickets, Minted s.alias x.id) (ht : Mentions s t a)
    (hu : Mentions s u b) {n m : Nat} (hn : n ≠ m) {titles : List (Nat × String)}
    (ho : titles.Perm [(n, t), (m, u)]) :
    (competingPr n t titles = some m ↔ a = b) ↔ ToldApart s t u a b := by
  rw [competingPr_eq_some hn ho, ToldApart]
  split
  case isTrue hab =>
    subst hab
    rw [paired_iff_of_eq hm ht, iff_true_right rfl]
  case isFalse hab => rw [paired_iff_of_ne ht hu hab, iff_false_right hab]

-- A board with two bugs.
def PullRequest.bugs : ProjectState where
  «alias» := "COX"
  tickets :=
    [{ id := ⟨"COX-B001"⟩, kind := .bug, title := "Paths", status := .inProgress },
      { id := ⟨"COX-B002"⟩, kind := .bug, title := "Names", status := .inProgress }]

theorem PullRequest.minted_bugs : ∀ x ∈ bugs.tickets, Minted bugs.alias x.id := by
  intro x hx
  cases List.mem_pair.mp hx
  case inl he => exact ⟨{ «alias» := "COX" }, .bug, rfl, he ▸ by decide⟩
  case inr he => exact ⟨{ bugs with tickets := bugs.tickets.take 1 }, .bug, rfl, he ▸ by decide⟩

theorem PullRequest.competing_bugs :
    competingPr 17 (conventional "fix" ⟨"COX-B001"⟩ "UTF-8 paths")
        [(17, conventional "fix" ⟨"COX-B001"⟩ "UTF-8 paths"), (18, conventional "fix" ⟨"COX-B002"⟩ "UTF-8 names")] =
      some 18 ↔ (⟨"COX-B001"⟩ : TicketId) = ⟨"COX-B002"⟩ := by
  have hm := List.forall_mem_cons.mp minted_bugs
  have ht : Mentions bugs (conventional "fix" ⟨"COX-B001"⟩ "UTF-8 paths") ⟨"COX-B001"⟩ :=
    ⟨by decide, by decide, by decide⟩
  have hu : Mentions bugs (conventional "fix" ⟨"COX-B002"⟩ "UTF-8 names") ⟨"COX-B002"⟩ :=
    ⟨by decide, by decide, by decide⟩
  refine (competing_iff minted_bugs ht hu (by decide) (.refl _)).mpr (distinct_of_carries minted_bugs ht ?_ ?_)
  case refine_1 => exact .conventional hm.1 (by decide) (by decide) (by decide)
  case refine_2 => exact .conventional (List.forall_mem_cons.mp hm.2).1 (by decide) (by decide) (by decide)

-- A technical word before the id is taken for the ticket of both.
theorem PullRequest.not_competing_utf8 :
    ¬∀ (s : ProjectState) (t u : String) (a b : TicketId) (n m : Nat) (titles : List (Nat × String)),
      (∀ x ∈ s.tickets, Minted s.alias x.id) → Mentions s t a → Mentions s u b → n ≠ m →
        titles.Perm [(n, t), (m, u)] → (competingPr n t titles = some m ↔ a = b) := by
  intro h
  have hp := h bugs "UTF-8 paths: COX-B001" "UTF-8 names: COX-B002" ⟨"COX-B001"⟩ ⟨"COX-B002"⟩ 17 18 _ minted_bugs
    ⟨by decide, by decide, by decide⟩ ⟨by decide, by decide, by decide⟩ (by decide) (.refl _)
  exact absurd (hp.mp (by decide)) (by decide)

end Tickets
