import CoxAgent.Backlog.Theorems.RadarPasses

namespace Radar

variable {E E' : List Entry} {allowed : List String} {x y h m : Entry}

section Sound

variable {S : List TicketSnapshot} {norms : List String} {a b : Entry} {p : DuplicatePair}

-- Every pair that is reported spans two projects, and nothing excuses it.
def Sound (S : List TicketSnapshot) (allowed : List String) (out : List DuplicatePair) : Prop :=
  ∀ p ∈ out, ∀ d ∈ p.dups, ∃ x ∈ S, ∃ y ∈ S, ∃ score, p.home = radarHome x ∧ d = radarDup score y ∧
    x.projectId ≠ y.projectId ∧ sameTagExempt x y score = false ∧ allowlisted allowed x y = false

-- No two tickets of one project have nearly the same title, at least if the first of them is not hidden.
def CrossProject (allowed : List String) (E : List Entry) : Prop :=
  ∀ a b, Before E a b → ¬Collapsed allowed E a → Similar allowed a b → a.snap.projectId ≠ b.snap.projectId

theorem sound_iff (hd : (S.map key).Nodup) (hn : HashOrder S norms) :
    Sound S allowed (findCrossProjectDuplicates norms S allowed) ↔ CrossProject allowed (entries S) := by
  constructor
  case mp =>
    intro hs a b hab hc hsim
    have ⟨x, _, y, _, _, hx, hy, hp, _⟩ := hs _ ((mem_find hd hn).mpr (.inr ⟨a, b, hab, hc, hsim, rfl⟩)) _
      (List.mem_singleton_self _)
    have hx : (sides a b).1.snap.projectId = x.projectId := congrArg RadarTicket.projectId hx
    have hy : (sides a b).2.snap.projectId = y.projectId := congrArg RadarTicket.projectId hy
    rw [← hx, ← hy] at hp
    obtain h | h := @sides_eq a b
    case inl =>
      rw [h] at hp
      exact hp
    case inr =>
      rw [h] at hp
      exact hp.symm
  case mpr =>
    intro hc p hp d hdup
    obtain ⟨h, r, hh, hr, rfl⟩ | ⟨a, b, hab, hca, hsim, rfl⟩ := (mem_find hd hn).mp hp
    case inl =>
      have hspec := collapseTitle_spec (nodup_entries hd) hh hr
      have ⟨m, hm, ht, hdm⟩ := (hspec.dups d).mp hdup
      exact ⟨h.snap, (mem_entries.mp hh.mem).1, m.snap, (mem_entries.mp hm).1, 1, hspec.home, hdm, ht.project,
        ht.exempt, ht.allowed⟩
    case inr =>
      have hd' : d = radarDup (score a b) (sides a b).2.snap := List.mem_singleton.mp hdup
      have ha := (mem_entries.mp hab.mem.1).1
      have hb := (mem_entries.mp hab.mem.2).1
      have hproj := hc a b hab hca hsim
      obtain h | h := @sides_eq a b
      case inl =>
        exact ⟨a.snap, ha, b.snap, hb, score a b, by rw [pairOf, h], by rw [hd', h], hproj, hsim.exempt, hsim.allowed⟩
      case inr =>
        exact ⟨b.snap, hb, a.snap, ha, score a b, by rw [pairOf, h], by rw [hd', h], hproj.symm,
          sameTagExempt_comm.trans hsim.exempt, allowlisted_comm.trans hsim.allowed⟩

end Sound

section Complete

variable {S : List TicketSnapshot} {norms : List String} {p : DuplicatePair} {s : TicketSnapshot}

def ticketKey (r : RadarTicket) : String × String :=
  (r.projectId, r.ticketId)

def Shows (p : DuplicatePair) (s : TicketSnapshot) : Prop :=
  ∃ r ∈ p.home :: p.dups, ticketKey r = key s

-- Two tickets of different projects with one title are in one entry, unless something excuses them.
def Complete (S : List TicketSnapshot) (allowed : List String) (out : List DuplicatePair) : Prop :=
  ∀ x ∈ S, ∀ y ∈ S, x.projectId ≠ y.projectId → normalizeTitle x.title = normalizeTitle y.title →
    minTitleLen ≤ (normalizeTitle x.title).utf8ByteSize → sameTagExempt x y 1 = false →
    allowlisted allowed x y = false → ∃ p ∈ out, Shows p x ∧ Shows p y

-- What matches two others matches the home of the title.
def HomeSees (allowed : List String) (E : List Entry) : Prop :=
  ∀ h x y, Home E h → x ∈ E → y ∈ E → h.norm = x.norm → x ≠ h → y ≠ h → Twin allowed x y →
    Twin allowed h x ∧ Twin allowed h y

-- The tickets in an entry of the first pass.
theorem shows_collapse {r : DuplicatePair × List Nat} (hd : (S.map key).Nodup) (hs : Spec allowed (entries S) h r)
    (hh : h ∈ entries S) (hx : x ∈ entries S) : Shows r.1 x.snap ↔ x = h ∨ Twin allowed h x := by
  simp only [Shows, List.mem_cons, or_and_right, exists_or, exists_eq_left, hs.home]
  refine or_congr ⟨fun hk => eq_of_key hd hx hh hk.symm, fun he => he ▸ rfl⟩ ⟨?_, fun ht => ?_⟩
  case refine_1 =>
    rintro ⟨d, hdm, hk⟩
    obtain ⟨m, hm, ht, rfl⟩ := (hs.dups d).mp hdm
    exact eq_of_key hd hm hx hk ▸ ht
  case refine_2 => exact ⟨_, (hs.dups _).mpr ⟨x, hx, ht, rfl⟩, rfl⟩

theorem shows_pairOf {a b : Entry} (hd : (S.map key).Nodup) (ha : a ∈ entries S) (hb : b ∈ entries S)
    (hx : x ∈ entries S) (h : Shows (pairOf a b) x.snap) : x = a ∨ x = b := by
  have ⟨r, hr, hk⟩ := h
  rw [pairOf, List.mem_cons, List.mem_singleton] at hr
  have hs : x = (sides a b).1 ∨ x = (sides a b).2 := by
    obtain h | h := @sides_eq a b
    all_goals
      rw [h] at hr ⊢
      obtain rfl | rfl := hr
      case inl => exact .inl (eq_of_key hd hx ‹_› hk.symm)
      case inr => exact .inr (eq_of_key hd hx ‹_› hk.symm)
  obtain h | h := @sides_eq a b
  case inl => rwa [h] at hs
  case inr =>
    rw [h] at hs
    exact hs.symm

theorem complete_iff (hd : (S.map key).Nodup) (hn : HashOrder S norms) :
    Complete S allowed (findCrossProjectDuplicates norms S allowed) ↔ HomeSees allowed (entries S) := by
  have hE := nodup_entries hd
  constructor
  case mp =>
    intro hc h x y hh hx hy hnorm hxh hyh ht
    have ⟨hxs, _, hlen⟩ := mem_entries.mp hx
    have ⟨hys, _, _⟩ := mem_entries.mp hy
    have hnorms : normalizeTitle x.snap.title = normalizeTitle y.snap.title := by
      rw [← norm_eq hx, ← norm_eq hy, ht.norm]
    have ⟨p, hp, hpx, hpy⟩ := hc x.snap hxs y.snap hys ht.project hnorms (by rwa [← norm_eq hx]) ht.exempt ht.allowed
    obtain ⟨h', r, hh', hr, rfl⟩ | ⟨a, b, hab, _, hsim, rfl⟩ := (mem_find hd hn).mp hp
    case inl =>
      have hspec := collapseTitle_spec hE hh' hr
      have hpx := (shows_collapse hd hspec hh'.mem hx).mp hpx
      have hpy := (shows_collapse hd hspec hh'.mem hy).mp hpy
      have hnorm' : h'.norm = x.norm := hpx.elim (fun he => he ▸ rfl) fun ht => ht.norm
      have he : h' = h := home_unique hh' hh (hnorm'.trans hnorm.symm)
      rw [he] at hpx hpy
      exact ⟨hpx.resolve_left hxh, hpy.resolve_left hyh⟩
    case inr =>
      have hpx := shows_pairOf hd hab.mem.1 hab.mem.2 hx hpx
      have hpy := shows_pairOf hd hab.mem.1 hab.mem.2 hy hpy
      -- The two sides of such an entry have different titles.
      obtain rfl | rfl := hpx <;> obtain rfl | rfl := hpy
      case inl.inl => exact absurd rfl ht.project
      case inl.inr => exact absurd ht.norm hsim.norm
      case inr.inl => exact absurd ht.norm.symm hsim.norm
      case inr.inr => exact absurd rfl ht.project
  case mpr =>
    intro hs x hxs y hys hproj hnorm hlen hex hal
    have hx : entryOf x ∈ entries S := mem_entries.mpr ⟨hxs, rfl, hlen⟩
    have hleny : minTitleLen ≤ (normalizeTitle y.title).utf8ByteSize := hnorm ▸ hlen
    have hy : entryOf y ∈ entries S := mem_entries.mpr ⟨hys, rfl, hleny⟩
    have ht : Twin allowed (entryOf x) (entryOf y) := ⟨hnorm, hproj, hex, hal⟩
    have ⟨h, hh, hhx⟩ := exists_home hx
    have hsees : (entryOf x = h ∨ Twin allowed h (entryOf x)) ∧ (entryOf y = h ∨ Twin allowed h (entryOf y)) := by
      by_cases hxh : entryOf x = h
      case pos => exact ⟨.inl hxh, .inr (hxh ▸ ht)⟩
      case neg =>
        by_cases hyh : entryOf y = h
        case pos => exact ⟨.inr (hyh ▸ ht.symm), .inl hyh⟩
        case neg =>
          have ⟨h₁, h₂⟩ := hs h _ _ hh hx hy hhx hxh hyh ht
          exact ⟨.inr h₁, .inr h₂⟩
    have htwin : ∃ m ∈ entries S, Twin allowed h m := by
      obtain ⟨rfl | h₁, h₂⟩ := hsees
      case inl => exact ⟨_, hy, ht⟩
      case inr => exact ⟨_, hx, h₁⟩
    have ⟨r, hr⟩ := Option.ne_none_iff_exists'.mp (mt (collapseTitle_eq_none hh).mp (not_not.mpr htwin))
    have hspec := collapseTitle_spec hE hh hr
    exact ⟨r.1, (mem_find hd hn).mpr (.inl ⟨h, r, hh, hr, rfl⟩), (shows_collapse hd hspec hh.mem hx).mpr hsees.1,
      (shows_collapse hd hspec hh.mem hy).mpr hsees.2⟩

end Complete

section Stable

variable {S S' : List TicketSnapshot} {norms : List String} {a b : Entry}

-- The pairs of a home and another ticket in the output.
def reported (out : List DuplicatePair) : Set ((String × String) × (String × String)) :=
  { q | ∃ p ∈ out, ∃ d ∈ p.dups, q = (ticketKey p.home, ticketKey d) }

-- The order of the tickets does not matter.
def Stable (S : List TicketSnapshot) (allowed norms : List String) : Prop :=
  ∀ S' norms', S'.Perm S → HashOrder S' norms' →
    reported (findCrossProjectDuplicates norms' S' allowed) = reported (findCrossProjectDuplicates norms S allowed)

def Least (E : List Entry) (h : Entry) : Prop :=
  h ∈ E ∧ ∀ m ∈ E, m.norm = h.norm → side h.snap ≤ side m.snap

-- Only the list could tell which of two equally least tickets is the home, and which of two near paraphrases
-- comes first.
structure OrderFree (allowed : List String) (E : List Entry) : Prop where
  home : ∀ h h', Least E h → Least E h' → h.norm = h'.norm → h ≠ h' → ∀ m ∈ E, ¬Twin allowed h m
  pair : ∀ a ∈ E, ∀ b ∈ E, Similar allowed a b → (Collapsed allowed E a ↔ Collapsed allowed E b) ∧
    (¬Collapsed allowed E a → side a.snap ≠ side b.snap)

theorem Home.least (h : Home E x) : Least E x := by
  refine ⟨h.mem, fun m hm hn => ?_⟩
  rw [Home] at h
  exact h.le hm (decide_eq_true hn)

theorem Reports.mem (h : Reports allowed E x y) : x ∈ E ∧ y ∈ E := by
  obtain ⟨hx, hy, _⟩ | ⟨a, b, hab, _, _, he⟩ := h
  case inl => exact ⟨hx.mem, hy⟩
  case inr =>
    have ⟨ha, hb⟩ := hab.mem
    obtain h | h := @sides_eq a b
    case inl =>
      obtain ⟨rfl, rfl⟩ := Prod.mk.inj (he.trans h)
      exact ⟨ha, hb⟩
    case inr =>
      obtain ⟨rfl, rfl⟩ := Prod.mk.inj (he.trans h)
      exact ⟨hb, ha⟩

theorem mem_reported (hd : (S.map key).Nodup) (hn : HashOrder S norms) {q : (String × String) × (String × String)} :
    q ∈ reported (findCrossProjectDuplicates norms S allowed) ↔
      ∃ x y, Reports allowed (entries S) x y ∧ q = (key x.snap, key y.snap) := by
  constructor
  case mp =>
    rintro ⟨p, hp, d, hdm, rfl⟩
    obtain ⟨h, r, hh, hr, rfl⟩ | ⟨a, b, hab, hc, hsim, rfl⟩ := (mem_find hd hn).mp hp
    case inl =>
      have hspec := collapseTitle_spec (nodup_entries hd) hh hr
      obtain ⟨m, hm, ht, rfl⟩ := (hspec.dups d).mp hdm
      exact ⟨h, m, .inl ⟨hh, hm, ht⟩, by rw [hspec.home]; rfl⟩
    case inr =>
      obtain rfl := List.mem_singleton.mp hdm
      exact ⟨(sides a b).1, (sides a b).2, .inr ⟨a, b, hab, hc, hsim, rfl⟩, rfl⟩
  case mpr =>
    rintro ⟨x, y, ⟨hx, hy, ht⟩ | ⟨a, b, hab, hc, hsim, he⟩, rfl⟩
    case inl =>
      have ⟨r, hr⟩ := Option.ne_none_iff_exists'.mp (mt (collapseTitle_eq_none hx).mp (not_not.mpr ⟨y, hy, ht⟩))
      have hspec := collapseTitle_spec (nodup_entries hd) hx hr
      refine ⟨r.1, (mem_find hd hn).mpr (.inl ⟨x, r, hx, hr, rfl⟩), _, (hspec.dups _).mpr ⟨y, hy, ht, rfl⟩, ?_⟩
      rw [hspec.home]
      rfl
    case inr =>
      refine ⟨pairOf a b, (mem_find hd hn).mpr (.inr ⟨a, b, hab, hc, hsim, rfl⟩), _, List.mem_singleton_self _, ?_⟩
      rw [pairOf, ← he]
      rfl

theorem stable_iff_reports (hd : (S.map key).Nodup) (hn : HashOrder S norms) : Stable S allowed norms ↔
    ∀ S', S'.Perm S → ∀ x y, Reports allowed (entries S') x y ↔ Reports allowed (entries S) x y := by
  -- A ticket is known by its key, so that a set of keys is a set of tickets.
  have hmem {S' : List TicketSnapshot} {norms' : List String} (hp : S'.Perm S)
      (hn' : HashOrder S' norms') {x y : Entry} (hx : x ∈ entries S) (hy : y ∈ entries S) :
      (key x.snap, key y.snap) ∈ reported (findCrossProjectDuplicates norms' S' allowed) ↔
        Reports allowed (entries S') x y := by
    have hd' : (S'.map key).Nodup := (hp.map key).nodup_iff.mpr hd
    rw [mem_reported hd' hn']
    refine ⟨?_, fun h => ⟨x, y, h, rfl⟩⟩
    rintro ⟨x', y', h, he⟩
    have ⟨hkx, hky⟩ := Prod.mk.inj he
    have ⟨hx', hy'⟩ := h.mem
    rw [(entries_perm hp).mem_iff] at hx' hy'
    rwa [eq_of_key hd hx hx' hkx, eq_of_key hd hy hy' hky]
  constructor
  case mp =>
    intro hs S' hp x y
    have he := hs S' _ hp (List.Perm.refl _)
    by_cases hxy : x ∈ entries S ∧ y ∈ entries S
    case pos => rw [← hmem hp (List.Perm.refl _) hxy.1 hxy.2, he, hmem (List.Perm.refl _) hn hxy.1 hxy.2]
    case neg =>
      have hxy' : ¬(x ∈ entries S' ∧ y ∈ entries S') := by rwa [(entries_perm hp).mem_iff, (entries_perm hp).mem_iff]
      exact iff_of_false (mt Reports.mem hxy') (mt Reports.mem hxy)
  case mpr =>
    intro h S' norms' hp hn'
    have hd' : (S'.map key).Nodup := (hp.map key).nodup_iff.mpr hd
    ext q
    rw [mem_reported hd' hn', mem_reported hd hn]
    simp only [h S' hp]

theorem Least.perm (hp : E'.Perm E) (h : Least E' x) : Least E x :=
  ⟨hp.mem_iff.mp h.1, fun m hm => h.2 m (hp.mem_iff.mpr hm)⟩

-- A home with a twin is the home in every order.
theorem home_perm (hf : ∀ h h', Least E h → Least E h' → h.norm = h'.norm → h ≠ h' → ∀ m ∈ E, ¬Twin allowed h m)
    (hp : E'.Perm E) (ht : ∃ m ∈ E, Twin allowed x m) : Home E' x ↔ Home E x := by
  have ⟨m, hm, ht⟩ := ht
  constructor
  case mp =>
    intro hx
    have ⟨h, hh, hn⟩ := exists_home (hp.mem_iff.mp hx.mem)
    by_cases he : x = h
    case pos => exact he ▸ hh
    case neg => exact absurd ht (hf x h (hx.least.perm hp) hh.least hn.symm he m hm)
  case mpr =>
    intro hx
    have ⟨h, hh, hn⟩ := exists_home (hp.mem_iff.mpr hx.mem)
    by_cases he : x = h
    case pos => exact he ▸ hh
    case neg => exact absurd ht (hf x h hx.least (hh.least.perm hp) hn.symm he m hm)

theorem collapsed_perm (hf : ∀ h h', Least E h → Least E h' → h.norm = h'.norm → h ≠ h' → ∀ m ∈ E, ¬Twin allowed h m)
    (hp : E'.Perm E) : Collapsed allowed E' x ↔ Collapsed allowed E x := by
  refine exists_congr fun h => ?_
  simp only [hp.mem_iff]
  constructor
  case mp  => exact fun ⟨hh, hn, ht, hx⟩ => ⟨(home_perm hf hp ht).mp hh, hn, ht, hx⟩
  case mpr => exact fun ⟨hh, hn, ht, hx⟩ => ⟨(home_perm hf hp ht).mpr hh, hn, ht, hx⟩

-- Where the list does not decide, what one order reports every other order reports.
theorem OrderFree.reports (hf : OrderFree allowed (entries S)) (hE' : E'.Perm (entries S))
    {E'' : List Entry} (hE'' : E''.Perm (entries S)) (h : Reports allowed E' x y) : Reports allowed E'' x y := by
  have hp := hE'.trans hE''.symm
  obtain ⟨hx, hy, ht⟩ | ⟨a, b, hab, hc, hsim, he⟩ := h
  case inl =>
    have htwin : ∃ m ∈ entries S, Twin allowed x m := ⟨y, hE'.mem_iff.mp hy, ht⟩
    have hx := (home_perm hf.home hE' htwin).mp hx
    exact .inl ⟨(home_perm hf.home hE'' htwin).mpr hx, hp.mem_iff.mp hy, ht⟩
  case inr =>
    have ha := hE'.mem_iff.mp hab.mem.1
    have hb := hE'.mem_iff.mp hab.mem.2
    have hab' : a ≠ b := fun h => hsim.norm (h ▸ rfl)
    rw [collapsed_perm hf.home hE'] at hc
    have ⟨hcab, hside⟩ := hf.pair a ha b hb hsim
    obtain h | h := before_or (hE''.mem_iff.mpr ha) (hE''.mem_iff.mpr hb) hab'
    case inl => exact .inr ⟨a, b, h, by rwa [collapsed_perm hf.home hE''], hsim, he⟩
    case inr =>
      have hcb : ¬Collapsed allowed (entries S) b := by rwa [← hcab]
      exact .inr ⟨b, a, h, by rwa [collapsed_perm hf.home hE''], hsim.symm ha hb, by rw [he, sides_comm (hside hc)]⟩

-- Any two tickets can be in front.
theorem exists_front (hd : (S.map key).Nodup) (hx : x ∈ entries S) (hy : y ∈ entries S) (hxy : x ≠ y) :
    ∃ S', S'.Perm S ∧ ∃ rest, entries S' = x :: y :: rest := by
  have hs : x.snap ≠ y.snap := fun h => hxy (eq_of_key hd hx hy (by rw [h]))
  have hy' : y.snap ∈ S.erase x.snap := (List.mem_erase_of_ne hs.symm).mpr (mem_entries.mp hy).1
  refine ⟨x.snap :: y.snap :: (S.erase x.snap).erase y.snap, ?_, _, by rw [entries_cons hx, entries_cons hy]⟩
  exact ((List.perm_cons_erase hy').symm.cons _).trans (List.perm_cons_erase (mem_entries.mp hx).1).symm

theorem home_of_front {rest : List Entry} (h : Least (x :: rest) x) : Home (x :: rest) x :=
  ⟨[], rest, rfl, decide_eq_true rfl, by simp, fun b hb hn =>
    h.2 b (List.mem_cons_of_mem _ hb) (of_decide_eq_true hn)⟩

theorem sides_mem : ((sides a b).1 = a ∨ (sides a b).1 = b) ∧ ((sides a b).2 = a ∨ (sides a b).2 = b) := by
  obtain h | h := @sides_eq a b
  case inl => exact h ▸ ⟨.inl rfl, .inr rfl⟩
  case inr => exact h ▸ ⟨.inr rfl, .inl rfl⟩

-- What is reported of two near paraphrases if they are in front of the list.
theorem reports_front {rest : List Entry} (hE : (a :: b :: rest).Nodup) (hx : x = a ∨ x = b) (hy : y = a ∨ y = b)
    (hsim : Similar allowed a b) :
    Reports allowed (a :: b :: rest) x y ↔ ¬Collapsed allowed (a :: b :: rest) a ∧ (x, y) = sides a b := by
  have hab : Before (a :: b :: rest) a b := ⟨[], b :: rest, rfl, List.mem_cons_self⟩
  constructor
  case mpr => exact fun ⟨hc, he⟩ => .inr ⟨a, b, hab, hc, hsim, he⟩
  case mp =>
    rintro (⟨_, _, ht⟩ | ⟨a', b', hab', hc, hsim', he⟩)
    case inl =>
      obtain rfl | rfl := hx <;> obtain rfl | rfl := hy
      case inl.inl => exact absurd rfl ht.project
      case inl.inr => exact absurd ht.norm hsim.norm
      case inr.inl => exact absurd ht.norm.symm hsim.norm
      case inr.inr => exact absurd rfl ht.project
    case inr =>
      have hmem : (a' = a ∨ a' = b) ∧ (b' = a ∨ b' = b) := by
        obtain h | h := @sides_eq a' b'
        case inl =>
          obtain ⟨rfl, rfl⟩ := Prod.mk.inj (he.trans h)
          exact ⟨hx, hy⟩
        case inr =>
          obtain ⟨rfl, rfl⟩ := Prod.mk.inj (he.trans h)
          exact ⟨hy, hx⟩
      obtain ⟨rfl | rfl, rfl | rfl⟩ := hmem
      case inl.inl => exact absurd rfl hsim'.norm
      case inl.inr => exact ⟨hc, he⟩
      case inr.inl => exact absurd hab' (not_before_symm hE hab)
      case inr.inr => exact absurd rfl hsim'.norm

section Necessary

variable (hd : (S.map key).Nodup)
  (hr : ∀ S', S'.Perm S → ∀ x y, Reports allowed (entries S') x y ↔ Reports allowed (entries S) x y)
include hd hr

theorem home_of_stable : ∀ h h', Least (entries S) h → Least (entries S) h' → h.norm = h'.norm → h ≠ h' →
    ∀ m ∈ entries S, ¬Twin allowed h m := by
  intro h h' hl hl' hn hne m hm ht
  have ⟨S₁, hp₁, rest₁, he₁⟩ := exists_front hd hl.1 hl'.1 hne
  have ⟨S₂, hp₂, rest₂, he₂⟩ := exists_front hd hl'.1 hl.1 hne.symm
  have hl₁ := hl.perm (entries_perm hp₁.symm)
  have hl₂ := hl'.perm (entries_perm hp₂.symm)
  rw [he₁] at hl₁
  rw [he₂] at hl₂
  -- In front the one is the home, and the other one is if that is in front.
  have hrep : Reports allowed (entries S₁) h m :=
    .inl ⟨he₁ ▸ home_of_front hl₁, (entries_perm hp₁).mem_iff.mpr hm, ht⟩
  rw [hr S₁ hp₁, ← hr S₂ hp₂] at hrep
  obtain ⟨hh, _, _⟩ | ⟨a, b, _, _, hsim, he⟩ := hrep
  case inl => exact hne (home_unique hh (he₂ ▸ home_of_front hl₂) hn)
  case inr =>
    obtain h' | h' := @sides_eq a b
    case inl =>
      obtain ⟨rfl, rfl⟩ := Prod.mk.inj (he.trans h')
      exact hsim.norm ht.norm
    case inr =>
      obtain ⟨rfl, rfl⟩ := Prod.mk.inj (he.trans h')
      exact hsim.norm ht.norm.symm

-- Two near paraphrases are reported together, and as well if the other one is in front.
theorem sides_of_stable (ha : a ∈ entries S) (hb : b ∈ entries S) (hsim : Similar allowed a b)
    (hc : ¬Collapsed allowed (entries S) a) : ¬Collapsed allowed (entries S) b ∧ sides a b = sides b a := by
  have hl := home_of_stable hd hr
  have hab : a ≠ b := fun h => hsim.norm (h ▸ rfl)
  have ⟨S₁, hp₁, rest₁, he₁⟩ := exists_front hd ha hb hab
  have ⟨S₂, hp₂, rest₂, he₂⟩ := exists_front hd hb ha hab.symm
  have hE₁ := nodup_entries ((hp₁.map key).nodup_iff.mpr hd)
  have hE₂ := nodup_entries ((hp₂.map key).nodup_iff.mpr hd)
  have hrep : Reports allowed (entries S₁) (sides a b).1 (sides a b).2 := by
    rw [he₁] at hE₁ ⊢
    refine (reports_front hE₁ sides_mem.1 sides_mem.2 hsim).mpr ⟨?_, rfl⟩
    rwa [← he₁, collapsed_perm hl (entries_perm hp₁)]
  rw [hr S₁ hp₁, ← hr S₂ hp₂, he₂] at hrep
  rw [he₂] at hE₂
  have ⟨hcb, hs⟩ := (reports_front hE₂ sides_mem.1.symm sides_mem.2.symm (hsim.symm ha hb)).mp hrep
  exact ⟨by rwa [← he₂, collapsed_perm hl (entries_perm hp₂)] at hcb, hs⟩

theorem orderFree_of_stable : OrderFree allowed (entries S) where
  home := home_of_stable hd hr
  pair a ha b hb hsim := by
    refine ⟨not_iff_not.mp ⟨fun hc => ?_, fun hc => ?_⟩, fun hc hside => ?_⟩
    case refine_1 => exact (sides_of_stable hd hr ha hb hsim hc).1
    case refine_2 => exact (sides_of_stable hd hr hb ha (hsim.symm ha hb) hc).1
    case refine_3 =>
      have hs := (sides_of_stable hd hr ha hb hsim hc).2
      rw [sides, sides, if_pos hside.le, if_pos hside.ge] at hs
      exact hsim.norm (congrArg Entry.norm (Prod.mk.inj hs).1)

end Necessary

theorem stable_iff (hd : (S.map key).Nodup) (hn : HashOrder S norms) :
    Stable S allowed norms ↔ OrderFree allowed (entries S) := by
  rw [stable_iff_reports hd hn]
  constructor
  case mp  => exact orderFree_of_stable hd
  case mpr =>
    intro hf S' hp x y
    have hE := entries_perm hp
    exact ⟨hf.reports hE (List.Perm.refl _), hf.reports (List.Perm.refl _) hE⟩

end Stable

section Radar

variable {S : List TicketSnapshot} {norms : List String}

-- The radar is sound as long as no near paraphrases of one project meet in the second pass, complete as long as
-- the homes see what the others see, and stable as long as the order of the list decides nothing.
theorem radar_iff (hd : (S.map key).Nodup) (hn : HashOrder S norms) :
    (Sound S allowed (findCrossProjectDuplicates norms S allowed) ↔ CrossProject allowed (entries S)) ∧
    (Complete S allowed (findCrossProjectDuplicates norms S allowed) ↔ HomeSees allowed (entries S)) ∧
    (Stable S allowed norms ↔ OrderFree allowed (entries S)) :=
  ⟨sound_iff hd hn, complete_iff hd hn, stable_iff hd hn⟩

-- Two projects that filed one title.
def dashboards : List TicketSnapshot := [
  { projectId := "a", projectName := "Atlas", ticketId := "AT-F001", title := "Cycle performance dashboard" },
  { projectId := "b", projectName := "Borealis", ticketId := "BO-F007", title := "cycle-performance dashboard" }
]

theorem distinct_dashboards : (dashboards.map key).Nodup := by
  decide

theorem norm_dashboards (hx : x ∈ entries dashboards) : x.norm = "cycle performance dashboard" := by
  have hn : ∀ s ∈ dashboards, normalizeTitle s.title = "cycle performance dashboard" := by decide
  rw [norm_eq hx, hn _ (mem_entries.mp hx).1]

theorem orderFree_dashboards : OrderFree [] (entries dashboards) where
  home h h' hl hl' hn hne := by
    have hs : ∀ s ∈ dashboards, ∀ t ∈ dashboards, side s = side t → key s = key t := by decide
    have hside := le_antisymm (hl.2 h' hl'.1 hn.symm) (hl'.2 h hl.1 hn)
    have hkey := hs _ (mem_entries.mp hl.1).1 _ (mem_entries.mp hl'.1).1 hside
    exact absurd (eq_of_key distinct_dashboards hl.1 hl'.1 hkey) hne
  pair a ha b hb hsim := absurd ((norm_dashboards ha).trans (norm_dashboards hb).symm) hsim.norm

theorem radar_dashboards :
    let norms := ((entries dashboards).map (·.norm)).dedup
    Sound dashboards [] (findCrossProjectDuplicates norms dashboards []) ∧
      Complete dashboards [] (findCrossProjectDuplicates norms dashboards []) ∧ Stable dashboards [] norms := by
  have ⟨hs, hc, ht⟩ := @radar_iff [] dashboards _ distinct_dashboards (.refl _)
  refine ⟨hs.mpr fun a b hab _ hsim => ?_, hc.mpr fun h x y hh hx hy _ hxh hyh ht => ?_, ht.mpr orderFree_dashboards⟩
  case refine_1 => exact absurd ((norm_dashboards hab.mem.1).trans (norm_dashboards hab.mem.2).symm) hsim.norm
  case refine_2 =>
    -- There is no third ticket.
    have htwo : ∀ s ∈ dashboards, ∀ t ∈ dashboards, ∀ u ∈ dashboards,
        key s = key u ∨ key t = key u ∨ key s = key t := by decide
    have hk := htwo _ (mem_entries.mp hx).1 _ (mem_entries.mp hy).1 _ (mem_entries.mp hh.mem).1
    obtain hk | hk | hk := hk
    case inl     => exact absurd (eq_of_key distinct_dashboards hx hh.mem hk) hxh
    case inr.inl => exact absurd (eq_of_key distinct_dashboards hy hh.mem hk) hyh
    case inr.inr => exact absurd (congrArg Prod.fst hk) ht.project

-- Two tickets of one project with nearly the same title.
def widgets : List TicketSnapshot := [
  { projectId := "a", projectName := "Atlas", ticketId := "AT-F001", title := "Cycle performance dashboard" },
  { projectId := "a", projectName := "Atlas", ticketId := "AT-F002", title := "Cycle performance dashboard widgets" }
]

-- The second pass does not look at the projects.
theorem not_radar_widgets : ¬∀ (S : List TicketSnapshot) (allowed norms : List String), (S.map key).Nodup →
    HashOrder S norms → Sound S allowed (findCrossProjectDuplicates norms S allowed) ∧
      Complete S allowed (findCrossProjectDuplicates norms S allowed) ∧ Stable S allowed norms := by
  intro h
  have hd : (widgets.map key).Nodup := by decide
  have hs := (sound_iff hd (List.Perm.refl _)).mp (h widgets [] _ hd (List.Perm.refl _)).1
  have he : entries widgets = widgets.map entryOf := by decide +kernel
  have hproj : ∀ s ∈ widgets, s.projectId = "a" := by decide
  have hp {x : Entry} (hx : x ∈ entries widgets) : x.snap.projectId = "a" := hproj _ (mem_entries.mp hx).1
  have hc (x : Entry) : ¬Collapsed [] (entries widgets) x := by
    rintro ⟨h, hh, _, ⟨m, hm, ht⟩, _⟩
    exact ht.project ((hp hh.mem).trans (hp hm).symm)
  rw [he] at hs hc
  refine hs _ _ ⟨[], _, rfl, List.mem_singleton_self _⟩ (hc _) ⟨?_, ?_, ?_, ?_⟩ rfl
  all_goals decide +kernel

end Radar

end Radar
