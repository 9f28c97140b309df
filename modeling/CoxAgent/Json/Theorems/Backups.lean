import CoxAgent.Json.Theorems.AtomicWrite
import CoxAgent.Lib.Instant

-- The times at which backups are made, in nanoseconds. Their decimal texts have one length from 2001 on, for as
-- long as the clock can tell the time.
def Stamped (stamp : Int) : Prop :=
  ∃ n : Nat, stamp = n ∧ 10 ^ 18 ≤ n ∧ n < 10 ^ 19

-- What happens to a state directory: the callers of the store, and whatever else puts bytes in the place of the
-- state file or removes it.
inductive JsonEvent (J : Type)
  | op (o : JsonOp)
  | foreign (state : Option J)

def JsonOp.stamp : JsonOp → Int
  | loadThenSave _ stamp _    => stamp
  | claimTicket _ _ _ stamp _ => stamp

def JsonEvent.stamp? {J : Type} : JsonEvent J → Option Int
  | op o      => some o.stamp
  | foreign _ => none

section Definitions

variable {J : Type} (c : Codec J)

-- The operation replaces the state file if the disk lets it.
def JsonOp.writes (dir : StateDir J) : JsonOp → Bool
  | loadThenSave f stamp _            => (JsonStateStore.loadThenSave c f stamp dir).1.toOption.isSome
  | claimTicket id worker now stamp _ =>
    (JsonStateStore.claimTicket c id worker now stamp dir).1.toOption.getD false

-- A state directory with the contents of the state file that the store came to replace.
structure Replacing (J : Type) where
  dir      : StateDir J := {}
  replaced : List J     := []

namespace Replacing

def step (r : Replacing J) : JsonEvent J → Replacing J
  | .op o =>
    let replaced := if o.writes c r.dir then r.dir.state.toList else []
    { dir := o.step c r.dir, replaced := r.replaced ++ replaced }
  | .foreign state => { r with dir := { r.dir with state } }

def run (events : List (JsonEvent J)) : Replacing J :=
  events.foldl (step c) {}

end Replacing

end Definitions

variable {J : Type} {c : Codec J} {dir : StateDir J} {stamp later : Int}

section Names

theorem toList_name {n : Nat} :
    (s!"state-{(n : Int)}.json").toList = "state-".toList ++ (Nat.toDigits 10 n ++ ".json".toList) := by
  have hn : toString (n : Int) = n.repr := rfl
  have hs (s : String) : toString s = s := rfl
  simp only [hs, hn, String.toList_append, Nat.repr_eq_ofList_toDigits, String.toList_ofList, List.append_assoc]

theorem zeroPad_eq {n w : Nat} (hl : 10 ^ w ≤ n) (hw : 0 < w) : Text.zeroPad (w + 1) n = Nat.toDigits 10 n := by
  have hlen : ¬(Nat.toDigits 10 n).length ≤ w := by
    rw [Nat.length_toDigits_le_iff (by decide) hw]
    omega
  rw [Text.zeroPad, Nat.sub_eq_zero_of_le (Nat.lt_of_not_le hlen), List.replicate_zero, List.nil_append]

-- The names sort as the times do.
theorem name_lt_of_stamp (h : Stamped stamp) (h' : Stamped later) (hlt : stamp < later) :
    s!"state-{stamp}.json" < s!"state-{later}.json" := by
  obtain ⟨m, rfl, hm, hm'⟩ := h
  obtain ⟨n, rfl, hn, hn'⟩ := h'
  have hmn : m < n := Int.ofNat_lt.mp hlt
  rw [String.lt_iff_toList_lt, toList_name, toList_name, ← zeroPad_eq hm (by decide), ← zeroPad_eq hn (by decide)]
  refine List.append_left_lt (Instant.append_lt_append (Instant.zeroPad_lt (by decide) hn' hmn) ?_)
  rw [Instant.length_zeroPad (by decide) hm', Instant.length_zeroPad (by decide) hn']

end Names

namespace JsonStateStore

variable {replaced : List J}

-- The backups are the newest contents that were replaced, named after times up to the last one.
structure BackedUp (replaced : List J) (last : Option Int) (dir : StateDir J) : Prop where
  contents : dir.backups.map (·.2) = replaced.drop (replaced.length - maxBackups)
  ordered  : dir.backups.Pairwise (·.1 < ·.1)
  named    : ∀ file ∈ dir.backups, ∃ n, Stamped n ∧ file.1 = s!"state-{n}.json" ∧ ∃ l ∈ last, n ≤ l

theorem sorted_eq {backups : List (String × J)} (h : backups.Pairwise (·.1 < ·.1)) : sorted backups = backups :=
  List.mergeSort_of_pairwise (h.imp fun hlt => decide_eq_true (le_of_lt hlt))

theorem BackedUp.mono {l l' : Option Int} (h : BackedUp replaced l dir) (hl : ∀ n ∈ l, ∃ n' ∈ l', n ≤ n') :
    BackedUp replaced l' dir where
  contents := h.contents
  ordered  := h.ordered
  named file hf := by
    obtain ⟨n, hn, hname, m, hm, hnm⟩ := h.named file hf
    obtain ⟨m', hm', hle⟩ := hl m hm
    exact ⟨n, hn, hname, m', hm', hnm.trans hle⟩

theorem BackedUp.congr {dir' : StateDir J} {l : Option Int} (h : BackedUp replaced l dir)
    (hb : dir'.backups = dir.backups) : BackedUp replaced l dir' where
  contents := hb ▸ h.contents
  ordered  := hb ▸ h.ordered
  named    := hb ▸ h.named

theorem BackedUp.snapshot {last : Option Int} {current : J} (h : BackedUp replaced last dir) (hs : Stamped stamp)
    (hl : ∀ l ∈ last, l < stamp) :
    BackedUp (replaced ++ [current]) (some stamp) (snapshotBackup stamp current dir) := by
  have hlt : ∀ file ∈ dir.backups, file.1 < s!"state-{stamp}.json" := by
    intro file hf
    obtain ⟨n, hn, hname, l, hm, hnl⟩ := h.named file hf
    rw [hname]
    exact name_lt_of_stamp hn hs (hnl.trans_lt (hl l hm))
  have hfilter : dir.backups.filter (fun file => decide (file.1 ≠ s!"state-{stamp}.json")) = dir.backups :=
    List.filter_eq_self.mpr fun file hf => decide_eq_true (ne_of_lt (hlt file hf))
  have hord : (dir.backups ++ [(s!"state-{stamp}.json", current)]).Pairwise (·.1 < ·.1) :=
    List.pairwise_append.mpr ⟨h.ordered, List.pairwise_singleton _ _, fun file hf _ hm =>
      List.mem_singleton.mp hm ▸ hlt file hf⟩
  have hbackups : (snapshotBackup stamp current dir).backups =
      (dir.backups ++ [(s!"state-{stamp}.json", current)]).drop (dir.backups.length + 1 - maxBackups) := by
    simp only [snapshotBackup, pruneBackups, hfilter, sorted_eq hord, List.length_append, List.length_singleton]
  have hlen : dir.backups.length = min replaced.length maxBackups := by
    have := congrArg List.length h.contents
    rw [List.length_map, List.length_drop] at this
    omega
  constructor
  case contents =>
    rw [hbackups, List.map_drop, List.map_append, h.contents, List.map_singleton, hlen]
    have hdrop : replaced.drop (replaced.length - maxBackups) ++ [current] =
        (replaced ++ [current]).drop (replaced.length - maxBackups) := by
      rw [List.drop_append_of_le_length (Nat.sub_le _ _)]
    rw [hdrop, List.drop_drop, List.length_append, List.length_singleton]
    congr 1
    omega
  case ordered => exact hbackups ▸ hord.sublist (List.drop_sublist _ _)
  case named   =>
    intro file hf
    rw [hbackups] at hf
    cases List.mem_append.mp (List.mem_of_mem_drop hf)
    case inl hf =>
      obtain ⟨n, hn, hname, l, hm, hnl⟩ := h.named file hf
      exact ⟨n, hn, hname, stamp, rfl, hnl.trans (hl l hm).le⟩
    case inr hf => exact ⟨stamp, hs, by rw [List.mem_singleton.mp hf], stamp, rfl, le_refl _⟩

-- A write that gets past the gate copies the state file, whatever the disk says to it then, and one that does
-- not changes no file of the two.
theorem writeLocked_files {s : ProjectState} {disk : Except String Unit} :
    ((writeLocked c s stamp dir).1.toOption.isSome ∧
      (writeLocked c s stamp dir disk).2.backups =
        (dir.state.elim dir fun current => snapshotBackup stamp current dir).backups) ∨
    (¬(writeLocked c s stamp dir).1.toOption.isSome ∧ (writeLocked c s stamp dir disk).2.backups = dir.backups) := by
  unfold writeLocked
  cases gateSave s
  case error => exact .inr ⟨Bool.false_ne_true, rfl⟩
  case ok    => cases disk <;> exact .inl ⟨rfl, rfl⟩

theorem claimTicket_files {id : TicketId} {worker now : String} {disk : Except String Unit} {s s' : ProjectState}
    (hl : load c dir = .ok s) (hc : World.claimIn s id worker now = some s') :
    (claimTicket c id worker now stamp dir disk).2 = (writeLocked c s' stamp dir disk).2 := by
  unfold claimTicket
  simp only [hl, hc]
  generalize writeLocked c s' stamp dir disk = r
  obtain ⟨r, dir'⟩ := r
  cases r <;> rfl

theorem claimTicket_won {id : TicketId} {worker now : String} {s s' : ProjectState}
    (hl : load c dir = .ok s) (hc : World.claimIn s id worker now = some s') :
    (claimTicket c id worker now stamp dir).1.toOption.getD false =
      (writeLocked c s' stamp dir).1.toOption.isSome := by
  unfold claimTicket
  simp only [hl, hc]
  generalize writeLocked c s' stamp dir = r
  obtain ⟨r, dir'⟩ := r
  cases r <;> rfl

theorem step_files (o : JsonOp) :
    (o.writes c dir ∧ (o.step c dir).backups =
      (dir.state.elim dir fun current => snapshotBackup o.stamp current dir).backups) ∨
    (¬o.writes c dir ∧ (o.step c dir).backups = dir.backups) := by
  cases o
  case loadThenSave f stamp disk =>
    simp only [JsonOp.writes, JsonOp.step, JsonOp.stamp, loadThenSave]
    cases load c dir
    case error e => exact .inr ⟨Bool.false_ne_true, rfl⟩
    case ok s    => exact writeLocked_files
  case claimTicket id worker now stamp disk =>
    simp only [JsonOp.writes, JsonOp.step, JsonOp.stamp]
    cases hl : load c dir
    case error e =>
      simp only [claimTicket, hl]
      exact .inr ⟨Bool.false_ne_true, trivial⟩
    case ok s    =>
      cases hc : World.claimIn s id worker now
      case none    =>
        simp only [claimTicket, hl, hc]
        exact .inr ⟨Bool.false_ne_true, trivial⟩
      case some s' =>
        rw [claimTicket_files hl hc, claimTicket_won hl hc]
        exact writeLocked_files

end JsonStateStore

namespace Replacing

open JsonStateStore

-- The time of the last event that had one.
def last (events : List (JsonEvent J)) : Option Int :=
  (events.filterMap (·.stamp?)).getLast?

variable {events : List (JsonEvent J)}

-- One event keeps the backups in step with what was replaced.
theorem backedUp_step {r : Replacing J} {l : Option Int} (h : BackedUp r.replaced l r.dir) (e : JsonEvent J)
    (hs : ∀ n ∈ e.stamp?, Stamped n ∧ ∀ m ∈ l, m < n) :
    BackedUp (r.step c e).replaced (e.stamp?.or l) (r.step c e).dir := by
  cases e
  case foreign state => exact { h with }
  case op o          =>
    obtain ⟨hst, hlt⟩ := hs o.stamp rfl
    have hmono : BackedUp r.replaced (some o.stamp) r.dir :=
      h.mono fun n hn => ⟨o.stamp, rfl, (hlt n hn).le⟩
    rcases @step_files J c r.dir o with ⟨hw, hb⟩ | ⟨hw, hb⟩
    case inr =>
      simp only [step, if_neg hw, List.append_nil]
      exact hmono.congr hb
    case inl =>
      simp only [step, if_pos hw]
      cases hstate : r.dir.state
      case none         =>
        rw [hstate, Option.elim_none] at hb
        rw [Option.toList_none, List.append_nil]
        exact hmono.congr hb
      case some current =>
        rw [hstate, Option.elim_some] at hb
        exact (h.snapshot hst fun m hm => hlt m hm).congr hb

theorem backedUp_run (events : List (JsonEvent J)) (hs : ∀ n ∈ events.filterMap (·.stamp?), Stamped n)
    (hlt : (events.filterMap (·.stamp?)).Pairwise (· < ·)) :
    BackedUp (run c events).replaced (last events) (run c events).dir := by
  induction events using List.reverseRecOn
  case nil                  => exact ⟨rfl, .nil, by simp [run]⟩
  case append_singleton events e hi =>
    rw [List.filterMap_append] at hs hlt
    have hprev := hi (fun n hn => hs n (List.mem_append_left _ hn)) (List.pairwise_append.mp hlt).left
    have hlast : last (events ++ [e]) = e.stamp?.or (last events) := by
      rw [last, List.filterMap_append, List.getLast?_append, last]
      cases h : e.stamp?
      case none   => rw [List.filterMap_cons_none h, List.filterMap_nil, List.getLast?_nil]
      case some n => rw [List.filterMap_cons_some h, List.filterMap_nil, List.getLast?_singleton]
    rw [run, List.foldl_append, List.foldl_cons, List.foldl_nil, hlast]
    refine backedUp_step hprev e fun n hn => ?_
    have hmem : n ∈ [e].filterMap (·.stamp?) := List.mem_filterMap.mpr ⟨e, List.mem_singleton_self e, hn⟩
    refine ⟨hs n (List.mem_append_right _ hmem), fun m hm => ?_⟩
    exact (List.pairwise_append.mp hlt).right.right m (List.mem_of_getLast? hm) n hmem

theorem toOption_parseChecked {bytes : J} {s : ProjectState} :
    (parseChecked c bytes).toOption = some s ↔ parseChecked c bytes = .ok s := by
  cases parseChecked c bytes <;> simp [Except.toOption]

theorem toOption_parseChecked_none {bytes : J} : (parseChecked c bytes).toOption = none ↔ ¬Usable c bytes := by
  simp only [Usable, ← parseChecked_ok]
  cases parseChecked c bytes <;> simp [Except.toOption]

-- What the recovery finds: the newest content that parses of those that are backed up.
theorem recovers_iff {replaced : List J} {l : Option Int} {s : ProjectState} (h : BackedUp replaced l dir) :
    recoverFromBackup c dir = some s ↔ ∃ older bytes newer, replaced = older ++ bytes :: newer ∧
      newer.length < maxBackups ∧ parseChecked c bytes = .ok s ∧ ∀ b ∈ newer, ¬Usable c b := by
  have hfind : recoverFromBackup c dir =
      (replaced.drop (replaced.length - maxBackups)).reverse.findSome? fun b => (parseChecked c b).toOption := by
    rw [recoverFromBackup, sorted_eq h.ordered, ← h.contents, ← List.map_reverse, List.findSome?_map]
    rfl
  rw [hfind, List.findSome?_eq_some_iff]
  simp only [toOption_parseChecked, toOption_parseChecked_none]
  constructor
  case mp =>
    rintro ⟨newer, bytes, older, hl, hp, hn⟩
    have hdrop : replaced.drop (replaced.length - maxBackups) = older.reverse ++ bytes :: newer.reverse := by
      rw [← List.reverse_inj, hl]
      simp
    refine ⟨replaced.take (replaced.length - maxBackups) ++ older.reverse, bytes, newer.reverse, ?_, ?_, hp, ?_⟩
    · rw [List.append_assoc, ← hdrop, List.take_append_drop]
    · have := congrArg List.length hdrop
      simp only [List.length_drop, List.length_append, List.length_cons] at this
      omega
    · simpa using hn
  case mpr =>
    rintro ⟨older, bytes, newer, hr, hlen, hp, hn⟩
    refine ⟨newer.reverse, bytes, (older.drop (replaced.length - maxBackups)).reverse, ?_, hp, by simpa using hn⟩
    have hle : replaced.length - maxBackups ≤ older.length := by
      have := congrArg List.length hr
      rw [List.length_append, List.length_cons] at this
      omega
    rw [hr] at hle ⊢
    rw [List.drop_append_of_le_length hle]
    simp

-- Whatever is done to the state file and whichever writes the disk refuses, the backups are the last twenty
-- contents that the store came to replace, from the oldest to the newest. A state file that does not parse is
-- recovered exactly if one of these parses, and from the newest one that does.
theorem backups_exact (events : List (JsonEvent J)) (hs : ∀ n ∈ events.filterMap (·.stamp?), Stamped n)
    (hlt : (events.filterMap (·.stamp?)).Pairwise (· < ·)) :
    let r := run c events
    (sorted r.dir.backups).map (·.2) = r.replaced.drop (r.replaced.length - maxBackups) ∧
    ∀ bytes e s, parseChecked c bytes = .error e →
      (load c { r.dir with state := some bytes } = .ok s ↔ ∃ older found newer,
        r.replaced = older ++ found :: newer ∧ newer.length < maxBackups ∧
        parseChecked c found = .ok s ∧ ∀ b ∈ newer, ¬Usable c b) := by
  have h := backedUp_run (c := c) events hs hlt
  refine ⟨by rw [sorted_eq h.ordered, h.contents], fun bytes e s hb => ?_⟩
  have hback : BackedUp (run c events).replaced (last events) { (run c events).dir with state := some bytes } :=
    h.congr rfl
  rw [← recovers_iff hback, load]
  simp only [hb]
  cases recoverFromBackup c { (run c events).dir with state := some bytes } <;> simp

-- Two saves and one that the disk refuses, and then a file that is no state in the place of the second document.
def renamings : List (JsonEvent Doc) :=
  [.op (.loadThenSave (fun s => { s with «alias» := "OLD" }) (10 ^ 18)),
    .op (.loadThenSave (fun s => { s with «alias» := "NEW" }) (10 ^ 18 + 1)),
    .op (.loadThenSave (fun s => { s with «alias» := "LOST" }) (10 ^ 18 + 2) (.error "No space left on device"))]

theorem backups_exact_renamings :
    let other : Doc := .shard (.docs {})
    load .plain { (run .plain renamings).dir with state := some other } = .ok { «alias» := "NEW" } := by
  intro other
  have hstamps : renamings.filterMap (·.stamp?) = [(10 : Int) ^ 18, 10 ^ 18 + 1, 10 ^ 18 + 2] := rfl
  have hs : ∀ n ∈ renamings.filterMap (·.stamp?), Stamped n := by
    intro n hn
    rw [hstamps, List.mem_cons, List.mem_pair] at hn
    rcases hn with rfl | rfl | rfl
    · exact ⟨10 ^ 18, rfl, by decide, by decide⟩
    · exact ⟨10 ^ 18 + 1, rfl, by decide, by decide⟩
    · exact ⟨10 ^ 18 + 2, rfl, by decide, by decide⟩
  have hlt : (renamings.filterMap (·.stamp?)).Pairwise (· < ·) := by
    rw [hstamps]
    simp
  have h := (backups_exact (c := .plain) renamings hs hlt).right other _ { «alias» := "NEW" } rfl
  exact h.mpr ⟨[.state { «alias» := "OLD" }], .state { «alias» := "NEW" }, [], rfl, by decide, rfl, by simp⟩

end Replacing
