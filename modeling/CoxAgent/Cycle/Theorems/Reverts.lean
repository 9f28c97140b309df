import CoxAgent.Backlog.Theorems.Recognised
import CoxAgent.Cycle.Reverts
import CoxAgent.Lib.Lines

-- Which work the reverts in a log are attributed to.
namespace RevertLearning

open Scan

-- The text has the id as a word of its own.
def Names (text id : String) : Prop :=
  isTicketShaped id.toList ∧ id.toList ∈ words fieldChars text.toList

-- A commit as git prints it, with a subject of one line.
structure GitCommit where
  sha       : String
  date      : String
  subject   : String
  shaNe     : sha ≠ ""
  shaPlain  : ∀ c ∈ sha.toList, !Text.isWhitespace c ∧ c ≠ '\x1f'
  dateNe    : date ≠ ""
  datePlain : ∀ c ∈ date.toList, !Text.isWhitespace c ∧ c ≠ '\x1f'
  oneLine   : '\n' ∉ subject.toList

structure GitLog where
  commits  : List GitCommit
  distinct : (commits.map (·.sha)).Nodup

def GitCommit.print (c : GitCommit) : List Char :=
  c.sha.toList ++ '\x1f' :: (c.date.toList ++ '\x1f' :: c.subject.toList)

def GitLog.text (log : GitLog) : String :=
  Text.unlines (log.commits.map (·.print))

-- What is read of a commit.
def GitCommit.read (c : GitCommit) : LogCommit where
  sha     := c.sha
  date    := some c.date
  subject := .ofList (Text.stripCr c.subject.toList)

section Parse

variable {c : GitCommit} {a l m : List Char} {x sep : Char} {s : String}

theorem splitOnce_append_sep (h : sep ∉ a) : splitOnce sep (a ++ sep :: l) = some (a, l) := by
  induction a
  case nil => simp [splitOnce]
  case cons b a hi =>
    rw [List.mem_cons, not_or] at h
    simp [splitOnce, Ne.symm h.left, hi h.right]

theorem stripCr_append_cons (hx : x ≠ '\r') : Text.stripCr (a ++ x :: l) = a ++ x :: Text.stripCr l := by
  induction l using List.reverseRecOn
  case nil => simp [Text.stripCr, hx]
  case append_singleton l y _ =>
    have hd : (a ++ x :: (l ++ [y])).dropLast = a ++ x :: l := by
      rw [← List.cons_append, ← List.append_assoc, List.dropLast_concat]
    have hg : (a ++ x :: (l ++ [y])).getLast? = some y := by
      rw [← List.cons_append, ← List.append_assoc, List.getLast?_concat]
    unfold Text.stripCr
    rw [hd, hg, List.getLast?_concat, List.dropLast_concat]
    split <;> rfl

theorem trim_eq_self (h : ∀ c ∈ s.toList, !Text.isWhitespace c) : Text.trim s = s := by
  have hd : s.toList.dropWhile Text.isWhitespace = s.toList := by
    rw [List.dropWhile_eq_self_iff]
    intro hl
    simpa using h _ (List.getElem_mem hl)
  have hr : s.toList.rdropWhile Text.isWhitespace = s.toList := by
    rw [List.rdropWhile_eq_self_iff]
    intro hl
    simpa using h _ (List.getLast_mem hl)
  rw [Text.trim, Text.trimChars, hd, hr, String.ofList_toList]

theorem parseLogLine_print : parseLogLine (.ofList (Text.stripCr c.print)) = c.read := by
  have hsha : '\x1f' ∉ c.sha.toList := fun h => (c.shaPlain _ h).right rfl
  have hdate : '\x1f' ∉ c.date.toList := fun h => (c.datePlain _ h).right rfl
  have hl : (Text.stripCr c.print) =
      c.sha.toList ++ '\x1f' :: (c.date.toList ++ '\x1f' :: Text.stripCr c.subject.toList) := by
    rw [GitCommit.print, stripCr_append_cons (by decide), stripCr_append_cons (by decide)]
  have hf : fields '\x1f' (Text.stripCr c.print) = c.read := by
    rw [hl, fields, splitOnce_append_sep hsha]
    simp only [Option.elim_some]
    rw [splitOnce_append_sep hdate]
    simp [GitCommit.read, trim_eq_self fun x hx => (c.shaPlain x hx).left,
      trim_eq_self fun x hx => (c.datePlain x hx).left, c.dateNe]
  rw [parseLogLine, String.toList_ofList, hf]
  rfl

theorem not_blank_print : Text.trim (.ofList (Text.stripCr c.print)) ≠ "" := by
  obtain ⟨x, hx⟩ := List.exists_mem_of_ne_nil c.sha.toList (by simpa using c.shaNe)
  rw [GitCommit.print, stripCr_append_cons (by decide), String.ofList_append, String.ofList_toList]
  exact Text.not_blank_append hx (c.shaPlain x hx).left

theorem newline_notMem_print : '\n' ∉ c.print := by
  have hsha : '\n' ∉ c.sha.toList := fun h => absurd (c.shaPlain _ h).left (by decide)
  have hdate : '\n' ∉ c.date.toList := fun h => absurd (c.datePlain _ h).left (by decide)
  simp [GitCommit.print, hsha, hdate, c.oneLine]

theorem parseLogCommits_text {log : GitLog} : parseLogCommits log.text = log.commits.map (·.read) := by
  have hn : ∀ l ∈ log.commits.map (·.print), '\n' ∉ l := List.forall_mem_map.mpr fun c _ => newline_notMem_print
  have hf : ((log.commits.map (·.print)).map fun l => String.ofList (Text.stripCr l)).filter
      (Text.trim · ≠ "") = (log.commits.map (·.print)).map fun l => String.ofList (Text.stripCr l) := by
    refine List.filter_eq_self.mpr fun s hs => decide_eq_true ?_
    obtain ⟨l, hl, rfl⟩ := List.mem_map.mp hs
    obtain ⟨c, -, rfl⟩ := List.mem_map.mp hl
    exact not_blank_print
  rw [parseLogCommits, GitLog.text, Text.lines_unlines hn, hf, List.map_map, List.map_map]
  refine List.map_congr_left fun c _ => ?_
  rw [Function.comp_apply, Function.comp_apply, parseLogLine_print]

end Parse

section Detect

variable (lower : Text.Lowercase) (parse : String → Option Int) (revertedSubjectOf : String → Option String)
  (deploys : List DeployRecord)

-- The subject mentions the ticket, or the one of the reverted commit if it mentions none.
def Mentions (c : GitCommit) (id : String) : Prop :=
  Names c.subject id ∨
    (∀ id', ¬Names c.subject id') ∧ ∃ text, revertedSubjectOf c.sha = some text ∧ Names text id

def IsRevert (c : GitCommit) : Prop :=
  isRevertSubject lower c.subject

-- A deploy of a ticket that the revert mentions, with the times of both.
structure Deployed (c : GitCommit) (d : DeployRecord) (revertAt at' : Int) : Prop where
  mentions : Mentions revertedSubjectOf c d.ticket.asStr
  revertAt : parseRfc3339 parse c.date = some revertAt
  at'      : parseRfc3339 parse d.at' = some at'

-- It happened at the time of the revert or before it, and not too long before.
def Undoes (window : Nat) (c : GitCommit) (d : DeployRecord) (gap : Nat) : Prop :=
  ∃ revertAt at', Deployed parse revertedSubjectOf c d revertAt at' ∧ revertAt = at' + gap ∧ gap ≤ window

-- It happened not too long before the revert or after it.
def IsNear (window : Nat) (c : GitCommit) (d : DeployRecord) (dist : Nat) : Prop :=
  ∃ revertAt at', Deployed parse revertedSubjectOf c d revertAt at' ∧ dist = (revertAt - at').natAbs ∧
    dist ≤ window

-- The first of the deploys that are nearest to the revert.
def Nearest (window : Nat) (c : GitCommit) (d : DeployRecord) : Prop :=
  ∃ before after dist, deploys = before ++ d :: after ∧ IsNear parse revertedSubjectOf window c d dist ∧
    (∀ d' ∈ before, ∀ dist', IsNear parse revertedSubjectOf window c d' dist' → dist < dist') ∧
    ∀ d' ∈ after, ∀ dist', IsNear parse revertedSubjectOf window c d' dist' → dist ≤ dist'

-- A deploy of the ticket is the work that the revert undoes, and no deploy of another one is closer.
def Attributed (window : Nat) (c : GitCommit) (ticket : String) : Prop :=
  ∃ d ∈ deploys, d.ticket.asStr = ticket ∧ ∃ gap, Undoes parse revertedSubjectOf window c d gap ∧
    ∀ d' ∈ deploys, ∀ gap', Undoes parse revertedSubjectOf window c d' gap' → gap ≤ gap'

variable {lower parse revertedSubjectOf deploys} {c : GitCommit} {d : DeployRecord} {window : Nat}
  {id : String} {l : List Char}

theorem names_iff {text : String} : Names text id ↔ id ∈ ticketIdsIn text :=
  mem_ticketIdsIn.symm

-- A carriage return at the end ends no word.
theorem names_stripCr : Names (.ofList (Text.stripCr l)) id ↔ Names (.ofList l) id := by
  unfold Text.stripCr
  split
  case isFalse => rfl
  case isTrue hl =>
    have he := List.dropLast_append_getLast? _ hl
    have hw : words fieldChars l = words fieldChars l.dropLast ++ [[]] := by
      conv_lhs => rw [← he]
      exact words_append_cons rfl (by decide)
    unfold Names
    rw [String.toList_ofList, String.toList_ofList, hw, List.mem_append, List.mem_singleton]
    refine and_congr_right fun hs => (or_iff_left fun hn => ?_).symm
    rw [hn] at hs
    contradiction

theorem mem_revertIds : id ∈ revertIds revertedSubjectOf c.read ↔ Mentions revertedSubjectOf c id := by
  have hsub (id : String) : id ∈ ticketIdsIn c.read.subject ↔ Names c.subject id := by
    rw [← names_iff, GitCommit.read, names_stripCr, String.ofList_toList]
  have hnil : ticketIdsIn c.read.subject = [] ↔ ∀ id, ¬Names c.subject id := by
    simp only [← hsub]
    exact List.eq_nil_iff_forall_not_mem
  unfold revertIds Mentions
  dsimp only
  split
  case isTrue hn =>
    have hn := hnil.mp hn
    rw [or_iff_right (hn id), and_iff_right hn]
    change id ∈ ((revertedSubjectOf c.sha).map ticketIdsIn).getD [] ↔ _
    cases revertedSubjectOf c.sha <;> simp [names_iff]
  case isFalse hn =>
    rw [hsub]
    exact (or_iff_left fun h => hn (hnil.mpr h.left)).symm

theorem isRevertSubject_read : isRevertSubject lower c.read.subject ↔ IsRevert lower c := by
  unfold IsRevert isRevertSubject GitCommit.read
  rw [Text.trim_stripCr, String.ofList_toList]

-- The deploy as the search keeps it.
theorem deploysNear_eq {ids : List String} {revertAt : Int} :
    deploysNear parse window deploys ids revertAt = deploys.filterMap fun d =>
      if ids.any (· = d.ticket.asStr) then
        ((parseRfc3339 parse d.at').map (d, ·)).filter fun (_, at') => (revertAt - at').natAbs ≤ window
      else
        none := by
  rw [deploysNear, List.filterMap_filter, List.filter_filterMap]
  refine List.filterMap_congr fun d _ => ?_
  split <;> rfl

theorem near_iff {revertAt at' : Int} {d' : DeployRecord} (hr : parseRfc3339 parse c.date = some revertAt) :
    (if (revertIds revertedSubjectOf c.read).any (· = d.ticket.asStr) then
        ((parseRfc3339 parse d.at').map (d, ·)).filter fun (_, at') => (revertAt - at').natAbs ≤ window
      else
        none) = some (d', at') ↔
      d = d' ∧ Deployed parse revertedSubjectOf c d revertAt at' ∧ (revertAt - at').natAbs ≤ window := by
  have hm : (revertIds revertedSubjectOf c.read).any (· = d.ticket.asStr) ↔
      Mentions revertedSubjectOf c d.ticket.asStr := by
    rw [← mem_revertIds]
    simp
  split
  case isTrue h =>
    have h := hm.mp h
    simp only [Option.filter_eq_some_iff, Option.map_eq_some_iff, Prod.mk.injEq, decide_eq_true_eq]
    constructor
    case mp  => exact fun ⟨⟨_, ha, hd, he⟩, hw⟩ => ⟨hd, ⟨h, hr, he ▸ ha⟩, hw⟩
    case mpr => exact fun ⟨hd, ha, hw⟩ => ⟨⟨at', ha.at', hd, rfl⟩, hw⟩
  case isFalse h =>
    have hn : ¬Deployed parse revertedSubjectOf c d revertAt at' := fun hd => h (hm.mpr hd.mentions)
    simp [hn]

-- What the search finds for a commit.
theorem detectRevert_read {h : RevertHit} :
    detectRevert lower parse revertedSubjectOf window deploys c.read = some h ↔
      IsRevert lower c ∧ ∃ d, Nearest parse revertedSubjectOf deploys window c d ∧
        h = ⟨c.sha, c.read.subject, c.date, d.ticket.asStr⟩ := by
  unfold detectRevert
  by_cases hrev : IsRevert lower c
  case neg =>
    have hs : isRevertSubject lower c.read.subject = false := by
      rw [← Bool.not_eq_true, isRevertSubject_read]
      exact hrev
    simp [hs, hrev]
  case pos =>
    have hdate : c.read.date.bind (parseRfc3339 parse) = parseRfc3339 parse c.date := rfl
    rw [isRevertSubject_read.mpr hrev, and_iff_right hrev, if_neg (by decide), hdate]
    cases hr : parseRfc3339 parse c.date with
    | none          =>
      have hn (d : DeployRecord) : ¬Nearest parse revertedSubjectOf deploys window c d := by
        rintro ⟨_, _, _, -, ⟨revertAt, at', hd, -⟩, -⟩
        simp [hd.revertAt] at hr
      simp [hn]
    | some revertAt =>
      have hat {d : DeployRecord} {dist : Nat} (hd : IsNear parse revertedSubjectOf window c d dist) :
          ∃ at', Deployed parse revertedSubjectOf c d revertAt at' ∧ dist = (revertAt - at').natAbs ∧
            dist ≤ window := by
        obtain ⟨r, at', hd, hdist, hw⟩ := hd
        obtain rfl : r = revertAt := Option.some.inj (hd.revertAt.symm.trans hr)
        exact ⟨at', hd, hdist, hw⟩
      simp only [deploysNear_eq, Option.map_eq_some_iff, Prod.exists, FirstBest.best_eq_some,
        FirstBest.leads_filterMap]
      constructor
      case mp =>
        rintro ⟨_, d, at', ⟨-, before, d', after, hl, hd, hlt, hle⟩, rfl⟩
        obtain ⟨rfl, hd, hw⟩ := (near_iff hr).mp hd
        refine ⟨d', ⟨before, after, _, hl, ⟨revertAt, at', hd, rfl, hw⟩, ?_, ?_⟩, rfl⟩
        case refine_1 =>
          intro b hb dist' hn
          obtain ⟨t, hd', rfl, hw'⟩ := hat hn
          have := hlt b hb (b, t) ((near_iff hr).mpr ⟨rfl, hd', hw'⟩)
          omega
        case refine_2 =>
          intro b hb dist' hn
          obtain ⟨t, hd', rfl, hw'⟩ := hat hn
          have := hle b hb (b, t) ((near_iff hr).mpr ⟨rfl, hd', hw'⟩)
          omega
      case mpr =>
        rintro ⟨d, ⟨before, after, dist, hl, hn, hlt, hle⟩, rfl⟩
        obtain ⟨at', hd, rfl, hw⟩ := hat hn
        refine ⟨_, d, at', ⟨rfl, before, d, after, hl, (near_iff hr).mpr ⟨rfl, hd, hw⟩, ?_, ?_⟩, rfl⟩
        case refine_1 =>
          rintro b hb ⟨d', t⟩ hg
          obtain ⟨rfl, hd', hw'⟩ := (near_iff hr).mp hg
          have := hlt b hb _ ⟨revertAt, t, hd', rfl, hw'⟩
          omega
        case refine_2 =>
          rintro b hb ⟨d', t⟩ hg
          obtain ⟨rfl, hd', hw'⟩ := (near_iff hr).mp hg
          have := hle b hb _ ⟨revertAt, t, hd', rfl, hw'⟩
          omega

-- Where the search finds nothing no deploy is near.
theorem not_isNear_of_none {dist : Nat} (hrev : IsRevert lower c)
    (h : detectRevert lower parse revertedSubjectOf window deploys c.read = none) (hd : d ∈ deploys) :
    ¬IsNear parse revertedSubjectOf window c d dist := by
  rintro ⟨revertAt, at', hdep, rfl, hw⟩
  have hdate : c.read.date.bind (parseRfc3339 parse) = some revertAt := hdep.revertAt
  rw [detectRevert, isRevertSubject_read.mpr hrev, if_neg (by decide), hdate] at h
  have hspec := FirstBest.best_spec (fun _ => true)
    (fun x : DeployRecord × Int => -((revertAt - x.2).natAbs : Int))
    (deploysNear parse window deploys (revertIds revertedSubjectOf c.read) revertAt)
  rw [Option.map_eq_none_iff.mp h, deploysNear_eq] at hspec
  refine hspec (d, at') (List.mem_filterMap.mpr ⟨d, hd, ?_⟩) rfl
  exact (near_iff hdep.revertAt).mpr ⟨rfl, hdep, hw⟩

theorem Undoes.isNear {gap : Nat} (h : Undoes parse revertedSubjectOf window c d gap) :
    IsNear parse revertedSubjectOf window c d gap := by
  obtain ⟨revertAt, at', hd, rfl, hw⟩ := h
  exact ⟨_, at', hd, by omega, hw⟩

end Detect

-- How many nanoseconds of a window there are.
def windowNanos (windowDays : Nat) : Nat :=
  nanosecond * (daySecs * windowDays)

def maxWindowDays : Nat := 106751991167300

section Log

variable (lower : Text.Lowercase) (parse : String → Option Int) (revertedSubjectOf : String → Option String)
  (deploys : List DeployRecord)

-- Every hit is a revert of the log with the ticket whose work it undoes, and every revert that undoes work
-- is one hit.
def RevertsAttributed (log : GitLog) (windowDays : Nat) : Prop :=
  ∃ hits, detectReverts lower parse revertedSubjectOf log.text deploys windowDays = some hits ∧
    (∀ h ∈ hits, ∃ c ∈ log.commits, c.sha = h.sha ∧ IsRevert lower c ∧
      Attributed parse revertedSubjectOf deploys (windowNanos windowDays) c h.ticket) ∧
    ∀ c ∈ log.commits, IsRevert lower c →
      (∃ d ∈ deploys, ∃ gap, Undoes parse revertedSubjectOf (windowNanos windowDays) c d gap) →
      hits.countP (·.sha = c.sha) = 1

-- The window is short enough, and for every revert the nearest deploy on either side is of a ticket whose
-- work it undoes.
def NearestUndone (log : GitLog) (windowDays : Nat) : Prop :=
  windowDays ≤ maxWindowDays ∧ ∀ c ∈ log.commits, IsRevert lower c →
    ∀ d, Nearest parse revertedSubjectOf deploys (windowNanos windowDays) c d →
      Attributed parse revertedSubjectOf deploys (windowNanos windowDays) c d.ticket.asStr

variable {lower parse revertedSubjectOf deploys} {log : GitLog} {windowDays : Nat}

theorem durationDays_eq : durationDays windowDays =
    if windowDays ≤ maxWindowDays then some (windowNanos windowDays) else none := by
  unfold durationDays maxWindowDays windowNanos i64Max daySecs
  split
  case isTrue  => grind
  case isFalse => grind

theorem detectReverts_text (h : windowDays ≤ maxWindowDays) :
    detectReverts lower parse revertedSubjectOf log.text deploys windowDays =
      some (log.commits.filterMap fun c =>
        detectRevert lower parse revertedSubjectOf (windowNanos windowDays) deploys c.read) := by
  rw [detectReverts, durationDays_eq, if_pos h, Option.map_some, parseLogCommits_text, List.filterMap_map,
    Function.comp_def]

-- Commits with shas of their own give hits with shas of their own.
theorem countP_filterMap {α β γ : Type} [DecidableEq γ] {f : α → Option β} {key : α → γ} {key' : β → γ}
    {l : List α} {a : α} {b : β} (hk : ∀ a b, f a = some b → key' b = key a) (hl : (l.map key).Nodup)
    (ha : a ∈ l) (hb : f a = some b) : (l.filterMap f).countP (key' · = key a) = 1 := by
  obtain ⟨m₁, m₂, rfl⟩ := List.append_of_mem ha
  rw [List.map_append, List.map_cons, List.nodup_middle, List.nodup_cons, List.mem_append, not_or] at hl
  have hz {m : List α} (hm : key a ∉ m.map key) : (m.filterMap f).countP (key' · = key a) = 0 := by
    rw [List.countP_eq_zero]
    intro b' hb' he
    obtain ⟨a', ha', hf⟩ := List.mem_filterMap.mp hb'
    exact hm (List.mem_map.mpr ⟨a', ha', (hk a' b' hf).symm.trans (of_decide_eq_true he)⟩)
  rw [List.filterMap_append, List.filterMap_cons_some hb, List.countP_append,
    List.countP_cons_of_pos (by simp [hk a b hb]), hz hl.left.left, hz hl.left.right]

theorem reverts_attributed_iff : RevertsAttributed lower parse revertedSubjectOf deploys log windowDays ↔
    NearestUndone lower parse revertedSubjectOf deploys log windowDays := by
  constructor
  case mp =>
    rintro ⟨hits, hd, hs, -⟩
    by_cases hw : windowDays ≤ maxWindowDays
    case neg =>
      rw [detectReverts, durationDays_eq, if_neg hw] at hd
      contradiction
    case pos =>
      refine ⟨hw, fun c hc hrev d hn => ?_⟩
      rw [detectReverts_text hw] at hd
      obtain rfl := Option.some.inj hd
      have hh : detectRevert lower parse revertedSubjectOf (windowNanos windowDays) deploys c.read =
          some ⟨c.sha, c.read.subject, c.date, d.ticket.asStr⟩ := detectRevert_read.mpr ⟨hrev, d, hn, rfl⟩
      obtain ⟨c', hc', hsha, -, ha⟩ := hs _ (List.mem_filterMap.mpr ⟨c, hc, hh⟩)
      obtain rfl := List.inj_on_of_nodup_map log.distinct hc' hc hsha
      exact ha
  case mpr =>
    intro ⟨hw, h⟩
    refine ⟨_, detectReverts_text hw, fun hit hm => ?_, fun c hc hrev ⟨d, hd, gap, hu⟩ => ?_⟩
    case refine_1 =>
      obtain ⟨c, hc, hhit⟩ := List.mem_filterMap.mp hm
      obtain ⟨hrev, d, hn, rfl⟩ := detectRevert_read.mp hhit
      exact ⟨c, hc, rfl, hrev, h c hc hrev d hn⟩
    case refine_2 =>
      cases hr : detectRevert lower parse revertedSubjectOf (windowNanos windowDays) deploys c.read with
      | none     => exact absurd hu.isNear (not_isNear_of_none hrev hr hd)
      | some hit =>
        have hk (c : GitCommit) (hit : RevertHit) (hh : detectRevert lower parse revertedSubjectOf
            (windowNanos windowDays) deploys c.read = some hit) : hit.sha = c.sha := by
          obtain ⟨-, d, -, rfl⟩ := detectRevert_read.mp hh
          rfl
        exact countP_filterMap hk log.distinct hc hr

end Log

-- A revert of work that is deployed a day later.
def laterDeploy : List DeployRecord :=
  [{ version := {}, ticket := ⟨"CXA-F041"⟩, title := "add widget", at' := "2026-08-21T12:00:00Z" }]

def widgetRevert : GitLog where
  commits  := [{
    sha       := "c0ffee1"
    date      := "2026-08-20T12:00:00Z"
    subject   := "Revert \"feat(CXA-F041): add widget\""
    shaNe     := by decide
    shaPlain  := by simp [Text.isWhitespace]
    dateNe    := by decide
    datePlain := by simp [Text.isWhitespace]
    oneLine   := by decide
  }]
  distinct := by decide

theorem not_reverts_attributed : ¬∀ (lower : Text.Lowercase) (parse : String → Option Int)
    (revertedSubjectOf : String → Option String) (deploys : List DeployRecord) (log : GitLog)
    (windowDays : Nat), RevertsAttributed lower parse revertedSubjectOf deploys log windowDays := by
  intro h
  let parse : String → Option Int := fun s =>
    if s = "2026-08-20T12:00:00Z" then some 0
    else if s = "2026-08-21T12:00:00Z" then some (windowNanos 1)
    else none
  obtain ⟨hits, hd, hs, -⟩ := h .ascii parse (fun _ => none) laterDeploy widgetRevert 30
  have hhits : detectReverts .ascii parse (fun _ => none) widgetRevert.text laterDeploy 30 =
      some [⟨"c0ffee1", "Revert \"feat(CXA-F041): add widget\"", "2026-08-20T12:00:00Z", "CXA-F041"⟩] := by
    decide +kernel
  obtain rfl := Option.some.inj (hd.symm.trans hhits)
  obtain ⟨c, hc, -, -, d, hdm, -, gap, ⟨revertAt, at', hdep, hgap, -⟩, -⟩ := hs _ (List.mem_singleton_self _)
  obtain rfl := List.mem_singleton.mp hc
  obtain rfl := List.mem_singleton.mp hdm
  have hr : revertAt = 0 := Option.some.inj (hdep.revertAt.symm.trans (by decide +kernel))
  have ht : at' = windowNanos 1 := Option.some.inj (hdep.at'.symm.trans (by decide +kernel))
  rw [hr, ht] at hgap
  have hpos : 0 < windowNanos 1 := by decide
  omega

end RevertLearning
