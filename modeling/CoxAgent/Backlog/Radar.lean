import CoxAgent.Backlog.AddTicket
import CoxAgent.Lib.UnitFloat
import Mathlib.Data.Prod.Lex
import Mathlib.Data.String.Basic

-- What the radar sees of a ticket.
structure TicketSnapshot where
  projectId   : String
  projectName : String
  ticketId    : String
  title       : String
  scope       : String        := ""
  serviceTag  : Option String := none
deriving DecidableEq, Repr

structure RadarTicket where
  projectId   : String
  projectName : String
  ticketId    : String
  title       : String
  scope       : String
  score       : Option ℚ
deriving DecidableEq

structure DuplicatePair where
  home            : RadarTicket
  dups            : List RadarTicket
  normalizedTitle : String
deriving DecidableEq

namespace Radar

def dupeThreshold : ℚ := UnitFloat.round (3 / 5)

def sameTagMaxDissimilarity : ℚ := UnitFloat.round (1 / 5)

-- Normalised titles with fewer bytes are noise.
def minTitleLen : Nat := 4

-- The key of a pair in the allowlist, in whatever order its tickets are given.
def pairKey (a b : String × String) : String :=
  let ka := a.1 ++ "/" ++ a.2
  let kb := b.1 ++ "/" ++ b.2
  if ka ≤ kb then ka ++ "|" ++ kb else kb ++ "|" ++ ka

def sameServiceTag (a b : TicketSnapshot) : Bool :=
  match a.serviceTag, b.serviceTag with
  | some x, some y => (Text.trim x).toList.map (·.toLower) = (Text.trim y).toList.map (·.toLower)
  | _, _           => false

-- Shared infrastructure may have nearly the same title in several projects.
def sameTagExempt (a b : TicketSnapshot) (score : ℚ) : Bool :=
  sameServiceTag a b && decide (UnitFloat.sub 1 score ≤ sameTagMaxDissimilarity)

structure Entry where
  snap : TicketSnapshot
  norm : String
  toks : List String
deriving DecidableEq

def entries (snapshots : List TicketSnapshot) : List Entry :=
  snapshots.map (fun s => { snap := s, norm := normalizeTitle s.title, toks := titleTokens s.title })
    |>.filter (·.norm.utf8ByteSize ≥ minTitleLen)

def key (s : TicketSnapshot) : String × String :=
  (s.projectId, s.ticketId)

def allowlisted (allowed : List String) (a b : TicketSnapshot) : Bool :=
  allowed.contains (pairKey (key a) (key b))

-- What members of a group and sides of a pair are ordered by.
def side (s : TicketSnapshot) : Lex (String × String) :=
  toLex (s.projectName, s.ticketId)

def radarHome (s : TicketSnapshot) : RadarTicket :=
  { s with score := none }

def radarDup (score : ℚ) (s : TicketSnapshot) : RadarTicket :=
  { s with score := some score }

-- The entry of the group of a normalised title, with the places that it hides from the second pass.
def collapseTitle (entries : List Entry) (allowed : List String) (norm : String) :
    Option (DuplicatePair × List Nat) :=
  let idxs := entries.zipIdx.filter (·.1.norm = norm)
  let members := idxs.mergeSort fun x y => side x.1.snap ≤ side y.1.snap
  if idxs.length < 2 then
    none
  else if (members.map (·.1.snap.projectId)).dedup.length < 2 then
    none
  else
    match members with
    | []           => none
    | home :: rest =>
      let dups := rest.filter fun m =>
        m.1.snap.projectId ≠ home.1.snap.projectId && !sameTagExempt home.1.snap m.1.snap 1 &&
          !allowlisted allowed home.1.snap m.1.snap
      if dups = [] then
        none
      else
        some ({
          home            := radarHome home.1.snap
          dups            := dups.map fun m => radarDup 1 m.1.snap
          normalizedTitle := home.1.norm
        }, home.2 :: dups.map (·.2))

-- One entry for each title that several projects filed. The titles come in the order of the hash map.
def collapseIdenticalTitles (entries : List Entry) (allowed norms : List String) :
    List DuplicatePair × List Nat :=
  let groups := norms.filterMap (collapseTitle entries allowed)
  (groups.map (·.1), groups.flatMap (·.2))

def paraphrase (allowed : List String) (a b : Entry) : Option DuplicatePair :=
  let score := UnitFloat.div (jaccard a.toks b.toks).1 (jaccard a.toks b.toks).2
  if b.norm = a.norm then
    none
  else if score < dupeThreshold then
    none
  else if sameTagExempt a.snap b.snap score then
    none
  else if allowlisted allowed a.snap b.snap then
    none
  else
    let (home, dup) := if side a.snap ≤ side b.snap then (a.snap, b.snap) else (b.snap, a.snap)
    some {
      home            := radarHome home
      dups            := [radarDup score dup]
      normalizedTitle := normalizeTitle home.title
    }

-- The pairs of an entry that is not hidden with those behind it.
def paraphrasePairs (entries : List Entry) (allowed : List String) (collapsed : List Nat) :
    List DuplicatePair :=
  entries.zipIdx.flatMap fun (a, i) =>
    if i ∈ collapsed then [] else (entries.drop (i + 1)).filterMap (paraphrase allowed a)

-- The order of the titles in the hash map is arbitrary.
def HashOrder (snapshots : List TicketSnapshot) (norms : List String) : Prop :=
  norms.Perm ((entries snapshots).map (·.norm)).dedup

def findCrossProjectDuplicates (norms : List String) (snapshots : List TicketSnapshot)
    (allowed : List String) : List DuplicatePair :=
  let entries := entries snapshots
  let (out, collapsed) := collapseIdenticalTitles entries allowed norms
  (out ++ paraphrasePairs entries allowed collapsed).mergeSort fun x y =>
    toLex (x.home.projectName, x.home.title) ≤ toLex (y.home.projectName, y.home.title)

end Radar
