import CoxAgent.Backlog.AddTicket
import CoxAgent.Cycle.Reverts
import CoxAgent.Forge.Policy
import CoxAgent.Release.Theorems.Refs

-- Which of the minted ids the readers of titles and commit subjects recognise.

open Scan

-- A title or subject that names its ticket.
def conventional (kind : String) (id : TicketId) (text : String) : String :=
  kind ++ "(" ++ id.asStr ++ "): " ++ text

-- The id is what the policy for pull requests reads, and both releases and the search for reverts see it.
structure Recognised (title : String) (id : TicketId) : Prop where
  policy     : ticketIdIn title = some id.asStr
  candidates : ∃ refs, ReleaseCandidates.extractTicketRefs title = some refs ∧ id.asStr ∈ refs
  assembly   : ∃ refs, ReleaseAssembly.extractTicketRefs title = some refs ∧ id.asStr ∈ refs
  reverts    : id.asStr ∈ RevertLearning.ticketIdsIn title

-- An alias of two to ten capitals, with a number that does not make the id too long for the search.
structure Recognisable («alias» : String) (number : Nat) : Prop where
  upper  : «alias».toList.all (·.isUpper)
  short  : 2 ≤ «alias».length
  long   : «alias».length ≤ 10
  digits : (Text.zeroPad 3 number).length ≤ 11
  total  : «alias».length + (Text.zeroPad 3 number).length ≤ 15

namespace RevertLearning

variable {cs token p q : List Char} {ids : List String} {id : String}

theorem mem_flush : id ∈ flush token ids ↔ id ∈ ids ∨ isTicketShaped id.toList ∧ id.toList = token := by
  have hid : id.toList = token ↔ id = .ofList token := by
    constructor
    case mp  => exact fun h => by rw [← h, String.ofList_toList]
    case mpr => exact fun h => by rw [h, String.toList_ofList]
  have hshaped : isTicketShaped id.toList ∧ id.toList = token ↔ isTicketShaped token ∧ id = .ofList token := by
    rw [← hid]
    exact and_congr_left fun h => by rw [h]
  rw [hshaped, flush]
  split
  case isTrue h  => simp [h.left]
  case isFalse h =>
    rw [not_and_not_right] at h
    exact (or_iff_left_of_imp fun hi => hi.right ▸ h hi.left).symm

-- The search goes over the words of the text.
theorem mem_ticketIdsFrom (ht : ∀ c ∈ token, fieldChars.isField c ∨ c = fieldChars.dash) :
    id ∈ ticketIdsFrom ids token cs ↔
      id ∈ ids ∨ isTicketShaped id.toList ∧ id.toList ∈ words fieldChars (token ++ cs) := by
  induction cs generalizing ids token
  case nil => rw [List.append_nil, ticketIdsFrom, mem_flush, words_of_forall ht, List.mem_singleton]
  case cons c cs hi =>
    rw [ticketIdsFrom]
    split
    case isTrue hc =>
      have ht' : ∀ x ∈ token ++ [c], fieldChars.isField x ∨ x = fieldChars.dash :=
        List.forall_mem_append.mpr ⟨ht, List.forall_mem_singleton.mpr hc⟩
      rw [hi ht', List.append_assoc, List.singleton_append]
    case isFalse hc =>
      rw [not_or, Bool.not_eq_true] at hc
      rw [hi (by simp), mem_flush, words_append_cons hc.left hc.right, words_of_forall ht,
        List.singleton_append, List.mem_cons, List.nil_append, and_or_left, or_assoc]

theorem mem_ticketIdsIn {text : String} :
    id ∈ ticketIdsIn text ↔ isTicketShaped id.toList ∧ id.toList ∈ words fieldChars text.toList := by
  simp [ticketIdsIn, mem_ticketIdsFrom]

theorem splitOnce_append (hp : '-' ∉ p) : splitOnce '-' (p ++ '-' :: q) = some (p, q) := by
  induction p
  case nil => rfl
  case cons c p hi =>
    rw [List.mem_cons, not_or] at hp
    simp [splitOnce, Ne.symm hp.left, hi hp.right]

theorem of_splitOnce (h : splitOnce '-' token = some (p, q)) : token = p ++ '-' :: q := by
  induction token generalizing p
  case nil => contradiction
  case cons c token hi =>
    rw [splitOnce] at h
    split at h
    case isTrue hc =>
      cases h
      rw [hc, List.nil_append]
    case isFalse =>
      obtain ⟨v, hv, he⟩ := Option.map_eq_some_iff.mp h
      cases he
      rw [hi hv, List.cons_append]

section Shape

variable {a digits : List Char} {c : Char}

theorem upperOrDigit_iff : upperOrDigit p ↔ ∀ c ∈ p, c.isUpper ∨ c.isDigit := by
  simp [upperOrDigit]

theorem dash_not_mem_of_upperOrDigit (h : upperOrDigit p) : '-' ∉ p :=
  fun hd => absurd (upperOrDigit_iff.mp h _ hd) (by decide)

-- The token that a shaped id is, after the code is read off behind the first dash.
theorem isTicketShaped_append (hp : '-' ∉ p) :
    isTicketShaped (p ++ '-' :: q) ↔
      p ≠ [] ∧ p.length ≤ 10 ∧ (∀ c ∈ p, c.isUpper) ∧ (p ++ '-' :: q).length ≤ 17 ∧
        2 ≤ q.length ∧ q.length ≤ 12 ∧ q.head?.any (·.isUpper) ∧ q.getLast?.any (·.isDigit) ∧
        upperOrDigit q := by
  rw [isTicketShaped, splitOnce_append hp]
  have hlen : 2 ≤ q.length → 2 ≤ (p ++ '-' :: q).length := fun h => by simp; omega
  have hupper : (∀ c ∈ p, c.isUpper) → upperOrDigit p := fun h =>
    upperOrDigit_iff.mpr fun c hc => .inl (h c hc)
  simp only [Bool.and_eq_true, decide_eq_true_eq, List.all_eq_true]
  tauto

theorem of_isTicketShaped (h : isTicketShaped token) :
    ∃ p q, token = p ++ '-' :: q ∧ (∀ c ∈ p, c.isUpper) ∧ upperOrDigit q := by
  rw [isTicketShaped] at h
  split at h
  case h_1 => contradiction
  case h_2 p q hs =>
    simp only [Bool.and_eq_true, List.all_eq_true] at h
    exact ⟨p, q, of_splitOnce hs, by tauto, h.right⟩

theorem isTicketShaped_iff (hc : c.isUpper) (hne : digits ≠ []) (hd : ∀ c ∈ digits, c.isDigit) :
    isTicketShaped (a ++ '-' :: c :: digits) ↔
      (∀ c ∈ a, c.isUpper) ∧ a ≠ [] ∧ a.length ≤ 10 ∧ digits.length ≤ 11 ∧ a.length + digits.length ≤ 15 := by
  have hcode : upperOrDigit (c :: digits) :=
    upperOrDigit_iff.mpr (List.forall_mem_cons.mpr ⟨.inl hc, fun c h => .inr (hd c h)⟩)
  have hlast : (c :: digits).getLast?.any (·.isDigit) := by
    rw [List.getLast?_cons, List.getLast?_eq_some_getLast hne]
    exact hd _ (List.getLast_mem hne)
  by_cases hdash : '-' ∈ a
  case pos =>
    -- A dash in the alias leaves one in the code.
    constructor
    case mpr => exact fun h => absurd (h.left _ hdash) (by decide)
    case mp =>
      intro h
      obtain ⟨p, q, heq, hp, hq⟩ := of_isTicketShaped h
      have ha : a = p := (Text.append_sep_inj (dash_not_mem_of_upperOrDigit hcode)
        (dash_not_mem_of_upperOrDigit hq) heq).left
      exact absurd (hp _ (ha ▸ hdash)) (by decide)
  case neg =>
    have hpos : 0 < digits.length := List.length_pos_of_ne_nil hne
    rw [isTicketShaped_append hdash]
    simp only [hcode, hlast, List.head?_cons, Option.any_some, hc, List.length_append, List.length_cons]
    constructor
    case mp  => exact fun ⟨hne, hlen, hup, htotal, _, hcode, _⟩ => ⟨hup, hne, hlen, by omega, by omega⟩
    case mpr =>
      exact fun ⟨hup, hne, hlen, hdigits, htotal⟩ =>
        ⟨hne, hlen, hup, by omega, by omega, by omega, trivial, trivial, trivial⟩

end Shape

end RevertLearning

section Policy

variable {cs a b l kind : List Char} {r : String}

theorem of_ticketIdAt (h : ticketIdAt cs = some r) :
    ∃ letters digits, r.toList = letters ++ '-' :: digits ∧ 2 ≤ letters.length ∧
      ∀ c ∈ digits, c.isAlphanum := by
  simp only [ticketIdAt] at h
  split at h
  case isTrue => contradiction
  case isFalse hlen =>
    split at h
    case h_2 => contradiction
    case h_1 tail _ =>
      split at h
      case isFalse => contradiction
      case isTrue =>
        cases h
        exact ⟨_, _, String.toList_ofList, by omega, fun c hc => List.mem_takeWhile_imp hc⟩

theorem ticketIdAt_id (ha : ∀ c ∈ a, c.isUpper) (hlen : 2 ≤ a.length) (hb : ∀ c ∈ b, c.isAlphanum)
    (hd : b.any (·.isDigit)) (hl : Ends fieldChars l) :
    ticketIdAt (a ++ '-' :: (b ++ l)) = some (.ofList (a ++ '-' :: b)) := by
  have hletters : (a ++ '-' :: (b ++ l)).takeWhile (·.isUpper) = a := by
    rw [List.takeWhile_append_of_pos ha]
    simp
  have hdrop : (a ++ '-' :: (b ++ l)).drop a.length = '-' :: (b ++ l) := List.drop_left
  have hshort : ¬a.length < 2 := by omega
  simp only [ticketIdAt, hletters, hdrop, if_neg hshort, takeWhile_field hb hl, hd, if_true]

-- No id starts in a text without a dash.
theorem ticketIdAt_before (hk : '-' ∉ kind) : ticketIdAt (kind ++ '(' :: cs) = none := by
  have hletters : (kind ++ '(' :: cs).takeWhile (·.isUpper) <+: kind := by
    rw [List.takeWhile_append]
    split
    case isTrue  => simp
    case isFalse => exact List.takeWhile_prefix _
  rw [ticketIdAt]
  obtain ⟨rest, hrest⟩ := hletters
  generalize hl : (kind ++ '(' :: cs).takeWhile (·.isUpper) = letters at hrest
  have hdrop : (kind ++ '(' :: cs).drop letters.length = rest ++ '(' :: cs :=
    drop_of_append (by rw [← List.append_assoc, hrest])
  simp only [hdrop]
  cases rest
  case nil => simp
  case cons c rest =>
    have hc : c ≠ '-' := fun h => hk (by simp [← hrest, h])
    simp [hc]

theorem findSome?_tails_append (hk : '-' ∉ kind) :
    (kind ++ '(' :: cs).tails.findSome? ticketIdAt = cs.tails.findSome? ticketIdAt := by
  induction kind
  case nil =>
    have hn : ticketIdAt ('(' :: cs) = none := ticketIdAt_before hk
    rw [List.nil_append, List.tails_cons, List.findSome?_cons, hn]
  case cons c kind hi =>
    rw [List.cons_append, List.tails_cons, List.findSome?_cons, ← List.cons_append, ticketIdAt_before hk]
    exact hi fun h => hk (List.mem_cons_of_mem _ h)

theorem findSome?_tails (h : ticketIdAt cs = some r) : cs.tails.findSome? ticketIdAt = some r := by
  cases cs
  case nil      => contradiction
  case cons c l => rw [List.tails_cons, List.findSome?_cons, h]

theorem of_ticketIdIn {title : String} (h : ticketIdIn title = some r) :
    ∃ letters digits, r.toList = letters ++ '-' :: digits ∧ 2 ≤ letters.length ∧
      ∀ c ∈ digits, c.isAlphanum := by
  obtain ⟨_, _, hcs⟩ := List.exists_of_findSome?_eq_some h
  exact of_ticketIdAt hcs

end Policy

section Minted

variable {s : ProjectState} {type : TicketType} {id : TicketId} {a digits : List Char}
  {kind text : String}

theorem isUpper_typeCode : (typeCode type).isUpper := by
  cases type <;> rfl

-- A minted id is the code of its type with a number, after the alias and a dash if there is an alias.
theorem mintId_toList (h : mintId type s = .ok id) :
    id.asStr.toList =
      if s.alias = "" then
        typeCode type :: Text.zeroPad 3 ((highest s type + 1) % 2 ^ 64)
      else
        s.alias.toList ++ '-' :: typeCode type :: Text.zeroPad 3 ((highest s type + 1) % 2 ^ 64) := by
  simp only [mintId, TicketId.new] at h
  split at h
  case isTrue => contradiction
  case isFalse =>
    cases h
    rw [idPrefix]
    split <;> simp

theorem toList_conventional :
    (conventional kind id text).toList =
      kind.toList ++ '(' :: (id.asStr.toList ++ ')' :: ':' :: ' ' :: text.toList) := by
  simp [conventional]

theorem mem_ticketRefs {found : List (List Char)} {ref : List Char} (h : ref ∈ found)
    (hu : ∀ c ∈ ref, c.toUpper = c) (hid : id.asStr.toList = ref) :
    ∃ refs, ticketRefs found = some refs ∧ id.asStr ∈ refs := by
  have hmem : id.asStr ∈ found.map fun ref => String.ofList (ref.map (·.toUpper)) := by
    refine List.mem_map.mpr ⟨ref, h, ?_⟩
    rw [List.map_congr_left hu, List.map_id', ← hid, String.ofList_toList]
  exact ⟨_, if_neg (List.ne_nil_of_mem hmem), hmem⟩

theorem isAlphanum_of_upperOrDigit {c : Char} (h : c.isUpper ∨ c.isDigit) : c.isAlphanum := by
  rcases h with h | h <;> simp [Char.isAlphanum, isAlpha_iff, h]

theorem toUpper_of_upperOrDigit {c : Char} (h : c.isUpper ∨ c.isDigit) : c.toUpper = c := by
  have hc : ¬('a'.val ≤ c.val ∧ c.val ≤ 'z'.val) := by
    rw [isUpper_iff, isDigit_iff] at h
    rintro ⟨hl : 97 ≤ c.toNat, -⟩
    omega
  exact dif_neg hc

section Id

variable {code : List Char} (ha : ∀ c ∈ a, c.isUpper ∨ c.isDigit) (hc : ∀ c ∈ code, c.isUpper ∨ c.isDigit)
  (hid : id.asStr.toList = a ++ '-' :: code)
include ha hc hid

theorem id_mem_words : a ++ '-' :: code ∈ words fieldChars (conventional kind id text).toList := by
  rw [toList_conventional, hid]
  refine mem_words ?_ (by decide) (by decide) (by decide) (by decide)
  rw [List.forall_mem_append, List.forall_mem_cons]
  exact ⟨fun c h => .inl (isAlphanum_of_upperOrDigit (ha c h)), .inr rfl,
    fun c h => .inl (isAlphanum_of_upperOrDigit (hc c h))⟩

theorem id_mem_marksIn {isMark : List Char → List Char → Bool} {greedy : Bool} (hm : isMark a code) :
    a ++ '-' :: code ∈ marksIn fieldChars isMark greedy (conventional kind id text).toList := by
  have dash {b : List Char} (hb : ∀ c ∈ b, c.isUpper ∨ c.isDigit) : fieldChars.dash ∉ b :=
    fun h => absurd (hb _ h) (by decide)
  refine List.mem_flatMap.mpr ⟨_, id_mem_words ha hc hid, ?_⟩
  exact (marks_pair (dash ha) (dash hc) hm).symm ▸ List.mem_singleton_self _

-- A reader that takes the two parts for a ref has the id among its refs.
theorem id_mem_refs {isMark : List Char → List Char → Bool} {greedy : Bool} (hm : isMark a code) :
    ∃ refs, ticketRefs (marksIn fieldChars isMark greedy (conventional kind id text).toList) = some refs ∧
      id.asStr ∈ refs := by
  refine mem_ticketRefs (id_mem_marksIn ha hc hid hm) ?_ hid
  rw [List.forall_mem_append, List.forall_mem_cons]
  exact ⟨fun c h => toUpper_of_upperOrDigit (ha c h), rfl, fun c h => toUpper_of_upperOrDigit (hc c h)⟩

end Id

section Readers

variable (hd : ∀ c ∈ digits, c.isDigit) (hne : digits ≠ [])
include hd hne

theorem any_isDigit : (typeCode type :: digits).any (·.isDigit) := by
  obtain ⟨d, hm⟩ := List.exists_mem_of_ne_nil digits hne
  exact List.any_eq_true.mpr ⟨d, List.mem_cons_of_mem _ hm, hd d hm⟩

theorem candidates_isRef (ha : ∀ c ∈ a, c.isUpper) (hlen : 2 ≤ a.length) :
    ReleaseCandidates.isRef a (typeCode type :: digits) := by
  have hdigit := @any_isDigit type digits hd hne
  have halpha : a.all (·.isAlpha) := List.all_eq_true.mpr fun c hc => by simp [isAlpha_iff, ha c hc]
  simp [ReleaseCandidates.isRef, ReleaseCandidates.idLike, hlen, halpha, hdigit]

theorem assembly_isRef (ha : ∀ c ∈ a, c.isUpper) (hlen : 2 ≤ a.length) :
    ReleaseAssembly.isRef a (typeCode type :: digits) := by
  have hcode : ReleaseAssembly.codeAt (typeCode type :: digits) = ([typeCode type], digits) := by
    have hself : digits.takeWhile (·.isDigit) = digits := List.takeWhile_eq_self_iff.mpr hd
    have hc : (typeCode type).isAlpha := by simp [isAlpha_iff, isUpper_typeCode]
    obtain ⟨d, ds, rfl⟩ := List.exists_cons_of_ne_nil hne
    have hd' : d.isAlpha = false := isAlpha_of_isDigit (hd d (by simp))
    simp [ReleaseAssembly.codeAt, hc, hd', hself]
  have halpha : a.all (·.isAlpha) := List.all_eq_true.mpr fun c hc => by simp [isAlpha_iff, ha c hc]
  have hne' : a ≠ [] := List.ne_nil_of_length_pos (by omega)
  simp [ReleaseAssembly.isRef, ReleaseAssembly.isCode, hcode, halpha, hne, hne']

end Readers

theorem zeroPad_mem_isDigit {n : Nat} : ∀ c ∈ Text.zeroPad 3 n, c.isDigit :=
  fun _ => Text.isDigit_of_mem_zeroPad

theorem code_upperOrDigit {n : Nat} : ∀ c ∈ typeCode type :: Text.zeroPad 3 n, c.isUpper ∨ c.isDigit :=
  List.forall_mem_cons.mpr ⟨.inl isUpper_typeCode, fun c hc => .inr (zeroPad_mem_isDigit c hc)⟩

theorem dash_not_mem_code {n : Nat} : '-' ∉ typeCode type :: Text.zeroPad 3 n :=
  fun h => absurd (code_upperOrDigit _ h) (by decide)

theorem recognisable_of_recognised (hm : mintId type s = .ok id)
    (h : Recognised (conventional kind id text) id) :
    Recognisable s.alias ((highest s type + 1) % 2 ^ 64) := by
  have hid := mintId_toList hm
  obtain ⟨letters, tail, heq, hlen, htail⟩ := of_ticketIdIn h.policy
  split at hid
  case isTrue =>
    -- Without an alias the id has no dash.
    have hmem : '-' ∈ letters ++ '-' :: tail := List.mem_append_right _ List.mem_cons_self
    rw [← heq, hid] at hmem
    exact absurd hmem dash_not_mem_code
  case isFalse =>
    rw [hid] at heq
    have hshape := (RevertLearning.mem_ticketIdsIn.mp h.reverts).left
    rw [hid, RevertLearning.isTicketShaped_iff isUpper_typeCode Text.zeroPad_ne_nil zeroPad_mem_isDigit] at hshape
    obtain ⟨hup, -, hlong, hdigits, htotal⟩ := hshape
    have htail' : '-' ∉ tail := fun h => absurd (htail _ h) (by decide)
    have hletters := (Text.append_sep_inj dash_not_mem_code htail' heq).left
    rw [← hletters] at hlen
    exact ⟨List.all_eq_true.mpr hup, hlen, hlong, hdigits, htotal⟩

-- Such an id at the front of a title is what the policy reads.
theorem ticketIdIn_conventional (hk : '-' ∉ kind.toList) (hm : mintId type s = .ok id)
    (hup : ∀ c ∈ s.alias.toList, c.isUpper) (hlen : 2 ≤ s.alias.toList.length) :
    ticketIdIn (conventional kind id text) = some id.asStr := by
  have hid := mintId_toList hm
  have hne : s.alias ≠ "" := by
    intro he
    exact absurd hlen (by simp [he])
  rw [if_neg hne] at hid
  have hat := ticketIdAt_id (b := typeCode type :: Text.zeroPad 3 ((highest s type + 1) % 2 ^ 64))
    (l := ')' :: ':' :: ' ' :: text.toList) hup hlen
    (fun c hc => isAlphanum_of_upperOrDigit (code_upperOrDigit c hc))
    (any_isDigit zeroPad_mem_isDigit Text.zeroPad_ne_nil) (by simp [Ends, fieldChars])
  rw [← hid, String.ofList_toList] at hat
  rw [ticketIdIn, toList_conventional, findSome?_tails_append hk, hid, List.append_assoc]
  exact findSome?_tails hat

theorem recognised_of_recognisable (hk : '-' ∉ kind.toList) (hm : mintId type s = .ok id)
    (h : Recognisable s.alias ((highest s type + 1) % 2 ^ 64)) :
    Recognised (conventional kind id text) id := by
  have hid := mintId_toList hm
  have hne : s.alias ≠ "" := by
    intro he
    exact absurd h.short (by simp [he])
  rw [if_neg hne] at hid
  have hup : ∀ c ∈ s.alias.toList, c.isUpper := List.all_eq_true.mp h.upper
  have hup' : ∀ c ∈ s.alias.toList, c.isUpper ∨ c.isDigit := fun c hc => .inl (hup c hc)
  have hlen : 2 ≤ s.alias.toList.length := h.short
  constructor
  case policy => exact ticketIdIn_conventional hk hm hup hlen
  case candidates =>
    rw [ReleaseCandidates.extractTicketRefs_eq]
    exact id_mem_refs hup' code_upperOrDigit hid
      (candidates_isRef zeroPad_mem_isDigit Text.zeroPad_ne_nil hup hlen)
  case assembly =>
    rw [ReleaseAssembly.extractTicketRefs_eq]
    exact id_mem_refs hup' code_upperOrDigit hid
      (assembly_isRef zeroPad_mem_isDigit Text.zeroPad_ne_nil hup hlen)
  case reverts =>
    refine RevertLearning.mem_ticketIdsIn.mpr ⟨?_, hid ▸ id_mem_words hup' code_upperOrDigit hid⟩
    rw [hid, RevertLearning.isTicketShaped_iff isUpper_typeCode Text.zeroPad_ne_nil zeroPad_mem_isDigit]
    exact ⟨hup, List.ne_nil_of_length_pos (by omega), h.long, h.digits, h.total⟩

-- The ids of a project with such an alias are recognised by all readers, up to the number, and no other
-- ids are. Only a kind with a dash could hold another id before the ticket's.
theorem ProjectState.minted_recognised_iff (hk : '-' ∉ kind.toList) (hm : mintId type s = .ok id) :
    Recognised (conventional kind id text) id ↔
      Recognisable s.alias ((highest s type + 1) % 2 ^ 64) :=
  ⟨recognisable_of_recognised hm, recognised_of_recognisable hk hm⟩

theorem ProjectState.minted_recognised_cxc :
    Recognised "feat(CXC-F001): add" ⟨"CXC-F001"⟩ ↔ Recognisable "CXC" 1 :=
  @ProjectState.minted_recognised_iff { «alias» := "CXC" } .feature ⟨"CXC-F001"⟩ "feat" "add" (by decide)
    (by decide)

-- The ids of a project without an alias are recognised by none of the readers.
theorem ProjectState.not_minted_recognised :
    mintId .feature {} = .ok ⟨"F001"⟩ ∧ ¬Recognised "feat(F001): add" ⟨"F001"⟩ ∧
      ticketIdIn "feat(F001): add" = none ∧
      ReleaseCandidates.extractTicketRefs "feat(F001): add" = none ∧
      ReleaseAssembly.extractTicketRefs "feat(F001): add" = none ∧
      RevertLearning.ticketIdsIn "feat(F001): add" = [] := by
  have hp : ticketIdIn "feat(F001): add" = none := by decide
  refine ⟨by decide, ?_, hp, by decide, by decide, by decide⟩
  intro h
  cases hp.symm.trans h.policy

end Minted
