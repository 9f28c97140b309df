import CoxAgent.Audit.Sink

-- The path of hashes that leads from `prev` through the rows.
def Linked (prev : String) : List ChainedEntry → Prop
  | []          => True
  | row :: rows => row.prev = prev ∧ Linked row.hash rows

namespace ChainedEntry

-- The part of the text between the anchors.
def body (row : ChainedEntry) : String :=
  row.at' ++ "\n" ++ row.user ++ "\n" ++ row.action

-- Two rows that the chain cannot tell apart. They differ at most in where the body is split.
structure Retells (row row' : ChainedEntry) : Prop where
  prev   : row.prev = row'.prev
  body   : row.body = row'.body
  status : row.status = row'.status
  hash   : row.hash = row'.hash

theorem text_eq (row : ChainedEntry) :
    row.text.toList =
      row.prev.toList ++ '\n' :: (row.body.toList ++ '\n' :: row.status.toNat.repr.toList) := by
  simp [text, rowText, body]

variable {row row' : ChainedEntry}

theorem Retells.text (h : row.Retells row') : row.text = row'.text := by
  apply String.toList_inj.mp
  rw [text_eq, text_eq, h.prev, h.body, h.status]

-- A predecessor of known length and a last line without breaks anchor the framing.
theorem text_inj (hp : row.prev.toList.length = row'.prev.toList.length)
    (h : row.text = row'.text) :
    row.prev = row'.prev ∧ row.body = row'.body ∧ row.status = row'.status := by
  have newline (n : Nat) : '\n' ∉ n.repr.toList :=
    fun h => absurd (Text.isDigit_of_mem_repr h) (by decide)
  have ht : row.text.toList = row'.text.toList := congrArg _ h
  rw [text_eq, text_eq] at ht
  have ⟨hprev, hrest⟩ := List.append_inj ht hp
  have ⟨hbody, hstatus⟩ := Text.append_sep_inj (newline _) (newline _) (List.cons.inj hrest).2
  refine ⟨String.toList_inj.mp hprev, String.toList_inj.mp hbody, ?_⟩
  exact UInt16.toNat_inj.mp (Text.repr_inj (String.toList_inj.mp hstatus))

end ChainedEntry

-- A list that links from the genesis and in which every row reads as a stored one. When no digest
-- is all zeros, these are the prefixes of the stored chain up to where the bodies are split.
structure Retold (stored rows : List ChainedEntry) : Prop where
  linked  : Linked genesisPrev rows
  retells : ∀ row ∈ rows, ∃ row' ∈ stored, row.Retells row'

section

variable (sha256 : ByteArray → Digest)

-- The hash of the row's own content.
def ChainedEntry.rehash (row : ChainedEntry) : String :=
  rowHash sha256 row.prev row.at' row.user row.action row.status

def CollisionFree (texts : List String) : Prop :=
  ∀ a ∈ texts, ∀ b ∈ texts, sha256 a.toUTF8 = sha256 b.toUTF8 → a = b

instance (texts : List String) : Decidable (CollisionFree sha256 texts) :=
  inferInstanceAs (Decidable (∀ a ∈ texts, ∀ b ∈ texts, _ → a = b))

-- Without access to the sink, a hash that fits its row is one that the sink has stored.
def Unforged (stored rows : List ChainedEntry) : Prop :=
  ∀ row ∈ rows, row.hash = row.rehash sha256 → ∃ row' ∈ stored, row'.hash = row.hash

instance (stored rows : List ChainedEntry) : Decidable (Unforged sha256 stored rows) :=
  inferInstanceAs (Decidable (∀ row ∈ rows, _ → ∃ row' ∈ stored, row'.hash = row.hash))

variable {sha256}

theorem verifyChain.go_ok {index : Nat} {prev : String} {rows : List ChainedEntry} :
    verifyChain.go sha256 index prev rows = .ok () ↔
      Linked prev rows ∧ ∀ row ∈ rows, row.hash = row.rehash sha256 := by
  induction rows generalizing index prev
  case nil => simp [go, Linked]
  case cons row rows hi =>
    simp only [go, Linked, List.forall_mem_cons, ChainedEntry.rehash]
    split
    case isTrue hp  => simp [hp]
    case isFalse hp =>
      split
      case isTrue hh  => simp [hh]
      case isFalse hh =>
        simp only [ne_eq, Decidable.not_not] at hp hh
        simp only [hi, hp, true_and, ChainedEntry.rehash]
        rw [← hp, ← hh]
        tauto

theorem verifyChain_ok {rows : List ChainedEntry} :
    (∃ n, verifyChain sha256 rows = .ok n) ↔
      Linked genesisPrev rows ∧ ∀ row ∈ rows, row.hash = row.rehash sha256 := by
  rw [← @verifyChain.go_ok sha256 0, verifyChain]
  split <;> simp_all

theorem length_rehash (sha256 : ByteArray → Digest) (row : ChainedEntry) :
    (row.rehash sha256).toList.length = 64 := by
  simp [ChainedEntry.rehash, rowHash, length_toHex]

-- What holds of the rows that the sink writes.
structure ChainedEntry.Sealed (sha256 : ByteArray → Digest) (row : ChainedEntry) : Prop where
  hash : row.hash = row.rehash sha256
  prev : row.prev.toList.length = 64

theorem ChainedEntry.Retells.rehash {row row' : ChainedEntry} (h : row.Retells row') :
    row.rehash sha256 = row'.rehash sha256 :=
  congrArg (fun text : String => toHex (sha256 text.toUTF8).toList) h.text

-- Along a path of hashes every predecessor has the length of a digest.
theorem Linked.length_prev {prev : String} {rows : List ChainedEntry} (h : Linked prev rows)
    (hp : prev.toList.length = 64) (hh : ∀ row ∈ rows, row.hash = row.rehash sha256) :
    ∀ row ∈ rows, row.Sealed sha256 := by
  induction rows generalizing prev
  case nil => simp
  case cons row rows hi =>
    rw [List.forall_mem_cons] at hh ⊢
    refine ⟨⟨hh.1, h.1 ▸ hp⟩, hi h.2 ?_ hh.2⟩
    rw [hh.1]
    exact length_rehash sha256 row

theorem Linked.append {prev : String} {rows : List ChainedEntry} {row : ChainedEntry}
    (h : Linked prev rows) (hr : row.prev = (rows.getLast?.map (·.hash)).getD prev) :
    Linked prev (rows ++ [row]) := by
  induction rows generalizing prev
  case nil => exact ⟨hr, trivial⟩
  case cons row₁ rows hi =>
    refine ⟨h.1, hi h.2 (hr.trans ?_)⟩
    cases rows <;> simp [List.getLast?_cons]

theorem Linked.shorter {prev : String} {rows rows' : List ChainedEntry} (h : Linked prev rows')
    (hp : rows <+: rows') : Linked prev rows := by
  obtain ⟨rest, rfl⟩ := hp
  induction rows generalizing prev
  case nil             => trivial
  case cons row rows hi => exact ⟨h.1, hi h.2⟩

namespace SqlAuditSink

variable {rows : List ChainedEntry}

-- A digest is never the empty text, so the newest row decides.
theorem tip_eq (h : ∀ row ∈ rows, row.Sealed sha256) :
    tip rows = (rows.getLast?.map (·.hash)).getD genesisPrev := by
  simp only [tip]
  cases hl : rows.getLast?
  case none => rfl
  case some row =>
    have hn : row.hash ≠ "" := by
      intro he
      have hr := (h row (List.mem_of_getLast? hl)).hash
      simpa [← hr, he] using length_rehash sha256 row
    simp [Option.filter, hn]

theorem length_tip (h : ∀ row ∈ rows, row.Sealed sha256) : (tip rows).toList.length = 64 := by
  rw [tip_eq h]
  cases hl : rows.getLast?
  case none => decide
  case some row =>
    have hr := (h row (List.mem_of_getLast? hl)).hash
    simpa [hr] using length_rehash sha256 row

theorem step_sealed (h : ∀ row ∈ rows, row.Sealed sha256) (o : Op) :
    ∀ row ∈ step sha256 rows o, row.Sealed sha256 := by
  cases o
  case record entry =>
    simp only [step, record, List.forall_mem_append, List.forall_mem_singleton]
    exact ⟨h, rfl, length_tip h⟩
  case prune cutoff =>
    intro row hr
    exact h row (List.mem_of_mem_filter hr)

theorem written_sealed (ops : List Op) : ∀ row ∈ written sha256 ops, row.Sealed sha256 := by
  induction ops using List.reverseRecOn
  case nil => simp [written]
  case append_singleton ops o hi =>
    simp only [written, List.foldl_append] at hi ⊢
    exact step_sealed hi o

theorem written_linked (entries : List AuditRecord) :
    Linked genesisPrev (written sha256 (entries.map .record)) := by
  induction entries using List.reverseRecOn
  case nil => trivial
  case append_singleton entries entry hi =>
    have hs := @written_sealed sha256 (entries.map .record)
    simp only [List.map_append, written, List.foldl_append] at hi hs ⊢
    exact hi.append (tip_eq hs)

end SqlAuditSink

variable {stored rows : List ChainedEntry}

-- The verifier accepts exactly the lists that retell the stored rows.
theorem verifyChain_iff_retold (hs : ∀ row ∈ stored, row.Sealed sha256)
    (hc : CollisionFree sha256 ((stored ++ rows).map (·.text)))
    (hu : Unforged sha256 stored rows) :
    (∃ n, verifyChain sha256 rows = .ok n) ↔ Retold stored rows := by
  rw [verifyChain_ok]
  constructor
  case mp =>
    intro ⟨hl, hh⟩
    refine ⟨hl, fun row hr => ?_⟩
    have ⟨row', hr', he⟩ := hu row hr (hh row hr)
    have hd := (hs row' hr').hash ▸ hh row hr ▸ he
    have ht : row.text = row'.text := by
      apply hc _ (by grind) _ (by grind)
      exact Vector.toList_inj.mp (toHex_inj hd.symm)
    have hp := (hl.length_prev (by decide) hh row hr).prev.trans (hs row' hr').prev.symm
    have ⟨hprev, hbody, hstatus⟩ := ChainedEntry.text_inj hp ht
    exact ⟨row', hr', hprev, hbody, hstatus, he.symm⟩
  case mpr =>
    intro hr
    refine ⟨hr.linked, fun row hrow => ?_⟩
    have ⟨row', hr', ht⟩ := hr.retells row hrow
    rw [ht.hash, ht.rehash]
    exact (hs row' hr').hash

-- A replacement goes undetected iff it is another list that retells the stored rows, such as a
-- chain that lacks its newest rows.
theorem detects_iff (ops : List SqlAuditSink.Op) (rows : List ChainedEntry)
    (hc : CollisionFree sha256 ((SqlAuditSink.written sha256 ops ++ rows).map (·.text)))
    (hu : Unforged sha256 (SqlAuditSink.written sha256 ops) rows) :
    (∀ n, verifyChain sha256 rows = .ok n → rows = SqlAuditSink.written sha256 ops) ↔
      ¬(rows ≠ SqlAuditSink.written sha256 ops ∧ Retold (SqlAuditSink.written sha256 ops) rows) := by
  rw [← verifyChain_iff_retold (SqlAuditSink.written_sealed ops) hc hu]
  grind

-- No assumption on the digests helps against the loss of the newest rows.
theorem verifyChain_prefix {entries : List AuditRecord}
    (hp : rows <+: SqlAuditSink.written sha256 (entries.map .record)) :
    ∃ n, verifyChain sha256 rows = .ok n := by
  rw [verifyChain_ok]
  constructor
  case left  => exact (SqlAuditSink.written_linked entries).shorter hp
  case right => exact fun row hr => (SqlAuditSink.written_sealed _ row (hp.subset hr)).hash

end

namespace SqlAuditSink

-- A login and a refused login, with the digests of the three texts below.
def login : AuditRecord :=
  ⟨"t1", "root", "login", 200⟩

def refused : AuditRecord :=
  ⟨"t2", "eve", "login", 401⟩

def loginDigest : Digest := #v[
  21, 90, 216, 235, 101, 157, 49, 135, 88, 96, 73, 197, 112, 184, 52, 132,
  206, 194, 192, 173, 70, 173, 74, 216, 83, 12, 63, 101, 249, 74, 196, 202]

def refusedDigest : Digest := #v[
  193, 107, 76, 240, 23, 217, 251, 244, 173, 235, 56, 20, 141, 223, 58, 84,
  146, 95, 135, 135, 70, 224, 175, 136, 104, 234, 90, 45, 226, 164, 107, 54]

def grantedDigest : Digest := #v[
  135, 128, 11, 197, 24, 191, 84, 78, 196, 63, 158, 1, 211, 124, 18, 37,
  45, 109, 93, 35, 85, 185, 145, 69, 176, 213, 254, 79, 159, 77, 18, 91]

-- SHA-256 on the texts of the log and of its forgery.
def sha256Table (bytes : ByteArray) : Digest :=
  let link := toHex loginDigest.toList
  let text := bytes.data.toList
  if text = (rowText genesisPrev "t1" "root" "login" 200).toUTF8.data.toList then
    loginDigest
  else if text = (rowText link "t2" "eve" "login" 401).toUTF8.data.toList then
    refusedDigest
  else if text = (rowText link "t2" "eve" "login" 200).toUTF8.data.toList then
    grantedDigest
  else
    Vector.replicate 32 0

def log : List ChainedEntry :=
  written sha256Table [.record login, .record refused]

-- The refusal is turned into a success under its stored hash.
def forged : List ChainedEntry :=
  log.map fun row => { row with status := 200 }

theorem detects_forged :
    CollisionFree sha256Table ((log ++ forged).map (·.text)) ∧ Unforged sha256Table log forged ∧
    ∀ n, verifyChain sha256Table forged = .ok n → forged = log := by
  have hc : CollisionFree sha256Table ((log ++ forged).map (·.text)) := by decide +kernel
  have hu : Unforged sha256Table log forged := by decide +kernel
  refine ⟨hc, hu, (detects_iff _ forged hc hu).mpr ?_⟩
  rintro ⟨_, hr⟩
  have hs : ∀ row ∈ forged, ∃ row' ∈ log, row.hash = row'.hash ∧ row.status = row'.status := by
    intro row hrow
    obtain ⟨row', hm, ht⟩ := hr.retells row hrow
    exact ⟨row', hm, ht.hash, ht.status⟩
  exact absurd hs (by decide +kernel)

-- The log without the refusal is accepted.
theorem accepts_truncated :
    CollisionFree sha256Table ((log ++ log.take 1).map (·.text)) ∧
    Unforged sha256Table log (log.take 1) ∧
    verifyChain sha256Table (log.take 1) = .ok 1 ∧ log.take 1 ≠ log := by
  decide +kernel

end SqlAuditSink
