import CoxAgent.Lib.Sha256

-- The container format this build writes and understands (`ARCHIVE_SCHEMA_VERSION`).
def archiveSchemaVersion : Nat := 1

-- The side of the machine that a file is restored onto.
inductive ArchiveRoot
  | workspace
  | secrets
deriving DecidableEq, Repr

def ArchiveRoot.tag : ArchiveRoot → String
  | .workspace => "workspace"
  | .secrets   => "secrets"

inductive SecretChoice
  | excluded
  | included
deriving DecidableEq, Repr

structure ArchiveManifest where
  archiveSchema : Nat          := archiveSchemaVersion
  createdAt     : String       := ""
  fileCount     : Nat          := 0
  totalBytes    : Nat          := 0
  sha256        : String
  sessionTokens : SecretChoice := .excluded
  deploySecrets : SecretChoice := .excluded
deriving DecidableEq, Repr

structure ArchiveFile where
  root     : ArchiveRoot
  path     : String
  bytesHex : String
  sha256   : String
deriving DecidableEq, Repr

structure WorkspaceArchive where
  manifest : ArchiveManifest
  files    : List ArchiveFile
deriving DecidableEq, Repr

-- Why an archive is refused. The report of the program quotes the path.
inductive ArchiveError
  | newerSchema (archiveSchema : Nat)
  | sealMismatch
  | unsafePath (path : String)
  | malformedHex (path : String)
  | integrityHash (path : String)
deriving DecidableEq, Repr

def hexEncode (bytes : List UInt8) : String :=
  toHex bytes

-- Both cases of the letters are accepted.
def hexDecode.digit (c : UInt8) : Option UInt8 :=
  if 48 ≤ c ∧ c ≤ 57 then
    some (c - 48)
  else if 97 ≤ c ∧ c ≤ 102 then
    some (c - 97 + 10)
  else if 65 ≤ c ∧ c ≤ 70 then
    some (c - 65 + 10)
  else
    none

def hexDecode.pairs : List UInt8 → Option (List UInt8)
  | []              => some []
  | [_]             => none
  | hi :: lo :: rest => do
    let hi ← digit hi
    let lo ← digit lo
    let out ← pairs rest
    return ((hi <<< 4) ||| lo) :: out

def hexDecode (s : String) : Option (List UInt8) :=
  if s.utf8ByteSize % 2 ≠ 0 then
    none
  else
    hexDecode.pairs s.toUTF8.data.toList

section RoundTrip

theorem bytes_ofList (cs : List Char) :
    (String.ofList cs).toUTF8.data.toList = cs.flatMap String.utf8EncodeChar := by
  simp [List.utf8Encode]

-- A digit is one byte, which stands for its value.
theorem utf8EncodeChar_hexDigit {n : Nat} (h : n < 16) :
    ∃ c, String.utf8EncodeChar (hexDigits.getD n '0') = [c] ∧ hexDecode.digit c = some (UInt8.ofNat n) := by
  have : ∀ n < 16, String.utf8EncodeChar (hexDigits.getD n '0') = [(hexDigits.getD n '0').toUInt8] ∧
      hexDecode.digit (hexDigits.getD n '0').toUInt8 = some (UInt8.ofNat n) := by decide
  exact ⟨_, this n h⟩

theorem halves_or (b : UInt8) :
    (UInt8.ofNat (b.toNat >>> 4) <<< 4) ||| UInt8.ofNat (b.toNat &&& 0x0f) = b := by
  have : ∀ n < 256, (UInt8.ofNat (n >>> 4) <<< 4) ||| UInt8.ofNat (n &&& 0x0f) = UInt8.ofNat n := by
    decide +kernel
  simpa using this b.toNat b.toNat_lt

theorem pairs_hexEncode (bytes : List UInt8) :
    hexDecode.pairs (hexEncode bytes).toUTF8.data.toList = some bytes := by
  simp only [hexEncode, toHex, bytes_ofList]
  induction bytes
  case nil => rfl
  case cons b bytes hi =>
    have hb := b.toNat_lt
    have hhigh : b.toNat >>> 4 < 16 := by
      rw [Nat.shiftRight_eq_div_pow]
      omega
    have hlow : b.toNat &&& 0x0f < 16 := Nat.lt_of_le_of_lt Nat.and_le_right (by decide)
    obtain ⟨c, hc, hcd⟩ := utf8EncodeChar_hexDigit hhigh
    obtain ⟨d, hd, hdd⟩ := utf8EncodeChar_hexDigit hlow
    simp only [List.flatMap_cons, hc, hd, List.cons_append, List.nil_append, hexDecode.pairs, hcd, hdd, hi,
      Option.bind_eq_bind, Option.bind_some, halves_or]
    rfl

theorem length_of_pairs {bytes out : List UInt8} (h : hexDecode.pairs bytes = some out) :
    bytes.length = 2 * out.length := by
  fun_induction hexDecode.pairs bytes generalizing out
  case case1 =>
    cases h
    rfl
  case case2 => contradiction
  case case3 hi =>
    simp only [Option.bind_eq_bind, Option.bind_eq_some_iff] at h
    obtain ⟨_, _, _, _, rest, hr, h⟩ := h
    cases h
    have := hi hr
    simp only [List.length_cons]
    omega

theorem hexDecode_hexEncode (bytes : List UInt8) : hexDecode (hexEncode bytes) = some bytes := by
  have hl : (hexEncode bytes).utf8ByteSize = 2 * bytes.length := length_of_pairs (pairs_hexEncode bytes)
  rw [hexDecode, if_neg (by omega), pairs_hexEncode]

end RoundTrip

-- Relative, and every segment names something. A backslash would separate segments elsewhere.
def isSafeArchivePath (path : String) : Bool :=
  !path.toList.isEmpty && !path.toList.contains '\\' && path.toList.head? != some '/' &&
    (path.toList.splitOn '/').all fun seg => !seg.isEmpty && seg != ['.'] && seg != ['.', '.']

section

variable (sha256 : ByteArray → Digest)

def sha256Hex (bytes : List UInt8) : String :=
  hexEncode (sha256 ⟨bytes.toArray⟩).toList

-- What a file contributes to the text under the seal.
def ArchiveFile.line (f : ArchiveFile) : String :=
  f.root.tag ++ "/" ++ f.path ++ "\n" ++ f.sha256 ++ "\n"

-- The text that the seal is taken over, file by file.
def sealText : List ArchiveFile → String
  | []      => ""
  | f :: fs => f.line ++ sealText fs

def archiveSha256 (files : List ArchiveFile) : String :=
  hexEncode (sha256 (sealText files).toUTF8).toList

def ArchiveFile.validate (f : ArchiveFile) : Except ArchiveError Unit :=
  if !isSafeArchivePath f.path then
    .error (.unsafePath f.path)
  else
    match hexDecode f.bytesHex with
    | none       => .error (.malformedHex f.path)
    | some bytes => if sha256Hex sha256 bytes ≠ f.sha256 then .error (.integrityHash f.path) else .ok ()

def validateArchive (archive : WorkspaceArchive) : Except ArchiveError Unit :=
  if archive.manifest.archiveSchema > archiveSchemaVersion then
    .error (.newerSchema archive.manifest.archiveSchema)
  else if archive.manifest.sha256 ≠ archiveSha256 sha256 archive.files then
    .error .sealMismatch
  else
    forM archive.files (ArchiveFile.validate sha256)

variable {sha256}

-- A file that passes: its path is safe and its hash is that of the bytes it decodes to.
structure ArchiveFile.Intact (sha256 : ByteArray → Digest) (f : ArchiveFile) (bytes : List UInt8) : Prop where
  path    : isSafeArchivePath f.path
  decoded : hexDecode f.bytesHex = some bytes
  sha256  : f.sha256 = sha256Hex sha256 bytes

theorem ArchiveFile.validate_ok {f : ArchiveFile} :
    f.validate sha256 = .ok () ↔ ∃ bytes, f.Intact sha256 bytes := by
  unfold validate
  constructor
  case mp =>
    intro h
    split at h
    case isTrue => contradiction
    case isFalse hp =>
      split at h
      case h_1 => contradiction
      case h_2 bytes hd =>
        split at h
        case isTrue => contradiction
        case isFalse hs => exact ⟨bytes, by simpa using hp, hd, by simpa using Eq.symm (not_not.mp hs)⟩
  case mpr =>
    intro ⟨bytes, hp, hd, hs⟩
    simp [hp, hd, hs]

theorem forM_validate_ok {files : List ArchiveFile} :
    forM files (ArchiveFile.validate sha256) = .ok () ↔
      ∀ f ∈ files, ∃ bytes, f.Intact sha256 bytes := by
  induction files
  case nil => simp [pure, Except.pure]
  case cons f fs hi =>
    rw [List.forM_cons, List.forall_mem_cons, ← hi, ← ArchiveFile.validate_ok]
    cases f.validate sha256 <;> simp [bind, Except.bind]

-- The checks as one condition.
theorem validateArchive_ok {archive : WorkspaceArchive} :
    validateArchive sha256 archive = .ok () ↔
      archive.manifest.archiveSchema ≤ archiveSchemaVersion ∧
      archive.manifest.sha256 = archiveSha256 sha256 archive.files ∧
      ∀ f ∈ archive.files, ∃ bytes, f.Intact sha256 bytes := by
  rw [← forM_validate_ok, validateArchive]
  split
  case isTrue h  => simp [Nat.not_le.mpr h]
  case isFalse h =>
    split
    case isTrue hs  => simp [hs]
    case isFalse hs => simp [Nat.not_lt.mp h, not_not.mp hs]

end
