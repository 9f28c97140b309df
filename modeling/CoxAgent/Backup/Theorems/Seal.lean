import CoxAgent.Backup.Archive
import CoxAgent.Lib.Text

section Hex

theorem hexDigits_ne_newline (n : Nat) : hexDigits.getD n '0' ≠ '\n' := by
  by_cases hn : n < 16
  case pos =>
    have : ∀ n < 16, hexDigits.getD n '0' ≠ '\n' := by decide
    exact this n hn
  case neg =>
    have hl : hexDigits.length ≤ n := Nat.not_lt.mp hn
    simp [List.getD, List.getElem?_eq_none hl]

theorem newline_notMem_toHex (bytes : List UInt8) : '\n' ∉ (toHex bytes).toList := by
  simp only [toHex, String.toList_ofList, List.mem_flatMap, List.mem_cons, List.not_mem_nil, or_false,
    not_exists, not_and, not_or]
  intro b _
  exact ⟨(hexDigits_ne_newline _).symm, (hexDigits_ne_newline _).symm⟩

end Hex

namespace ArchiveFile

-- What a restore makes of a file.
def content (f : ArchiveFile) : ArchiveRoot × String × Option (List UInt8) :=
  (f.root, f.path, hexDecode f.bytesHex)

def lineBreaks (f : ArchiveFile) : Nat :=
  f.path.toList.count '\n'

-- The target of the file, as the seal spells it.
def target (f : ArchiveFile) : String :=
  f.root.tag ++ "/" ++ f.path

variable {f f' : ArchiveFile} {sha256 : ByteArray → Digest} {bytes bytes' : List UInt8}

theorem line_toList (f : ArchiveFile) :
    f.line.toList = f.target.toList ++ '\n' :: (f.sha256.toList ++ ['\n']) := by
  simp [line, target]

-- The tags differ in their first letter.
theorem target_inj (h : f.target = f'.target) : f.root = f'.root ∧ f.path = f'.path := by
  have ht := congrArg String.toList h
  rcases f with ⟨root, path, _, _⟩
  rcases f' with ⟨root', path', _, _⟩
  cases root <;> cases root' <;>
    simp [target, ArchiveRoot.tag, String.toList_inj] at ht
  · exact ⟨rfl, ht⟩
  · exact ⟨rfl, ht⟩

theorem count_target (f : ArchiveFile) : f.target.toList.count '\n' = f.lineBreaks := by
  rcases f with ⟨root, path, _, _⟩
  cases root <;> simp [target, ArchiveRoot.tag, lineBreaks]

theorem Intact.newline_notMem (h : f.Intact sha256 bytes) : '\n' ∉ f.sha256.toList := by
  rw [h.sha256]
  exact newline_notMem_toHex _

theorem Intact.count_line (h : f.Intact sha256 bytes) :
    f.line.toList.count '\n' = f.lineBreaks + 2 := by
  have hs : f.sha256.toList.count '\n' = 0 := List.count_eq_zero.mpr h.newline_notMem
  simp [line_toList, count_target, hs]

-- The hash in the second line is free of breaks, so the line determines the target.
theorem Intact.line_inj (h : f.Intact sha256 bytes) (h' : f'.Intact sha256 bytes')
    (he : f.line.toList = f'.line.toList) :
    f.root = f'.root ∧ f.path = f'.path ∧ f.sha256 = f'.sha256 := by
  simp only [line_toList, ← List.cons_append, ← List.append_assoc, List.append_left_inj] at he
  have ⟨ht, hs⟩ := Text.append_sep_inj h.newline_notMem h'.newline_notMem he
  have ⟨hr, hp⟩ := target_inj (String.toList_inj.mp ht)
  exact ⟨hr, hp, String.toList_inj.mp hs⟩

end ArchiveFile

section

variable (sha256 : ByteArray → Digest)

-- What is hashed to validate an archive.
def WorkspaceArchive.hashed (archive : WorkspaceArchive) : List ByteArray :=
  (sealText archive.files).toUTF8 ::
    archive.files.filterMap fun f => (hexDecode f.bytesHex).map fun bytes => ⟨bytes.toArray⟩

def CollisionFreeOn (inputs : List ByteArray) : Prop :=
  ∀ a ∈ inputs, ∀ b ∈ inputs, sha256 a = sha256 b → a = b

instance (inputs : List ByteArray) : Decidable (CollisionFreeOn sha256 inputs) :=
  inferInstanceAs (Decidable (∀ a ∈ inputs, ∀ b ∈ inputs, _ → a = b))

variable {sha256} {files files' : List ArchiveFile}

-- Equal texts are cut at the same places when the paths hold equally many breaks.
theorem sealText_inj (h : ∀ f ∈ files, ∃ bytes, f.Intact sha256 bytes)
    (h' : ∀ f ∈ files', ∃ bytes, f.Intact sha256 bytes)
    (hb : files.map (·.lineBreaks) = files'.map (·.lineBreaks))
    (ht : (sealText files).toList = (sealText files').toList) :
    List.Forall₂ (fun f f' => f.root = f'.root ∧ f.path = f'.path ∧ f.sha256 = f'.sha256)
      files files' := by
  induction files generalizing files'
  case nil =>
    cases files'
    case nil  => exact .nil
    case cons => simp at hb
  case cons f fs hi =>
    cases files'
    case nil => simp at hb
    case cons f' fs' =>
      have ⟨hf, hfs⟩ := List.forall_mem_cons.mp h
      have ⟨hf', hfs'⟩ := List.forall_mem_cons.mp h'
      obtain ⟨bytes, hf⟩ := hf
      obtain ⟨bytes', hf'⟩ := hf'
      simp only [List.map_cons, List.cons.injEq] at hb
      simp only [sealText, String.toList_append] at ht
      have last (f : ArchiveFile) : f.line.toList.getLast? = some '\n' := by
        rw [ArchiveFile.line_toList, ← List.cons_append, ← List.append_assoc, List.getLast?_concat]
      have hc : f.line.toList.count '\n' = f'.line.toList.count '\n' := by
        rw [hf.count_line, hf'.count_line, hb.left]
      have ⟨hline, hrest⟩ := Text.append_block_inj (last f) (last f') hc ht
      exact .cons (hf.line_inj hf' hline) (hi hfs hfs' hb.right hrest)

theorem content_eq_of_sha256 (hc : CollisionFreeOn sha256 inputs)
    (hin : ∀ f ∈ files, ∀ bytes, hexDecode f.bytesHex = some bytes → ⟨bytes.toArray⟩ ∈ inputs)
    (hin' : ∀ f ∈ files', ∀ bytes, hexDecode f.bytesHex = some bytes → ⟨bytes.toArray⟩ ∈ inputs)
    (h : ∀ f ∈ files, ∃ bytes, f.Intact sha256 bytes)
    (h' : ∀ f ∈ files', ∃ bytes, f.Intact sha256 bytes)
    (he : List.Forall₂ (fun f f' => f.root = f'.root ∧ f.path = f'.path ∧ f.sha256 = f'.sha256)
      files files') : files.map (·.content) = files'.map (·.content) := by
  induction he
  case nil => rfl
  case cons f f' fs fs' hf _ hi =>
    rw [List.forall_mem_cons] at h h' hin hin'
    obtain ⟨bytes, hb⟩ := h.left
    obtain ⟨bytes', hb'⟩ := h'.left
    have ⟨hr, hp, hs⟩ := hf
    have hbytes : bytes = bytes' := by
      have hd : sha256 ⟨bytes.toArray⟩ = sha256 ⟨bytes'.toArray⟩ := by
        apply Vector.toList_inj.mp
        apply toHex_inj
        exact (hb.sha256.symm.trans hs).trans hb'.sha256
      have := hc _ (hin.left _ hb.decoded) _ (hin'.left _ hb'.decoded) hd
      simpa using this
    have hcontent : f.content = f'.content := by
      simp only [ArchiveFile.content, hr, hp, hb.decoded, hb'.decoded, hbytes]
    simp only [List.map_cons, hcontent, hi hin.right hin'.right h.right h'.right]

-- Two archives under one seal hold the same files iff the breaks in their paths agree. A break in a
-- path can take the place of the break between two files.
theorem seal_binds_iff {archive archive' : WorkspaceArchive}
    (hv : validateArchive sha256 archive = .ok ()) (hv' : validateArchive sha256 archive' = .ok ())
    (hs : archive.manifest.sha256 = archive'.manifest.sha256)
    (hc : CollisionFreeOn sha256 (archive.hashed ++ archive'.hashed)) :
    archive.files.map (·.content) = archive'.files.map (·.content) ↔
      archive.files.map (·.lineBreaks) = archive'.files.map (·.lineBreaks) := by
  have ⟨_, hm, hf⟩ := validateArchive_ok.mp hv
  have ⟨_, hm', hf'⟩ := validateArchive_ok.mp hv'
  constructor
  case mp =>
    intro he
    have := congrArg (List.map fun c => c.2.1.toList.count '\n') he
    rwa [List.map_map, List.map_map] at this
  case mpr =>
    intro hb
    have htext : sealText archive.files = sealText archive'.files := by
      have hd : sha256 (sealText archive.files).toUTF8 = sha256 (sealText archive'.files).toUTF8 := by
        apply Vector.toList_inj.mp
        apply toHex_inj
        exact (hm.symm.trans hs).trans hm'
      have hu := hc _ (by simp [WorkspaceArchive.hashed]) _ (by simp [WorkspaceArchive.hashed]) hd
      exact String.toByteArray_inj.mp hu
    have he := sealText_inj hf hf' hb (congrArg _ htext)
    refine content_eq_of_sha256 hc ?_ ?_ hf hf' he
    · intro f hm bytes hd
      refine List.mem_append_left _ (List.mem_cons_of_mem _ (List.mem_filterMap.mpr ⟨f, hm, ?_⟩))
      rw [hd, Option.map_some]
    · intro f hm bytes hd
      refine List.mem_append_right _ (List.mem_cons_of_mem _ (List.mem_filterMap.mpr ⟨f, hm, ?_⟩))
      rw [hd, Option.map_some]

end

namespace ArchiveFile

-- The digests of an empty file, of an empty object and of the text under the seal of both.
def emptyDigest : Digest := #v[
  227, 176, 196, 66, 152, 252, 28, 20, 154, 251, 244, 200, 153, 111, 185, 36,
  39, 174, 65, 228, 100, 155, 147, 76, 164, 149, 153, 27, 120, 82, 184, 85]

def objectDigest : Digest := #v[
  68, 19, 111, 163, 85, 179, 103, 138, 17, 70, 173, 22, 247, 232, 100, 158,
  148, 251, 79, 194, 31, 231, 126, 131, 16, 192, 96, 246, 28, 170, 255, 138]

def sealDigest : Digest := #v[
  5, 53, 121, 199, 244, 249, 15, 101, 100, 255, 181, 250, 6, 97, 33, 225,
  169, 129, 232, 20, 161, 167, 157, 144, 43, 25, 120, 217, 221, 255, 139, 60]

def notes : ArchiveFile :=
  ⟨.workspace, "notes", "", toHex emptyDigest.toList⟩

def state : ArchiveFile :=
  ⟨.workspace, "state", "7b7d", toHex objectDigest.toList⟩

-- The first line of the other file, its hash and the name of this one in a single path.
def joined : ArchiveFile :=
  { state with path := "notes\n" ++ toHex emptyDigest.toList ++ "\nworkspace/state" }

-- SHA-256 on what the archives below hash: the two files and the text under their seal.
def sha256Table (bytes : ByteArray) : Digest :=
  match bytes.data.toList with
  | []         => emptyDigest
  | [123, 125] => objectDigest
  | _          => sealDigest

def sealed (files : List ArchiveFile) : WorkspaceArchive where
  manifest := { sha256 := toHex sealDigest.toList, fileCount := files.length }
  files    := files

def upper : ArchiveFile :=
  { state with bytesHex := "7B7D" }

-- The three texts have different digests.
theorem sha256Table_collisionFree {inputs : List ByteArray}
    (h : ∀ a ∈ inputs, a = (sealText [notes, state]).toUTF8 ∨ a = ⟨#[]⟩ ∨ a = ⟨#[123, 125]⟩) :
    CollisionFreeOn sha256Table inputs := by
  have hs : sha256Table (sealText [notes, state]).toUTF8 = sealDigest := by rfl
  have he : sha256Table ⟨#[]⟩ = emptyDigest := by rfl
  have ho : sha256Table ⟨#[123, 125]⟩ = objectDigest := by rfl
  have hne : sealDigest ≠ emptyDigest ∧ sealDigest ≠ objectDigest ∧ emptyDigest ≠ objectDigest := by
    decide
  intro a ha b hb hd
  rcases h a ha with rfl | rfl | rfl <;> rcases h b hb with rfl | rfl | rfl <;> grind

theorem hashed_pair :
    (sealed [notes, state]).hashed = [(sealText [notes, state]).toUTF8, ⟨#[]⟩, ⟨#[123, 125]⟩] := by
  rfl

theorem hashed_upper :
    (sealed [notes, upper]).hashed = [(sealText [notes, state]).toUTF8, ⟨#[]⟩, ⟨#[123, 125]⟩] := by
  rfl

theorem sealText_joined : sealText [joined] = sealText [notes, state] := by
  rfl

theorem hashed_joined :
    (sealed [joined]).hashed = [(sealText [notes, state]).toUTF8, ⟨#[123, 125]⟩] := by
  rw [← sealText_joined]
  rfl

-- One file is lost and another one renamed, under the same valid seal.
theorem seal_binds_fails :
    validateArchive sha256Table (sealed [notes, state]) = .ok () ∧
    validateArchive sha256Table (sealed [joined]) = .ok () ∧
    (sealed [notes, state]).manifest.sha256 = (sealed [joined]).manifest.sha256 ∧
    CollisionFreeOn sha256Table ((sealed [notes, state]).hashed ++ (sealed [joined]).hashed) ∧
    (sealed [notes, state]).files.map (·.content) ≠ (sealed [joined]).files.map (·.content) := by
  refine ⟨by decide +kernel, by decide +kernel, rfl, sha256Table_collisionFree ?_, by decide⟩
  rw [hashed_pair, hashed_joined]
  simp

-- The letters of a payload may change their case.
theorem seal_binds_upper :
    (sealed [notes, state]).files.map (·.content) = (sealed [notes, upper]).files.map (·.content) := by
  have hv : validateArchive sha256Table (sealed [notes, state]) = .ok () := by decide +kernel
  have hv' : validateArchive sha256Table (sealed [notes, upper]) = .ok () := by decide +kernel
  have hc : CollisionFreeOn sha256Table
      ((sealed [notes, state]).hashed ++ (sealed [notes, upper]).hashed) := by
    apply sha256Table_collisionFree
    rw [hashed_pair, hashed_upper]
    simp
  exact (seal_binds_iff hv hv' rfl hc).mpr (by decide)

end ArchiveFile
