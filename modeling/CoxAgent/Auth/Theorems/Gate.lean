import CoxAgent.Auth.Gate
import CoxAgent.Lib.Lines
import CoxAgent.Lib.Segments

namespace Gate

section Admission

variable {role : HubRole} {user : AuthUser} {method : HttpMethod} {path : String}

theorem endsWith_iff {suffix : String} : endsWith path suffix ↔ suffix.toList <:+ path.toList :=
  List.isSuffixOf_iff_suffix

theorem admission_forwards :
    (admission user method path).forwards ↔
      (isManageSurface method path → user.role.canManage) ∧ (path = "/api/mcp" → user.role.canWrite) ∧
      (∀ pid ∈ extractPidFromPath path, isSuperOrAdmin user.role ∨ pid ∈ user.projects) ∧
      (isWrite method path → writeGateOk user.role path) := by
  have hany : (extractPidFromPath path).any (fun pid => !isSuperOrAdmin user.role && pid ∉ user.projects) = false ↔
      ∀ pid ∈ extractPidFromPath path, isSuperOrAdmin user.role ∨ pid ∈ user.projects := by
    cases extractPidFromPath path <;> simp [or_iff_not_imp_left]
  rw [← hany]
  unfold admission
  dsimp only
  split
  case isTrue h₁  => simp_all [Verdict.forwards]
  case isFalse h₁ =>
    split
    case isTrue h₂  => simp_all [Verdict.forwards]
    case isFalse h₂ =>
      split
      case isTrue h₃  => simp_all [Verdict.forwards]
      case isFalse h₃ => split <;> simp_all [Verdict.forwards]

end Admission

section Projects

-- A path in the API of the projects.
def projectPath (segs : List String) : String :=
  .ofList (Segments.join '/' (("api" :: "projects" :: segs).map String.toList))

def Plain (segs : List String) : Prop :=
  ∀ s ∈ segs, '/' ∉ s.toList

-- The writes that the gate lets everybody do who may read. It looks for `/channels` anywhere in the path.
def Open (segs : List String) : Prop :=
  (∃ s ∈ segs, "channels".toList <+: s.toList) ∨ segs.getLast? = some "chat" ∨ segs.getLast? = some "upload"

-- What it takes to do any other write.
def permitted (role : AuthRole) (pid : String) (tail : List String) : Bool :=
  if "prs" ∈ (pid :: tail).dropLast then
    role.canReview
  else if pid ≠ "" ∧ (tail = ["store"] ∨ tail.head? = some "services") then
    role.canManage
  else
    role.canWrite

variable {segs tail : List String} {pid w p : String} {method : HttpMethod}

theorem Plain.chars (h : Plain segs) : ∀ l ∈ ("api" :: "projects" :: segs).map String.toList, '/' ∉ l := by
  simp only [List.forall_mem_map, List.forall_mem_cons]
  exact ⟨by decide, by decide, h⟩

theorem projectPath_eq : (projectPath segs).toList =
    "/api/projects".toList ++ Segments.join '/' (segs.map String.toList) :=
  String.toList_ofList

theorem prefix_projectPath : "/api/projects".toList <+: (projectPath segs).toList := by
  rw [projectPath_eq]
  exact List.prefix_append _ _

-- Two beginnings of one path go along with each other.
def Elsewhere (p : String) : Prop :=
  ¬p.toList <+: "/api/projects".toList ∧ ¬"/api/projects".toList <+: p.toList

instance (p : String) : Decidable (Elsewhere p) :=
  inferInstanceAs (Decidable (_ ∧ _))

theorem not_mem_of_elsewhere {l : List String} (h : ∀ p ∈ l, ¬"/api/projects".toList <+: p.toList) :
    projectPath segs ∉ l :=
  fun hp => h _ hp prefix_projectPath

theorem Elsewhere.startsWith (h : Elsewhere p) : Text.startsWith (projectPath segs) p = false := by
  rw [Bool.eq_false_iff, ne_eq, Text.startsWith_iff]
  intro hp
  cases List.prefix_or_prefix_of_prefix hp prefix_projectPath
  case inl hp => exact h.left hp
  case inr hp => exact h.right hp

theorem Elsewhere.any {l : List String} (h : ∀ p ∈ l, Elsewhere p) :
    l.any (Text.startsWith (projectPath segs)) = false := by
  rw [List.any_eq_false]
  intro p hp
  rw [(h p hp).startsWith]
  decide

theorem contains_projectPath (h : Plain segs) (hp : p.toList = '/' :: w.toList) (hw : '/' ∉ w.toList)
    (ha : ¬w.toList <+: "api".toList) (hb : ¬w.toList <+: "projects".toList) :
    Text.contains (projectPath segs) p ↔ ∃ s ∈ segs, w.toList <+: s.toList := by
  rw [Text.contains_iff, projectPath, String.toList_ofList, hp, Segments.infix_join_iff h.chars hw]
  simp only [List.map_cons, List.exists_mem_cons_iff, ha, hb, false_or, List.mem_map, exists_exists_and_eq_and]

theorem contains_inner_projectPath (h : Plain segs) (hp : p.toList = '/' :: (w.toList ++ ['/'])) (hw : '/' ∉ w.toList) :
    Text.contains (projectPath segs) p ↔ w ∈ ("api" :: "projects" :: segs).dropLast := by
  rw [Text.contains_iff, projectPath, String.toList_ofList, hp, Segments.infix_join_sep_iff h.chars hw,
    ← List.map_dropLast]
  simp only [List.mem_map, String.toList_inj, exists_eq_right]

theorem endsWith_projectPath (h : Plain segs) (hp : p.toList = '/' :: w.toList) (hw : '/' ∉ w.toList)
    (hb : w ≠ "projects") : endsWith (projectPath segs) p ↔ segs.getLast? = some w := by
  rw [endsWith_iff, projectPath, String.toList_ofList, hp, Segments.suffix_join_iff h.chars hw, List.getLast?_map]
  cases hs : segs.getLast?
  case none   =>
    rw [List.getLast?_eq_none_iff.mp hs]
    refine iff_of_false (fun he => ?_) (by simp)
    have he : some "projects".toList = some w.toList := he
    exact hb (String.toList_inj.mp (Option.some.inj he)).symm
  case some s => simp_all [List.getLast?_cons, String.toList_inj]

theorem isPublic_projectPath : isPublic (projectPath segs) = false := by
  have hpaths : projectPath segs ∉ publicPaths := not_mem_of_elsewhere (by decide)
  have hprefixes : ∀ p ∈ publicPrefixes, Elsewhere p := by decide
  rw [isPublic, Elsewhere.any hprefixes, Bool.or_false]
  exact decide_eq_false hpaths

theorem isManageSurface_projectPath (h : Plain segs) :
    isManageSurface method (projectPath segs) ↔
      method.mutates ∧ method ≠ .delete ∧ segs.getLast? = some "config" := by
  have hconfig := @endsWith_projectPath segs "config" "/config" h (by decide) (by decide) (by decide)
  have husers : Elsewhere "/api/auth/users" := by decide
  have htokens : Elsewhere "/api/auth/tokens" := by decide
  rw [isManageSurface, husers.startsWith, htokens.startsWith, Bool.false_or, Bool.false_or, Bool.and_eq_true, hconfig]
  cases method <;> simp [HttpMethod.mutates]

theorem isWrite_projectPath (h : Plain segs) :
    isWrite method (projectPath segs) ↔ method.mutates ∧ ¬Open segs := by
  have hpaths : projectPath segs ∉ selfServicePaths := not_mem_of_elsewhere (by decide)
  have hprefixes : ∀ p ∈ selfServicePrefixes, Elsewhere p := by decide
  have hchat := @endsWith_projectPath segs "chat" "/chat" h (by decide) (by decide) (by decide)
  have hupload := @endsWith_projectPath segs "upload" "/upload" h (by decide) (by decide) (by decide)
  have hchannels := @contains_projectPath segs "channels" "/channels" h (by decide) (by decide) (by decide) (by decide)
  rw [isWrite, Elsewhere.any hprefixes, decide_eq_true hpaths, Open, ← hchat, ← hupload, ← hchannels]
  simp only [Bool.and_true, Bool.not_false, Bool.and_eq_true, Bool.not_eq_true', not_or, Bool.not_eq_true, and_assoc]
  exact and_congr_right fun _ =>
    ⟨fun h => ⟨h.right.left, h.left, h.right.right⟩, fun h => ⟨h.right.left, h.left, h.right.right⟩⟩

section Rest

variable (h : Plain (pid :: tail))

theorem stripPrefix_projectPath : Text.stripPrefix (projectPath (pid :: tail)) "/api/projects/" =
    some (.ofList (pid.toList ++ Segments.join '/' (tail.map String.toList))) := by
  rw [Text.stripPrefix_eq_some, projectPath_eq, String.toList_ofList]
  simp

include h

theorem isPrReviewPath_projectPath : isPrReviewPath (projectPath (pid :: tail)) ↔ "prs" ∈ (pid :: tail).dropLast := by
  have hprs := @contains_inner_projectPath (pid :: tail) "prs" "/prs/" h (by decide) (by decide)
  rw [isPrReviewPath, hprs]
  simp

theorem extractPidFromPath_projectPath : extractPidFromPath (projectPath (pid :: tail)) = some pid := by
  rw [extractPidFromPath, stripPrefix_projectPath, Option.map_some, String.toList_ofList,
    Segments.takeWhile_append_join (h pid List.mem_cons_self), String.ofList_toList]

theorem isStoreRpcPath_projectPath : isStoreRpcPath (projectPath (pid :: tail)) ↔ pid ≠ "" ∧ tail = ["store"] := by
  obtain ⟨hpid, htail⟩ := List.forall_mem_cons.mp h
  rw [isStoreRpcPath, stripPrefix_projectPath, Option.any_some, Bool.and_eq_true, endsWith_iff,
    List.suffix_iff_eq_append, String.toList_ofList]
  dsimp only
  rw [Bool.and_eq_true, decide_eq_true_eq, decide_eq_true_eq, String.length_ofList]
  constructor
  case mp =>
    rintro ⟨hl, hne, hsep⟩
    cases tail
    case nil         =>
      have hmem : '/' ∈ pid.toList ++ Segments.join '/' ([].map String.toList) :=
        hl ▸ List.mem_append_right _ (by decide)
      simp [hpid] at hmem
    case cons t tail =>
      have hlit : "/store".toList = '/' :: "store".toList := by decide
      rw [hlit] at hl
      obtain ⟨he, hrest⟩ := Text.sep_append_inj hsep hpid hl
      obtain ⟨ht, hnil⟩ := (Segments.append_join_eq_iff (by decide)).mp hrest.symm
      rw [he] at hne
      rw [String.toList_inj.mp ht, List.map_eq_nil_iff.mp hnil]
      exact ⟨by simpa using hne, rfl⟩
  case mpr =>
    rintro ⟨hne, rfl⟩
    have hlen : "/store".length = 6 := by decide
    simp [hpid, hne, hlen]

theorem isServiceMgmtPath_projectPath :
    isServiceMgmtPath (projectPath (pid :: tail)) ↔ pid ≠ "" ∧ tail.head? = some "services" := by
  have ⟨hpid, htail⟩ := List.forall_mem_cons.mp h
  rw [isServiceMgmtPath, stripPrefix_projectPath, Option.any_some, String.toList_ofList,
    Segments.takeWhile_append_join hpid, Segments.dropWhile_append_join hpid]
  cases tail
  case nil      => simp [hpid]
  case cons t ts =>
    have ht : '/' ∉ t.toList := htail t List.mem_cons_self
    have hwhole : String.ofList (t.toList ++ Segments.join '/' (ts.map String.toList)) = "services" ↔
        t = "services" ∧ ts = [] := by
      rw [← String.toList_inj, String.toList_ofList, Segments.append_join_eq_iff (by decide), String.toList_inj,
        List.map_eq_nil_iff]
    have hbelow : Text.startsWith (.ofList (t.toList ++ Segments.join '/' (ts.map String.toList))) "services/" ↔
        "services" = t ∧ ts ≠ [] := by
      have hsep := @Segments.prefix_sep_append_join Char '/' (ts.map String.toList) t.toList "services".toList ht
        (by decide)
      rw [String.toList_inj, ne_eq, List.map_eq_nil_iff] at hsep
      have hlit : "services/".toList = "services".toList ++ ['/'] := by decide
      rw [Text.startsWith_iff, hlit, ← hsep, String.toList_ofList, String.toList_ofList]
    simp only [List.map_cons, Segments.join_cons, List.tail_cons, Bool.and_eq_true, Bool.or_eq_true, decide_eq_true_eq,
      hwhole, hbelow]
    simp
    grind

theorem writeGateOk_projectPath {role : AuthRole} :
    writeGateOk role (projectPath (pid :: tail)) = permitted role pid tail := by
  have hreport : projectPath (pid :: tail) ≠ "/api/pr-report" := by
    rintro he
    exact absurd (he ▸ @prefix_projectPath (pid :: tail)) (by decide)
  rw [writeGateOk, permitted, decide_eq_false hreport, Bool.or_false]
  simp only [isPrReviewPath_projectPath h, isStoreRpcPath_projectPath h, isServiceMgmtPath_projectPath h]
  grind

end Rest

-- Who gets past the gate of a hub to a path in the API of a project. It takes a membership, unless the role is one of
-- the two highest, and to write it takes what the path asks for. Any path in which a segment starts with `channels` is
-- open, also that of a project whose name does, and so is one whose last segment is `chat` or `upload`. Of a project
-- named `prs` the reviewers may write all but the configuration.
theorem project_gate (role : HubRole) (user : AuthUser) (method : HttpMethod) (pid : String) (tail : List String)
    (h : Plain (pid :: tail)) :
    (authMw role (some user) method (projectPath (pid :: tail))).forwards ↔
      serves role (projectPath (pid :: tail)) ∧ (isSuperOrAdmin user.role ∨ pid ∈ user.projects) ∧
      (method.mutates ∧ method ≠ .delete ∧ (pid :: tail).getLast? = some "config" → user.role.canManage) ∧
      (method.mutates ∧ ¬Open (pid :: tail) → permitted user.role pid tail) := by
  have hmcp : projectPath (pid :: tail) ≠ "/api/mcp" := by
    rintro he
    exact absurd (he ▸ @prefix_projectPath (pid :: tail)) (by decide)
  have hadmission : (admission user method (projectPath (pid :: tail))).forwards ↔
      (isSuperOrAdmin user.role ∨ pid ∈ user.projects) ∧
      (method.mutates ∧ method ≠ .delete ∧ (pid :: tail).getLast? = some "config" → user.role.canManage) ∧
      (method.mutates ∧ ¬Open (pid :: tail) → permitted user.role pid tail) := by
    rw [admission_forwards, isManageSurface_projectPath h, isWrite_projectPath h, extractPidFromPath_projectPath h,
      writeGateOk_projectPath h]
    simp only [hmcp, false_implies, true_and, Option.mem_some_iff, forall_eq']
    exact and_left_comm
  rw [authMw]
  split
  case isTrue hs  => simp_all [Verdict.forwards]
  case isFalse hs =>
    rw [if_neg (by rw [isPublic_projectPath]; simp), hadmission]
    simp_all

-- A viewer who is a member of a project may merge its pull requests if its name starts with `channels`.
theorem project_gate_channels :
    let viewer : AuthUser := { username := "ann", role := .viewer, projects := ["channels", "demo"] }
    (authMw .all (some viewer) .post (projectPath ["channels", "prs", "7", "merge"])).forwards ∧
    ¬(authMw .all (some viewer) .post (projectPath ["demo", "prs", "7", "merge"])).forwards := by
  intro viewer
  constructor
  case left  =>
    refine (project_gate .all viewer .post "channels" ["prs", "7", "merge"] (by unfold Plain; decide)).mpr
      ⟨rfl, by decide, by decide, fun hw => absurd ?_ hw.right⟩
    exact .inl ⟨"channels", by decide, List.prefix_rfl⟩
  case right =>
    intro hf
    have hgate := project_gate .all viewer .post "demo" ["prs", "7", "merge"] (by unfold Plain; decide)
    have hw := (hgate.mp hf).right.right.right
    exact absurd (hw ⟨rfl, by unfold Open; decide⟩) (by decide)

end Projects

section Records

variable {segs : List (List Char)} {s w l : List Char} {pid token : String}

end Records

end Gate
