import CoxAgent.Engine.Tools
import Mathlib.Data.List.Sort

variable {w p q : List OsStr} {d d' d₁ d₂ : HostDisk} {rel : String} {ending : ToolCall.Ending}

-- What is changed is in the directory, and unless files are edited it is only that directories are created.
def Touched (w : List OsStr) (edits : Prop) (d d₁ : HostDisk) : Prop :=
  ∀ q, d₁.get q = d.get q ∨ w <+: q ∧ (edits ∨ d.get q = none ∧ d₁.get q = some .dir)

namespace Touched

variable {edits edits' : Prop}

theorem refl : Touched w edits d d :=
  fun _ => .inl rfl

theorem mono (h : Touched w edits d d₁) (he : edits → edits') : Touched w edits' d d₁ :=
  fun q => (h q).imp_right fun hq => ⟨hq.left, hq.right.imp_left he⟩

theorem trans (h : Touched w edits d d₁) (h₁ : Touched w edits d₁ d₂) : Touched w edits d d₂ := by
  intro q
  cases h q
  case inl he => rw [← he]; exact h₁ q
  case inr hq =>
    obtain ⟨hw, hedit | ⟨hnone, hdir⟩⟩ := hq
    · exact .inr ⟨hw, .inl hedit⟩
    · refine .inr ⟨hw, ?_⟩
      cases h₁ q
      case inl he  => exact .inr ⟨hnone, he.trans hdir⟩
      case inr hq₁ => exact hq₁.right.imp_right fun hn => ⟨hnone, hn.right⟩

theorem outside (h : Touched w edits d d₁) (hq : ¬w <+: q) : d₁.get q = d.get q :=
  (h q).resolve_right fun hw => hq hw.left

theorem dir (h : Touched w False d d₁) (hd : d.get q = some .dir) : d₁.get q = some .dir := by
  cases h q
  case inl he => exact he.trans hd
  case inr hq => exact (hq.right.resolve_left id).right

-- Files that are not edited stay as they are.
theorem file (h : Touched w edits d d₁) (he : ¬edits) {b : Contents} :
    d₁.get q = some (.file b) ↔ d.get q = some (.file b) := by
  cases h q
  case inl hq => rw [hq]
  case inr hq =>
    obtain ⟨hnone, hdir⟩ := hq.right.resolve_left he
    simp [hnone, hdir]

end Touched

namespace ToolCall

section Paths

theorem place_below {comps : List Component} (h : ∀ c ∈ comps, ¬(c = .parentDir ∨ c = .rootDir)) :
    ∃ q, OsPath.place w comps = w ++ q := by
  induction comps using List.reverseRecOn
  case nil                        => exact ⟨[], (List.append_nil w).symm⟩
  case append_singleton comps c hi =>
    obtain ⟨q, hq⟩ := hi fun c hc => h c (List.mem_append_left _ hc)
    have hc := h c (by simp)
    rw [OsPath.place] at hq
    rw [OsPath.place, List.foldl_concat, hq]
    cases c
    case rootDir     => exact absurd (.inr rfl) hc
    case parentDir   => exact absurd (.inl rfl) hc
    case curDir      => exact ⟨q, rfl⟩
    case normal name => exact ⟨q ++ [name], List.append_assoc ..⟩

-- No path leads out of the workspace.
theorem safeJoin_below (h : safeJoin w rel = .ok p) : ∃ q, p = w ++ q := by
  unfold safeJoin at h
  split at h
  case isTrue  => cases h
  case isFalse =>
    split at h
    case isTrue  => cases h
    case isFalse =>
      split at h
      case h_3 hnone =>
        cases h
        exact place_below fun c hc => by simpa using List.find?_eq_none.mp hnone c hc
      all_goals cases h

end Paths

section Files

variable (h : d.Alike w d')
include h

theorem notAFile_alike : notAFile d (w ++ q) = notAFile d' (w ++ q) := by
  rw [notAFile, notAFile, h.resolve]

theorem readToString_alike : readToString d (w ++ q) ending = readToString d' (w ++ q) ending := by
  rw [readToString, readToString, h.read, notAFile_alike h]

theorem createParent_alike :
    Except.Rel (Disk.Alike w) (createParent d (w ++ q)) (createParent d' (w ++ q)) := by
  unfold createParent
  split
  case isTrue  => exact .error _
  case isFalse =>
    rw [Disk.mkdirAll_above h.dir, Disk.mkdirAll_above h.dir']
    have hmk : Except.Rel (Disk.Alike w) (d.mkdirAll (w ++ []) q.dropLast) (d'.mkdirAll (w ++ []) q.dropLast) :=
      h.mkdirAll
    rwa [List.append_nil] at hmk

theorem writeText_alike {content : String} :
    Except.Rel (Disk.Alike w) (writeText d (w ++ q) ending content) (writeText d' (w ++ q) ending content) := by
  unfold writeText
  rw [notAFile_alike h]
  split
  case isTrue  => exact .error _
  case isFalse =>
    cases ending
    case name  => exact h.write
    case dot   => exact .error _
    case slash => exact .error _

omit h in
-- The listing does not depend on the order in which the names come.
theorem listing_perm {names names' : List (OsStr × Bool)} (h : names.Perm names') : listing names = listing names' := by
  have hperm (text : OsStr × Bool → String) :
      (names.map text).mergeSort (· ≤ ·) = (names'.map text).mergeSort (· ≤ ·) := by
    refine List.Perm.eq_of_pairwise' (List.pairwise_mergeSort' (· ≤ ·) _) (List.pairwise_mergeSort' (· ≤ ·) _) ?_
    exact (List.mergeSort_perm ..).trans ((h.map text).trans (List.mergeSort_perm ..).symm)
  exact congrArg ("\n".intercalate ·) (hperm _)

omit h in
theorem createParent_touched (hd : d.get w = some .dir) (h : createParent d (w ++ q) = .ok d₁) :
    Touched w False d d₁ := by
  unfold createParent at h
  split at h
  case isTrue  => contradiction
  case isFalse =>
    rw [Disk.mkdirAll_above hd] at h
    exact fun r => (Disk.get_mkdirAll h).imp_right fun hr => ⟨hr.right.right, .inr ⟨hr.left, hr.right.left⟩⟩

omit h in
theorem writeText_touched {content : String} (h : writeText d (w ++ q) ending content = .ok d₁) :
    Touched w True d d₁ := by
  unfold writeText at h
  split at h
  case isTrue  => contradiction
  case isFalse =>
    cases ending
    case name =>
      intro r
      by_cases hr : r = w ++ q
      case pos => exact .inr ⟨hr ▸ List.prefix_append w q, .inl trivial⟩
      case neg => exact .inl (Disk.get_write h hr)
    all_goals contradiction

end Files

section Apply

variable {host : Host} {path content find replace : String} {call : ToolCall}

-- What a tool does to two disks that are the same in the workspace.
def SameEffect (w : List OsStr) (edits : Bool) (d : HostDisk) (r r' : ToolResult × HostDisk) : Prop :=
  r.1 = r'.1 ∧ r.2.Alike w r'.2 ∧ Touched w (edits ∧ r.1.ok) d r.2

theorem SameEffect.unchanged {edits : Bool} {result result' : ToolResult} (h : d.Alike w d')
    (hr : result = result') : SameEffect w edits d (result, d) (result', d') :=
  ⟨hr, h, .refl⟩

variable (h : d.Alike w d')
include h

theorem applyRead_alike : applyRead host w d path = applyRead host w d' path := by
  rw [applyRead, applyRead]
  split
  case h_1      => rfl
  case h_2 p hp =>
    obtain ⟨q, rfl⟩ := safeJoin_below hp
    rw [readToString_alike h]

theorem applyList_alike : applyList host w d path = applyList host w d' path := by
  rw [applyList, applyList]
  split
  case h_1      => rfl
  case h_2 p hp =>
    obtain ⟨q, rfl⟩ := safeJoin_below hp
    unfold readDir
    by_cases hnul : hasNul (w ++ q)
    case pos => rw [if_pos hnul, if_pos hnul]
    case neg =>
      rw [if_neg hnul, if_neg hnul]
      have hlist := h.list (q := q)
      generalize d.list (w ++ q) = x, d'.list (w ++ q) = x' at hlist
      cases hlist
      case ok hperm => exact congrArg (ToolResult.mk true) (listing_perm hperm)
      case error    => rfl

theorem applyWrite_alike :
    SameEffect w true d (applyWrite host w d path content) (applyWrite host w d' path content) := by
  unfold applyWrite
  split
  case h_1      => exact .unchanged h rfl
  case h_2 p hp =>
    obtain ⟨q, rfl⟩ := safeJoin_below hp
    have hparent := createParent_alike (q := q) h
    generalize hx : createParent d (w ++ q) = x, createParent d' (w ++ q) = x' at hparent
    cases hparent
    case error e        => exact .unchanged h rfl
    case ok d₁ d₁' h₁   =>
      have hcreated : Touched w False d d₁ := createParent_touched h.dir hx
      have hwrite : Except.Rel (Disk.Alike w) (writeText d₁ (w ++ q) (.of path) content)
          (writeText d₁' (w ++ q) (.of path) content) := writeText_alike h₁
      dsimp only
      generalize hy : writeText d₁ (w ++ q) (.of path) content = y,
        writeText d₁' (w ++ q) (.of path) content = y' at hwrite
      cases hwrite
      case error e => exact ⟨rfl, h₁, hcreated.mono False.elim⟩
      case ok h₂   =>
        have hedited := writeText_touched hy
        exact ⟨rfl, h₂, (hcreated.mono False.elim).trans (hedited.mono fun _ => ⟨rfl, rfl⟩)⟩

theorem applyPatch_alike :
    SameEffect w true d (applyPatch host w d path find replace) (applyPatch host w d' path find replace) := by
  unfold applyPatch
  split
  case h_1      => exact .unchanged h rfl
  case h_2 p hp =>
    obtain ⟨q, rfl⟩ := safeJoin_below hp
    rw [← readToString_alike h]
    split
    case h_1 => exact .unchanged h rfl
    case h_2 text _ =>
      dsimp only
      split_ifs
      · exact .unchanged h rfl
      · exact .unchanged h rfl
      · generalize Text.replaceFirst text find replace = edited
        have hwrite : Except.Rel (Disk.Alike w) (writeText d (w ++ q) (.of path) edited)
            (writeText d' (w ++ q) (.of path) edited) := writeText_alike h
        generalize hy : writeText d (w ++ q) (.of path) edited = y,
          writeText d' (w ++ q) (.of path) edited = y' at hwrite
        cases hwrite
        case error e => exact .unchanged h rfl
        case ok h₁   => exact ⟨rfl, h₁, (writeText_touched hy).mono fun _ => ⟨rfl, rfl⟩⟩

-- What a tool sees and does is in the workspace.
theorem applyTool_alike : SameEffect w call.isEdit d (call.applyTool host w d) (call.applyTool host w d') := by
  cases call
  case readFile path               => exact .unchanged h (applyRead_alike h)
  case writeFile path content      =>
    rw [applyTool, applyTool]
    exact applyWrite_alike h
  case patchFile path find replace =>
    rw [applyTool, applyTool]
    exact applyPatch_alike h
  case listDir path                => exact .unchanged h (applyList_alike h)
  case run cmd                     => exact .unchanged h rfl
  case done summary                => exact .unchanged h rfl

end Apply

end ToolCall

namespace ToolLoop

section Turns

variable {host : Host} {fits : List Char → Bool} {chat : Chat} {s s' : ToolLoop} {n : Nat}

-- A command keeps to the workspace: it neither sees nor changes anything else.
def Keeps (w : List OsStr) (command : HostDisk → ToolResult × HostDisk) : Prop :=
  ∀ d d', d.Alike w d' →
    (command d).1 = (command d').1 ∧ (command d).2.Alike w (command d').2 ∧ Touched w True d (command d).2

-- The commands that the model asks for.
def Asks (fits : List Char → Bool) (chat : Chat) (cmd : String) : Prop :=
  ∃ n messages reply, chat n messages = .ok reply ∧ ToolCall.ofContent fits reply.content = some (.run cmd)

-- What two loops come to that are at the same point, on disks that are the same in the workspace: the same next
-- point, or the same end.
inductive Step (w : List OsStr) (commands : Prop) (wrote : Bool) (d₀ : HostDisk) :
    ToolLoop ⊕ (LoopOutcome × HostDisk) → ToolLoop ⊕ (LoopOutcome × HostDisk) → Prop
  | next {t d} : t.disk.Alike w d → (wrote → t.wroteAny) → Touched w (t.wroteAny ∨ commands) d₀ t.disk →
    Step w commands wrote d₀ (.inl t) (.inl { t with disk := d })
  | stop {out d d'} : d.Alike w d' → (wrote → out.wroteAny) → Touched w (out.wroteAny ∨ commands) d₀ d →
    Step w commands wrote d₀ (.inr (out, d)) (.inr (out, d'))

theorem report_alike {call : ToolCall} {commands : Prop} {r r' : ToolResult × HostDisk} (hr : r.1 = r'.1)
    (ha : r.2.Alike w r'.2) (ht : Touched w ((call.isEdit ∧ r.1.ok) ∨ commands) s.disk r.2) {d : HostDisk} :
    Step w commands s.wroteAny s.disk (.inl (s.report call r.1 r.2))
      (.inl ({ s with disk := d }.report call r'.1 r'.2)) := by
  rw [← hr]
  refine .next (t := s.report call r.1 r.2) ha (fun hw => by simp [report, hw]) (ht.mono ?_)
  exact fun he => he.imp_left fun hw => by simp [report, hw.left, hw.right]

theorem apply_tool {call : ToolCall} (hn : ∀ cmd, call ≠ .run cmd) : s.apply host w call =
    s.report call (call.applyTool host w s.disk).1 (call.applyTool host w s.disk).2 := by
  unfold apply
  generalize call.applyTool host w s.disk = r
  cases call
  case run cmd => exact absurd rfl (hn cmd)
  all_goals rfl

theorem apply_alike {d : HostDisk} {call : ToolCall} {commands : Prop} (h : s.disk.Alike w d)
    (hk : ∀ cmd, call = .run cmd → commands ∧ Keeps w (host.runCommand cmd)) :
    Step w commands s.wroteAny s.disk (.inl (s.apply host w call))
      (.inl ({ s with disk := d }.apply host w call)) := by
  by_cases hn : ∀ cmd, call ≠ .run cmd
  case pos =>
    obtain ⟨hr, ha, ht⟩ := @ToolCall.applyTool_alike _ _ _ host call h
    rw [apply_tool hn, apply_tool hn]
    exact report_alike hr ha (ht.mono .inl)
  case neg =>
    simp only [not_forall, not_not] at hn
    obtain ⟨cmd, rfl⟩ := hn
    obtain ⟨hc, hkeeps⟩ := hk cmd rfl
    obtain ⟨hr, ha, ht⟩ := hkeeps s.disk d h
    exact report_alike hr ha (ht.mono fun _ => .inr hc)

theorem turn_alike {d : HostDisk} (hk : ∀ cmd, Asks fits chat cmd → Keeps w (host.runCommand cmd))
    (h : s.disk.Alike w d) :
    Step w (∃ cmd, Asks fits chat cmd) s.wroteAny s.disk (s.turn host fits chat w n)
      ({ s with disk := d }.turn host fits chat w n) := by
  unfold turn
  dsimp only
  split
  case h_1              => exact .stop h id .refl
  case h_2 reply hreply =>
    split
    case h_1            => exact .next h id .refl
    case h_2            => exact .stop h id .refl
    case h_3 call _ hcall =>
      refine apply_alike (s := s.answer n reply) h fun cmd hcmd => ?_
      have hasks : Asks fits chat cmd := ⟨n, s.messages, reply, hreply, hcmd ▸ hcall⟩
      exact ⟨⟨cmd, hasks⟩, hk cmd hasks⟩

theorem turns_alike {d : HostDisk} {maxIters left : Nat}
    (hk : ∀ cmd, Asks fits chat cmd → Keeps w (host.runCommand cmd)) (h : s.disk.Alike w d) :
    let r := turns host fits chat w maxIters s n left
    let r' := turns host fits chat w maxIters { s with disk := d } n left
    r.1 = r'.1 ∧ r.2.Alike w r'.2 ∧ (s.wroteAny → r.1.wroteAny) ∧
      Touched w (r.1.wroteAny ∨ ∃ cmd, Asks fits chat cmd) s.disk r.2 := by
  induction left generalizing s d n
  case zero         => exact ⟨rfl, h, id, .refl⟩
  case succ left hi =>
    have hturn := turn_alike (n := n) hk h
    rw [turns, turns]
    generalize s.turn host fits chat w n = x, { s with disk := d }.turn host fits chat w n = x' at hturn
    cases hturn
    case stop ha hw ht => exact ⟨rfl, ha, hw, ht⟩
    case next ha hw ht =>
      obtain ⟨hr, ha, hw', ht'⟩ := hi (n := n + 1) ha
      exact ⟨hr, ha, hw' ∘ hw, (ht.mono (Or.imp_left hw')).trans ht'⟩

end Turns

end ToolLoop

-- On a disk without symbolic links, a model that is given the tools sees and changes nothing outside of the workspace,
-- as long as the commands it asks for keep to it: the whole conversation is the same on any other disk with the same
-- workspace. If it asks for no command, files are only changed if the outcome tells so.
theorem ToolLoop.confined (host : Host) (fits : List Char → Bool) (chat : Chat) (workDir : List OsStr)
    (systemPrompt taskPrompt : String) (maxIters : Nat) (d d' : HostDisk) (h : d.Alike workDir d')
    (hk : ∀ cmd, Asks fits chat cmd → Keeps workDir (host.runCommand cmd)) :
    let r := runToolLoop host fits chat workDir systemPrompt taskPrompt maxIters d
    let r' := runToolLoop host fits chat workDir systemPrompt taskPrompt maxIters d'
    r.1 = r'.1 ∧ r.2.Alike workDir r'.2 ∧ (∀ p, ¬workDir <+: p → r.2.get p = d.get p) ∧
      ((¬∃ cmd, Asks fits chat cmd) → ¬r.1.wroteAny →
        ∀ p b, r.2.get p = some (.file b) ↔ d.get p = some (.file b)) := by
  obtain ⟨hr, ha, -, ht⟩ :=
    @turns_alike _ host fits chat (start d systemPrompt taskPrompt) 0 d' maxIters maxIters hk h
  exact ⟨hr, ha, fun _ => ht.outside, fun hc hw p b => ht.file (not_or.mpr ⟨hw, hc⟩)⟩

-- A file that is written, next to one outside of the workspace that the model has no part in.
theorem ToolLoop.confined_write :
    let name (text : String) : OsStr := .ofString text
    let disk (outside : String) : HostDisk := {
      entries := [([], .dir), ([name "work"], .dir), ([name "notes"], .file (.text outside))]
      nodup   := show [[], [name "work"], [name "notes"]].Nodup by decide +kernel
      root    := List.mem_cons_self
      closed  := by
        intro p x n h
        have hp : p ++ [x] = [name "work"] ∨ p ++ [x] = [name "notes"] := by
          simpa [or_and_right] using List.mem_map_of_mem (f := Prod.fst) h
        obtain rfl : p = [] := by
          cases p
          all_goals simp_all
        exact List.mem_cons_self
    }
    let host : Host := ⟨fun _ => "", fun _ d => (⟨true, ""⟩, d)⟩
    let write := "\x7b\"tool\": \"write_file\", \"path\": \"a.txt\", \"content\": \"hi\"\x7d"
    let chat : Chat := fun
      | 0, _ => .ok { content := "```json\n" ++ write ++ "\n```" }
      | _, _ => .ok { content := "\x7b\"tool\": \"done\"\x7d" }
    let r := runToolLoop host (fun _ => true) chat [name "work"] "" "" 5 (disk "secret")
    r.2.get [name "work", name "a.txt"] = some (.file (.text "hi")) ∧ r.1.done ∧
      r.1 = (runToolLoop host (fun _ => true) chat [name "work"] "" "" 5 (disk "other")).1 := by
  intro name disk host write chat r
  refine ⟨by decide +kernel, by decide +kernel, ?_⟩
  refine (ToolLoop.confined host _ chat _ _ _ _ _ _ ⟨by decide +kernel, ?_⟩ ?_).left
  · intro q
    have hn : name "notes" ≠ name "work" := by decide +kernel
    by_cases hq : q = []
    case pos => simp [Disk.get, disk, hq]
    case neg => simp [Disk.get, disk, hq, hn]
  · exact fun _ _ _ _ h => ⟨rfl, h, .refl⟩
