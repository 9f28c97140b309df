import CoxAgent.Auth.Service
import CoxAgent.Lib.Run

-- A file that parses after a write is the old one or the new one.
theorem AuthFile.write_eq_whole {old : AuthFile} {file file' : UserFile} {written : FileWrite}
    (h : old.write file written = .whole file') : old = .whole file' ∨ written = .whole ∧ file' = file := by
  cases written
  case whole   => exact .inr ⟨rfl, (AuthFile.whole.inj h).symm⟩
  case refused => exact .inl h
  case torn e  => cases e <;> contradiction

namespace FileAuthService

variable {ι : Type} {lib : AuthLib} {s : FileAuthService ι} {username label : String} {written : FileWrite}

section Definitions

def creates : AuthEvent ι → Option String
  | .createUser username .. => some username
  | .boot admin _ _         => admin.map Prod.fst
  | _                       => none

def mints : AuthEvent ι → Option String
  | .mintToken label .. => some label
  | _                   => none

-- The event takes the role of an administrator from an account.
def Demotes (s : FileAuthService ι) : AuthEvent ι → Prop
  | .createUser username _ _ role _        => ∃ u, s.find username = some u ∧ u.role.isAdminTier ∧ ¬role.isAdminTier
  | .updateUser username _ _ (some role) _ => ∃ u, s.find username = some u ∧ u.role.isAdminTier ∧ ¬role.isAdminTier
  | _                                      => False

def grants : AuthEvent ι → Option (String × String)
  | .assignProject username pid _ => some (username, pid)
  | _                             => none

-- What a step may do to accounts and tokens besides taking from them.
structure Scope where
  creates : Option String
  mints   : Option String
  demotes : Prop
  grants  : Option (String × String)

def scope (s : FileAuthService ι) (e : AuthEvent ι) : Scope where
  creates := creates e
  mints   := mints e
  demotes := Demotes s e
  grants  := grants e

-- What one step makes of some accounts and tokens.
inductive Edit (users : List StoredUser) (tokens : List StoredToken) (may : Scope) :
    List StoredUser → List StoredToken → Prop
  | keep : Edit users tokens may users tokens
  | add (u : StoredUser) : may.creates = some u.username → u.username ∉ users.map (·.username) → u.projects = [] →
    Edit users tokens may (users ++ [u]) tokens
  | modify (username : String) (f : StoredUser → StoredUser) : (∀ u, (f u).username = u.username) →
    (∀ u, users.find? (·.username = username) = some u → u.role.isAdminTier → (f u).role.isAdminTier ∨ may.demotes) →
    (∀ u, ∀ pid ∈ (f u).projects, pid ∈ u.projects ∨ may.grants = some (username, pid)) →
    Edit users tokens may (modify username f users) tokens
  | remove (username : String) :
    ((∃ u ∈ users, u.username ≠ username ∧ u.role.isAdminTier) ∨
      ∀ u ∈ users, u.username = username → ¬u.role.isAdminTier) →
    Edit users tokens may (users.filter (·.username ≠ username)) tokens
  | mint (t : StoredToken) : may.mints = some t.label → t.label ∉ tokens.map (·.label) →
    Edit users tokens may users (tokens ++ [t])
  | revoke (label : String) : Edit users tokens may users (tokens.filter (·.label ≠ label))

-- What parses in the place of the user file is what was there, or what is in memory.
def Kept (s s' : FileAuthService ι) : Prop :=
  ∀ file, s'.userFile = .whole file → s.userFile = .whole file ∨ file = ⟨s'.users, s'.tokens⟩

-- A step edits what is in memory, and may write the result to the file.
def Edited (s : FileAuthService ι) (may : Scope) (s' : FileAuthService ι) : Prop :=
  Edit s.users s.tokens may s'.users s'.tokens ∧ Kept s s'

-- The start finds no user file that parses, or cannot write the account of the operator to it.
def Fails (s : FileAuthService ι) : AuthEvent ι → Prop
  | .boot admin _ written => (∀ file, s.userFile ≠ .whole file) ∨ admin.isSome ∧ written ≠ .whole
  | _                     => False

-- A property of the accounts and tokens, in memory and in the file if that parses.
def Both (P : List StoredUser → List StoredToken → Prop) (s : FileAuthService ι) : Prop :=
  P s.users s.tokens ∧ ∀ file, s.userFile = .whole file → P file.users file.tokens

end Definitions

section Modify

variable {l : List StoredUser} {f : StoredUser → StoredUser}

theorem modify_names (hf : ∀ u, (f u).username = u.username) :
    (modify username f l).map (·.username) = l.map (·.username) := by
  induction l
  case nil         => rfl
  case cons u l hi =>
    rw [modify]
    split
    case isTrue  => rw [List.map_cons, hf, List.map_cons]
    case isFalse => rw [List.map_cons, hi, List.map_cons]

-- The accounts afterwards are those before, but for the first one of the name.
theorem mem_modify {u : StoredUser} (h : u ∈ l) :
    u ∈ modify username f l ∨ (l.find? (·.username = username) = some u ∧ f u ∈ modify username f l) := by
  induction l
  case nil         => simp at h
  case cons x l hi =>
    rw [modify]
    split
    case isTrue hx =>
      cases List.mem_cons.mp h
      case inl he =>
        subst he
        exact .inr ⟨List.find?_cons_of_pos (by simpa using hx), List.mem_cons_self⟩
      case inr hm => exact .inl (List.mem_cons_of_mem _ hm)
    case isFalse hx =>
      rw [List.find?_cons_of_neg (by simpa using hx)]
      cases List.mem_cons.mp h
      case inl he => exact .inl (he ▸ List.mem_cons_self)
      case inr hm => exact (hi hm).imp (List.mem_cons_of_mem _) (And.imp_right (List.mem_cons_of_mem _))

theorem mem_modify_of_find {u : StoredUser} (h : l.find? (·.username = username) = some u) :
    f u ∈ modify username f l := by
  induction l
  case nil         => simp at h
  case cons x l hi =>
    rw [modify]
    split
    case isTrue hx  =>
      rw [List.find?_cons_of_pos (by simpa using hx), Option.some.injEq] at h
      exact h ▸ List.mem_cons_self
    case isFalse hx =>
      rw [List.find?_cons_of_neg (by simpa using hx)] at h
      exact List.mem_cons_of_mem _ (hi h)

theorem modifyFirst_eq {hash : String} :
    bootstrapAdmin.modifyFirst username hash l = modify username (fun u => { u with hash, role := .super }) l := by
  induction l
  case nil         => rfl
  case cons u l hi => rw [bootstrapAdmin.modifyFirst, modify, hi]

end Modify

section Steps

variable {may : Scope}

theorem edited_same {s' : FileAuthService ι} (hu : s'.users = s.users) (ht : s'.tokens = s.tokens)
    (hf : s'.userFile = s.userFile) : Edited s may s' :=
  ⟨hu ▸ ht ▸ .keep, fun _ h => .inl (hf ▸ h)⟩

theorem edited_persist {users : List StoredUser} {tokens : List StoredToken}
    (h : Edit s.users s.tokens may users tokens) :
    Edited s may (persist { s with users, tokens } written) := by
  refine ⟨h, fun file hf => ?_⟩
  cases AuthFile.write_eq_whole hf
  case inl hf => exact .inl hf
  case inr hf => exact .inr hf.right

theorem edited_change {f : StoredUser → StoredUser} (hf : ∀ u, (f u).username = u.username)
    (hr : ∀ u, s.find username = some u → u.role.isAdminTier → (f u).role.isAdminTier ∨ may.demotes)
    (hp : ∀ u, ∀ pid ∈ (f u).projects, pid ∈ u.projects ∨ may.grants = some (username, pid)) :
    Edited s may (s.change username f written).2 := by
  unfold change
  split
  case h_1 => exact edited_same rfl rfl rfl
  case h_2 => exact edited_persist (.modify username f hf hr hp)

theorem not_mem_of_find (h : s.find username = none) : username ∉ s.users.map (·.username) := by
  rw [find, List.find?_eq_none] at h
  rw [List.mem_map]
  rintro ⟨u, hu, he⟩
  exact h u hu (decide_eq_true he)

theorem edited_deleteUser : Edited s may (s.deleteUser username written).2 := by
  unfold deleteUser
  split
  case isTrue  => exact edited_same rfl rfl rfl
  case isFalse =>
    dsimp only
    split
    case isTrue       => exact edited_same rfl rfl rfl
    case isFalse hlast =>
      refine edited_persist (.remove username ?_)
      rw [Bool.and_eq_true_iff, not_and_or] at hlast
      cases hlast
      case inl hn =>
        refine .inr fun u hu he ha => hn (List.any_eq_true.mpr ⟨u, hu, ?_⟩)
        rw [ha, decide_eq_true he]
        rfl
      case inr hn =>
        rw [decide_eq_true_eq, List.countP_eq_zero] at hn
        push Not at hn
        obtain ⟨u, hu, ha⟩ := hn
        rw [Bool.and_eq_true_iff, decide_eq_true_eq] at ha
        exact .inl ⟨u, hu, ha.right, ha.left⟩

theorem edited_createUser {hash : Option String} {passwordEmpty : Bool} {role : AuthRole}
    (hn : may.creates = some username)
    (hr : ∀ u, s.find username = some u → u.role.isAdminTier → role.isAdminTier ∨ may.demotes) :
    Edited s may (s.createUser username hash passwordEmpty role written).2 := by
  unfold createUser
  split
  case isTrue  => exact edited_same rfl rfl rfl
  case isFalse =>
    split
    case h_1 => exact edited_same rfl rfl rfl
    case h_2 hash =>
      dsimp only
      cases hf : s.find username
      case none   => exact edited_persist (.add { username, hash, role } hn (not_mem_of_find hf) rfl)
      case some u => exact edited_persist (.modify username _ (fun _ => rfl) hr fun _ _ => .inl)

theorem edited_mintToken {l secret owner created : String} {role : AuthRole}
    (hl : may.mints = some l) :
    Edited s may (s.mintToken lib l role owner secret created written).2 := by
  unfold mintToken
  split
  case isTrue      => exact edited_same rfl rfl rfl
  case isFalse hany =>
    refine edited_persist (.mint _ hl fun hm => hany ?_)
    obtain ⟨t, ht, he⟩ := List.mem_map.mp hm
    exact List.any_eq_true.mpr ⟨t, ht, decide_eq_true he⟩

theorem edited_revokeToken {l : String} : Edited s may (s.revokeToken l written).2 := by
  unfold revokeToken
  split
  case isTrue  => exact edited_persist (.revoke l)
  case isFalse => exact edited_same rfl rfl rfl

theorem edit_bootstrapAdmin {username hash : String} {file : UserFile} (hc : may.creates = some username) :
    Edit file.users file.tokens may (bootstrapAdmin username hash file).users
      (bootstrapAdmin username hash file).tokens := by
  unfold bootstrapAdmin
  split
  case isTrue =>
    rw [modifyFirst_eq]
    exact .modify username _ (fun _ => rfl) (fun _ _ _ => .inl rfl) fun _ _ => .inl
  case isFalse hany =>
    refine .add { username, hash, role := .super } hc (fun hm => hany ?_) rfl
    obtain ⟨u, hu, he⟩ := List.mem_map.mp hm
    exact List.any_eq_true.mpr ⟨u, hu, decide_eq_true he⟩

-- A start edits what is in the file, and takes it over.
theorem edit_boot {admin : Option (String × String)} {unix : Nat} {file : UserFile} (hf : s.userFile = .whole file)
    (hw : admin.isSome → written = .whole) :
    Edit file.users file.tokens (scope s (.boot admin unix written)) (s.boot admin unix written).users
      (s.boot admin unix written).tokens := by
  cases admin
  case none         => simpa only [boot, hf, AuthFile.load] using .keep
  case some account =>
    simp only [boot, hf, AuthFile.load, hw rfl, if_true]
    exact edit_bootstrapAdmin rfl

-- What cannot be taken over leaves nothing.
theorem boot_fails {admin : Option (String × String)} {unix : Nat} (h : Fails s (.boot admin unix written)) :
    Edit [] [] (scope s (.boot admin unix written)) (s.boot admin unix written).users
      (s.boot admin unix written).tokens := by
  have hrefused {s' : FileAuthService ι} (hu : s'.users = []) (ht : s'.tokens = []) :
      Edit [] [] (scope s (.boot admin unix written)) s'.users s'.tokens := hu ▸ ht ▸ .keep
  unfold boot
  cases hf : s.userFile
  case bad e      => exact hrefused rfl rfl
  case unreadable =>
    cases admin
    case none         => exact .keep
    case some account =>
      dsimp only [AuthFile.load]
      split
      case isTrue  => exact @edit_bootstrapAdmin _ _ _ {} rfl
      case isFalse => exact hrefused rfl rfl
  case whole file =>
    cases h
    case inl h => exact absurd hf (h file)
    case inr h =>
      obtain ⟨account, rfl⟩ := Option.isSome_iff_exists.mp h.left
      dsimp only [AuthFile.load]
      rw [if_neg h.right]
      exact hrefused rfl rfl

theorem kept_boot (admin : Option (String × String)) (unix : Nat) : Kept s (s.boot admin unix written) := by
  intro file
  unfold boot
  cases hf : s.userFile.load
  case error e => exact .inl
  case ok old  =>
    cases admin
    case none         => exact .inl
    case some account =>
      dsimp only
      split
      case isTrue hw  =>
        rw [hw]
        exact fun hfile => .inr (AuthFile.whole.inj hfile).symm
      case isFalse hw => exact fun hfile => .inl ((AuthFile.write_eq_whole hfile).resolve_right fun h => hw h.left)

variable [DecidableEq ι]

theorem edited_step (s : FileAuthService ι) (e : AuthEvent ι) :
    Edited s (scope s e) (s.step lib e) ∨ (∃ admin unix written, e = .boot admin unix written) := by
  cases e
  case boot admin unix written => exact .inr ⟨admin, unix, written, rfl⟩
  all_goals refine .inl ?_
  case attempt i u password totp instant =>
    simp only [step, attempt]
    split
    case h_2 => exact edited_same rfl rfl rfl
    case h_1 =>
      have hlock : (s.isLocked u instant).2.users = s.users ∧ (s.isLocked u instant).2.tokens = s.tokens ∧
          (s.isLocked u instant).2.userFile = s.userFile := by
        unfold isLocked
        split
        · exact ⟨rfl, rfl, rfl⟩
        · split <;> exact ⟨rfl, rfl, rfl⟩
      split <;> exact edited_same hlock.left hlock.right.left hlock.right.right
  case verify i unix =>
    simp only [step, verify]
    split
    case h_2 => exact edited_same rfl rfl rfl
    case h_1 =>
      split
      case h_1 => exact edited_same rfl rfl rfl
      case h_2 =>
        split
        case h_1 => exact edited_same rfl rfl rfl
        case h_2 => exact edited_same rfl rfl rfl
        case h_3 => split <;> exact edited_same rfl rfl rfl
  case conclude =>
    simp only [step, conclude]
    split
    case h_1 => exact edited_same rfl rfl rfl
    case h_2 => exact edited_same persistSessions_users persistSessions_tokens persistSessions_userFile
    case h_3 => exact edited_same rfl rfl rfl
  case userFor =>
    simp only [step, userFor]
    split
    case h_1 => exact edited_same rfl rfl rfl
    case h_2 =>
      split
      case isTrue  => exact edited_same persistSessions_users persistSessions_tokens persistSessions_userFile
      case isFalse => exact edited_same rfl rfl rfl
  case logout =>
    simp only [step, logout]
    split
    case isTrue  => exact edited_same persistSessions_users persistSessions_tokens persistSessions_userFile
    case isFalse => exact edited_same rfl rfl rfl
  case attachDevice =>
    simp only [step, attachDevice]
    split
    case h_1 => exact edited_same rfl rfl rfl
    case h_2 => exact edited_same persistSessions_users persistSessions_tokens persistSessions_userFile
  case mintToken   => exact edited_mintToken rfl
  case revokeToken => exact edited_revokeToken
  case createUser username hash passwordEmpty role written =>
    refine edited_createUser rfl fun u hu ha => ?_
    by_cases hr : role.isAdminTier
    case pos => exact .inl hr
    case neg => exact .inr ⟨u, hu, ha, hr⟩
  case updateUser username name email role written =>
    refine edited_change (fun _ => rfl) (fun u hu ha => ?_) fun _ _ => .inl
    cases role
    case none => exact .inl ha
    case some role =>
      by_cases hr : role.isAdminTier
      case pos => exact .inl hr
      case neg => exact .inr ⟨u, hu, ha, hr⟩
  case setPassword =>
    simp only [step, setPassword]
    split
    case isTrue  => exact edited_same rfl rfl rfl
    case isFalse =>
      split
      case h_1 => exact edited_same rfl rfl rfl
      case h_2 => exact edited_change (fun _ => rfl) (fun _ _ => .inl) fun _ _ => .inl
  case deleteUser    => exact edited_deleteUser
  case assignProject u pid written =>
    simp only [step, assignProject]
    split
    case h_1 => exact edited_same rfl rfl rfl
    case h_2 =>
      split
      case isTrue  => exact edited_same rfl rfl rfl
      case isFalse =>
        refine edited_change (fun _ => rfl) (fun _ _ => .inl) fun stored p hp => ?_
        cases List.mem_append.mp hp
        case inl hp => exact .inl hp
        case inr hp => exact .inr (List.mem_singleton.mp hp ▸ rfl)
  case unassignProject =>
    simp only [step, unassignProject]
    split
    case h_1 => exact edited_same rfl rfl rfl
    case h_2 =>
      split
      case isTrue  =>
        exact edited_change (fun _ => rfl) (fun _ _ => .inl) fun _ _ hp => .inl (List.mem_of_mem_filter hp)
      case isFalse => exact edited_same rfl rfl rfl
  case enroll2fa =>
    simp only [step, enroll2fa]
    split <;> exact edited_same rfl rfl rfl
  case enable2fa username code unix written =>
    simp only [step, enable2fa]
    split
    case h_1 => exact edited_same rfl rfl rfl
    case h_2 =>
      split
      case isFalse => exact edited_same rfl rfl rfl
      case isTrue  =>
        split
        case h_1 => exact edited_same rfl rfl rfl
        case h_2 =>
          change Edited { s with pendingTotp := Function.update s.pendingTotp username none } _ _
          exact edited_change (fun _ => rfl) (fun _ _ => .inl) fun _ _ => .inl
  case disable2fa =>
    simp only [step, disable2fa]
    split
    case h_1 => exact edited_same rfl rfl rfl
    case h_2 => exact edited_change (fun _ => rfl) (fun _ _ => .inl) fun _ _ => .inl

-- What every edit keeps, every step keeps, if it holds of no accounts or no start fails.
theorem Both.step {P : List StoredUser → List StoredToken → Prop} (h : Both P s) {e : AuthEvent ι}
    (hnil : P [] [] ∨ ¬Fails s e)
    (hP : ∀ users tokens users' tokens', P users tokens → Edit users tokens (scope s e) users' tokens' →
      P users' tokens') : Both P (s.step lib e) := by
  have hboth {s' : FileAuthService ι} (hmem : P s'.users s'.tokens) (hk : Kept s s') : Both P s' := by
    refine ⟨hmem, fun file hf => ?_⟩
    cases hk file hf
    case inl hold => exact h.right file hold
    case inr hnew => exact hnew ▸ hmem
  obtain he | ⟨admin, unix, written, rfl⟩ := @edited_step ι lib _ s e
  case inl => exact hboth (hP _ _ _ _ h.left he.left) he.right
  case inr =>
    refine hboth ?_ (kept_boot admin unix)
    by_cases hf : Fails s (.boot admin unix written)
    case pos => exact hP _ _ _ _ (hnil.resolve_right (not_not_intro hf)) (boot_fails hf)
    case neg =>
      simp only [Fails, not_or, not_forall, not_not, not_and] at hf
      obtain ⟨⟨file, hfile⟩, hw⟩ := hf
      exact hP _ _ _ _ (h.right file hfile) (edit_boot hfile hw)

end Steps

section Invariants

variable {users users' : List StoredUser} {tokens tokens' : List StoredToken} {may : Scope}

def Distinct (users : List StoredUser) (tokens : List StoredToken) : Prop :=
  (users.map (·.username)).Nodup ∧ (tokens.map (·.label)).Nodup

def Administered (users : List StoredUser) (_ : List StoredToken) : Prop :=
  ∃ u ∈ users, u.role.isAdminTier

theorem Edit.distinct (h : Edit users tokens may users' tokens') (hd : Distinct users tokens) :
    Distinct users' tokens' := by
  cases h
  case keep              => exact hd
  case add u _ hu _      =>
    refine ⟨?_, hd.right⟩
    rw [List.map_append, List.map_singleton]
    exact hd.left.append (List.nodup_singleton _) fun a ha hm => hu (List.mem_singleton.mp hm ▸ ha)
  case modify u f hf _ _ =>
    rw [Distinct, modify_names hf]
    exact hd
  case remove            => exact ⟨hd.left.sublist (List.filter_sublist.map _), hd.right⟩
  case mint t _ ht       =>
    refine ⟨hd.left, ?_⟩
    rw [List.map_append, List.map_singleton]
    exact hd.right.append (List.nodup_singleton _) fun a ha hm => ht (List.mem_singleton.mp hm ▸ ha)
  case revoke            => exact ⟨hd.left, hd.right.sublist (List.filter_sublist.map _)⟩

theorem Edit.administered (h : Edit users tokens may users' tokens') (hd : ¬may.demotes)
    (ha : Administered users tokens) : Administered users' tokens' := by
  obtain ⟨u, hu, hr⟩ := ha
  cases h
  case keep                => exact ⟨u, hu, hr⟩
  case add                 => exact ⟨u, List.mem_append_left _ hu, hr⟩
  case mint                => exact ⟨u, hu, hr⟩
  case revoke              => exact ⟨u, hu, hr⟩
  case modify x f _ hrole _ =>
    cases @mem_modify x _ f _ hu
    case inl hm => exact ⟨u, hm, hr⟩
    case inr hm => exact ⟨f u, hm.right, (hrole u hm.left hr).resolve_right hd⟩
  case remove x hlast      =>
    cases hlast
    case inl h =>
      obtain ⟨v, hv, hne, hvr⟩ := h
      exact ⟨v, List.mem_filter.mpr ⟨hv, decide_eq_true hne⟩, hvr⟩
    case inr h =>
      by_cases hx : u.username = x
      case pos => exact absurd hr (h u hu hx)
      case neg => exact ⟨u, List.mem_filter.mpr ⟨hu, decide_eq_true hx⟩, hr⟩

theorem Edit.unknown (h : Edit users tokens may users' tokens') (hn : may.creates ≠ some username)
    (hu : username ∉ users.map (·.username)) : username ∉ users'.map (·.username) := by
  cases h
  case keep | mint | revoke => exact hu
  case modify u f hf _ _    => rwa [modify_names hf]
  case remove               => exact fun hm => hu ((List.filter_sublist.map _).subset hm)
  case add u he _ _         =>
    rw [List.map_append, List.map_singleton, List.mem_append, List.mem_singleton]
    rintro (hm | rfl)
    · exact hu hm
    · exact hn he

theorem administered_bootstrapAdmin {hash : String} {file : UserFile} :
    Administered (bootstrapAdmin username hash file).users (bootstrapAdmin username hash file).tokens := by
  unfold bootstrapAdmin
  split
  case isTrue h =>
    have hfind : (file.users.find? (·.username = username)).isSome := by
      rw [List.find?_isSome]
      simpa using h
    obtain ⟨v, hv⟩ := Option.isSome_iff_exists.mp hfind
    rw [modifyFirst_eq]
    exact ⟨_, mem_modify_of_find hv, rfl⟩
  case isFalse  => exact ⟨_, List.mem_append_right _ (List.mem_singleton_self _), rfl⟩

end Invariants

section Runs

variable [DecidableEq ι]

-- Over every run from a file with distinct names and labels, whatever writes are refused or torn and whenever the
-- service is restarted, names and labels stay distinct. If there is an administrator at the start, there is one as
-- long as nobody takes the role from an account and no start fails.
theorem accounts_sound (file : UserFile) (admin : Option (String × String)) (unix : Nat)
    (hd : Distinct file.users file.tokens) (ha : admin.isSome ∨ Administered file.users file.tokens)
    (events : List (AuthEvent ι)) :
    let s : FileAuthService ι := ({ userFile := .whole file } : FileAuthService ι).boot admin unix
    Both Distinct (s.run lib events) ∧
    (Run.Meets (step lib) (fun s e => ¬Demotes s e ∧ ¬Fails s e) s events →
      Both Administered (s.run lib events)) := by
  intro s
  have hboot : Edit file.users file.tokens _ s.users s.tokens :=
    @edit_boot ι { userFile := .whole file } _ admin unix file rfl fun _ => rfl
  have hdistinct : Distinct s.users s.tokens := hboot.distinct hd
  have hadmin : Administered s.users s.tokens := by
    cases admin
    case none         => exact hboot.administered id (ha.resolve_left (by simp))
    case some account => exact administered_bootstrapAdmin
  have hfile (file' : UserFile) (hf : s.userFile = .whole file') : file' = ⟨s.users, s.tokens⟩ := by
    cases admin <;> exact (AuthFile.whole.inj hf).symm
  refine ⟨?_, fun hm => ?_⟩
  case refine_1 =>
    refine Run.inv_all (fun s e h => h.step (.inl ⟨.nil, .nil⟩) fun _ _ _ _ hd he => he.distinct hd) ?_
    exact ⟨hdistinct, fun file' hf => hfile file' hf ▸ hdistinct⟩
  case refine_2 =>
    refine Run.inv (fun s e hn h => h.step (.inr hn.right) fun _ _ _ _ ha he => he.administered hn.left ha) hm ?_
    exact ⟨hadmin, fun file' hf => hfile file' hf ▸ hadmin⟩

theorem accounts_sound_bootstrap :
    let lib : AuthLib := ⟨fun hash password => hash = password, fun _ _ _ => 0, fun _ => .ofFn fun _ => 0⟩
    let s : FileAuthService Bool := ({ userFile := .whole {} } : FileAuthService Bool).boot (some ("root", "secret")) 0
    Administered (s.run lib [.createUser "ann" (some "x") false .viewer (.torn none), .deleteUser "root" .whole]).users
      [] := by
  intro lib s
  have h := @accounts_sound Bool lib _ {} (some ("root", "secret")) 0 ⟨by simp, by simp⟩ (.inl rfl)
    [.createUser "ann" (some "x") false .viewer (.torn none), .deleteUser "root" .whole]
  refine (h.right ⟨⟨fun hd => ?_, id⟩, ⟨id, id⟩, trivial⟩).left
  obtain ⟨u, hf, -⟩ := hd
  contradiction

end Runs

end FileAuthService
