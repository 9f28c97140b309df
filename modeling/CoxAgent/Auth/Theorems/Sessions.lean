import CoxAgent.Auth.Theorems.Accounts
import CoxAgent.Auth.Theorems.Throttle

namespace FileAuthService

variable {ι : Type} {lib : AuthLib} {s : FileAuthService ι} {token username label : String} {user : AuthUser}
  {expires unix : Nat} {role : AuthRole} {written : FileWrite} {i : ι}

section Definitions

-- A session that the service or its file has.
def Remembered (s : FileAuthService ι) (token : String) (user : AuthUser) (expires : Nat) : Prop :=
  ∃ x, (s.sessions.get? token = some x ∨ s.sessionsFile.get? token = some x) ∧ x.user = user ∧ x.expires = expires

-- The event opens a session for the login of a thread that was accepted.
inductive Opens (s : FileAuthService ι) (i : ι) (token : String) : AuthUser → Nat → AuthEvent ι → Prop
  | intro (username at' : String) (role : AuthRole) (instant unix : Nat) (written : FileWrite) :
    s.stage i = .accepted username role →
    Opens s i token { username, role } (unix + sessionTtl) (.conclude i token at' instant unix written)

-- The event shows that the credentials of a login are those of the account.
inductive Verifies (lib : AuthLib) (s : FileAuthService ι) (i : ι) (username : String) : AuthEvent ι → Prop
  | intro (unix : Nat) (stored : StoredUser) (password : String) (totp : Option String) :
    s.stage i = .checked username password totp → s.find username = some stored →
    lib.verifyPassword stored.hash password →
    (∀ secret ∈ stored.totpSecret, ∃ code ∈ totp, Totp.verify lib.mac secret code unix) →
    Verifies lib s i username (.verify i unix)

end Definitions

section Tokens

-- Who resolves a token has a live session, and is an account that exists.
theorem userFor_some (h : (s.userFor token unix written).1 = some user) :
    ∃ x stored, s.sessions.get? token = some x ∧ unix < x.expires ∧ s.find x.user.username = some stored ∧
      stored.username = x.user.username ∧ stored.principal = user := by
  unfold userFor at h
  split at h
  case h_1 => contradiction
  case h_2 x hx =>
    split at h
    case isTrue       => contradiction
    case isFalse hlive =>
      obtain ⟨stored, hfind, hu⟩ := Option.map_eq_some_iff.mp h
      have hname := List.find?_some (show s.users.find? (·.username = x.user.username) = some stored from hfind)
      exact ⟨x, stored, hx, Nat.not_le.mp hlive, hfind, of_decide_eq_true hname, hu⟩

end Tokens

section Steps

theorem remembered_congr {s' : FileAuthService ι} (hs : s'.sessions = s.sessions)
    (hf : s'.sessionsFile = s.sessionsFile) (h : Remembered s' token user expires) :
    Remembered s token user expires := by
  rwa [Remembered, hs, hf] at h

theorem remembered_persist (h : Remembered (s.persistSessions written) token user expires) :
    Remembered s token user expires := by
  obtain ⟨x, hx, hu⟩ := h
  cases written
  case refused => exact ⟨x, hx, hu⟩
  case whole   => exact ⟨x, .inl (or_self_iff.mp hx), hu⟩
  case torn    => exact ⟨x, .inl (hx.resolve_right (by simp [persistSessions])), hu⟩

theorem remembered_remove {other : String}
    (h : Remembered { s with sessions := s.sessions.remove other } token user expires) :
    Remembered s token user expires := by
  obtain ⟨x, hx, hu⟩ := h
  refine ⟨x, hx.imp_left fun hx => ?_, hu⟩
  rw [BTreeMap.get?_remove] at hx
  split at hx
  case isTrue  => contradiction
  case isFalse => exact hx

theorem remembered_boot {admin : Option (String × String)}
    (h : Remembered (s.boot admin unix written) token user expires) : Remembered s token user expires := by
  obtain ⟨x, hx, hu⟩ := h
  refine ⟨x, .inr ?_, hu⟩
  have hfresh := @fresh_boot ι s written admin unix
  generalize s.boot admin unix written = s' at hfresh hx
  cases hx
  case inr hx => cases hfresh <;> exact hx
  case inl hx =>
    cases hfresh
    case refused => simp at hx
    case started =>
      dsimp only at hx
      rw [BTreeMap.get?_retain] at hx
      split at hx
      case isTrue  => exact hx
      case isFalse => contradiction

variable [DecidableEq ι]

-- A session is known already, or the event opens it.
theorem remembered_step {e : AuthEvent ι} (h : Remembered (s.step lib e) token user expires) :
    Remembered s token user expires ∨ ∃ i, Opens s i token user expires e := by
  by_cases ha : IsAccount e
  case pos =>
    have hapart : Apart s (s.step lib e) := account_frame s ha
    exact .inl (remembered_congr hapart.sessions hapart.sessionsFile h)
  cases e
  case attempt i u password totp instant =>
    refine .inl ?_
    simp only [step, attempt] at h
    split at h
    case h_2 => exact h
    case h_1 =>
      have hlock : (s.isLocked u instant).2.sessions = s.sessions ∧
          (s.isLocked u instant).2.sessionsFile = s.sessionsFile := by
        unfold isLocked
        split
        · exact ⟨rfl, rfl⟩
        · split <;> exact ⟨rfl, rfl⟩
      split at h <;> exact remembered_congr hlock.left hlock.right h
  case verify i unix =>
    refine .inl ?_
    simp only [step, verify] at h
    split at h
    case h_2 => exact h
    case h_1 =>
      split at h
      case h_1 => exact h
      case h_2 =>
        split at h
        case h_1 => exact h
        case h_2 => exact h
        case h_3 => split at h <;> exact h
  case conclude i t at' instant unix written =>
    simp only [step, conclude] at h
    split at h
    case h_1 => exact .inl h
    case h_3 => exact .inl h
    case h_2 u role hstage =>
      obtain ⟨x, hx, rfl, rfl⟩ := remembered_persist h
      dsimp only [clearFailures] at hx
      rw [BTreeMap.get?_insert] at hx
      split at hx
      case isFalse => exact .inl ⟨x, hx, rfl, rfl⟩
      case isTrue ht =>
        subst ht
        cases hx
        case inl hx =>
          obtain rfl := Option.some.inj hx
          exact .inr ⟨i, .intro u at' role instant unix written hstage⟩
        case inr hx => exact .inl ⟨x, .inr hx, rfl, rfl⟩
  case userFor t unix written =>
    refine .inl ?_
    simp only [step, userFor] at h
    split at h
    case h_1 => exact h
    case h_2 =>
      split at h
      case isTrue  => exact remembered_remove (remembered_persist h)
      case isFalse => exact h
  case logout t written =>
    refine .inl ?_
    simp only [step, logout] at h
    split at h
    case isTrue  => exact remembered_remove (remembered_persist h)
    case isFalse => exact h
  case attachDevice t device written =>
    refine .inl ?_
    simp only [step, attachDevice] at h
    split at h
    case h_1 => exact h
    case h_2 session hs =>
      obtain ⟨x, hx, rfl, rfl⟩ := remembered_persist h
      dsimp only at hx
      rw [BTreeMap.get?_insert] at hx
      split at hx
      case isFalse => exact ⟨x, hx, rfl, rfl⟩
      case isTrue ht =>
        subst ht
        cases hx
        case inl hx =>
          obtain rfl := Option.some.inj hx
          exact ⟨session, .inl hs, rfl, rfl⟩
        case inr hx => exact ⟨x, .inr hx, rfl, rfl⟩
  case boot => exact .inl (remembered_boot h)
  all_goals exact absurd rfl ha

-- A login is accepted already, or the event verifies it.
theorem accepted_step {e : AuthEvent ι} (h : (s.step lib e).stage i = .accepted username role) :
    s.stage i = .accepted username role ∨ Verifies lib s i username e := by
  have hmove {j : ι} {next : LoginStage} (hne : next ≠ .accepted username role)
      (h : Function.update s.stage j next i = .accepted username role) : s.stage i = .accepted username role := by
    by_cases hj : i = j
    case pos =>
      subst hj
      rw [Function.update_self] at h
      exact absurd h hne
    case neg => rwa [Function.update_of_ne hj] at h
  by_cases hl : IsLogin e
  case neg => exact .inl ((step_frame s hl).right ▸ h)
  cases e
  case attempt j u password totp instant =>
    refine .inl ?_
    simp only [step, attempt] at h
    split at h
    case h_2 => exact h
    case h_1 =>
      have hlock : (s.isLocked u instant).2.stage = s.stage := by
        unfold isLocked
        split
        case h_1 => rfl
        case h_2 => split <;> rfl
      split at h
      case isTrue  => exact hlock ▸ h
      case isFalse => exact hmove (by simp) (hlock ▸ h)
  case verify j unix =>
    simp only [step, verify] at h
    split at h
    case h_2 => exact .inl h
    case h_1 u password totp hstage =>
      split at h
      case h_1 => exact .inl (hmove (by simp) h)
      case h_2 stored hfind =>
        obtain ⟨hfind, hpassword⟩ := Option.filter_eq_some_iff.mp hfind
        -- A verdict for another login leaves this one as it is.
        have hother {next : LoginStage} (hj : i ≠ j)
            (h : Function.update s.stage j next i = .accepted username role) :
            s.stage i = .accepted username role := by rwa [Function.update_of_ne hj] at h
        have hself {r : AuthRole} (hcode : ∀ secret ∈ stored.totpSecret, ∃ code ∈ totp,
              Totp.verify lib.mac secret code unix)
            (h : Function.update s.stage j (.accepted u r) i = .accepted username role) :
            s.stage i = .accepted username role ∨ Verifies lib s i username (.verify j unix) := by
          by_cases hj : i = j
          case neg => exact .inl (hother hj h)
          case pos =>
            subst hj
            rw [Function.update_self] at h
            obtain ⟨rfl, -⟩ := LoginStage.accepted.inj h
            exact .inr (.intro unix stored password totp hstage hfind hpassword hcode)
        split at h
        case h_1 hnone      => exact hself (by simp [hnone]) h
        case h_2            => exact .inl (hmove (by simp) h)
        case h_3 secret code hsecret =>
          split at h
          case isFalse    => exact .inl (hmove (by simp) h)
          case isTrue hok =>
            refine hself (fun secret' hs => ⟨code, rfl, ?_⟩) h
            rw [hsecret] at hs
            exact Option.some.inj hs ▸ hok
  case conclude j t at' instant unix written =>
    refine .inl ?_
    simp only [step, conclude] at h
    split at h
    case h_1 => exact hmove (by simp) h
    case h_3 => exact h
    case h_2 =>
      rw [persistSessions_stage] at h
      exact hmove (by simp) h
  case boot admin unix written => exact absurd h (by simp [step, (fresh_boot admin unix).idle i])
  all_goals contradiction

end Steps

section Runs

variable [DecidableEq ι] {events : List (AuthEvent ι)}

theorem run_append (e : AuthEvent ι) : s.run lib (events ++ [e]) = (s.run lib events).step lib e := by
  rw [run, List.foldl_append, List.foldl_cons, List.foldl_nil, run]

-- The login of a thread is accepted: its credentials were those of the account at an event of the run, and since
-- then the thread has done nothing.
def Verified (lib : AuthLib) (s : FileAuthService ι) (events : List (AuthEvent ι)) (i : ι) (username : String)
    (role : AuthRole) : Prop :=
  ∃ pre e mid, events = pre ++ e :: mid ∧ Verifies lib (s.run lib pre) i username e ∧
    ∀ m, m <+: mid → (s.run lib (pre ++ e :: m)).stage i = .accepted username role

-- A session was opened at an event of the run by a thread whose login was accepted.
def Opened (lib : AuthLib) (s : FileAuthService ι) (events : List (AuthEvent ι)) (token : String) (user : AuthUser)
    (expires : Nat) : Prop :=
  ∃ pre e post i, events = pre ++ e :: post ∧ Opens (s.run lib pre) i token user expires e ∧
    Verified lib s pre i user.username user.role

theorem verified_of_accepted (hs : ∀ i, s.stage i = .idle)
    (h : (s.run lib events).stage i = .accepted username role) : Verified lib s events i username role := by
  induction events using List.reverseRecOn
  case nil                          => exact absurd (hs i ▸ h) (by simp)
  case append_singleton events e hi =>
    have hstep := h
    rw [run_append] at hstep
    cases accepted_step hstep
    case inl hold =>
      obtain ⟨pre, e', mid, rfl, hv, hm⟩ := hi hold
      refine ⟨pre, e', mid ++ [e], by rw [List.append_assoc, List.cons_append], hv, fun m hpre => ?_⟩
      cases List.prefix_concat_iff.mp hpre
      case inl hall => rwa [hall, ← List.cons_append, ← List.append_assoc]
      case inr hpre => exact hm m hpre
    case inr hv   =>
      refine ⟨events, e, [], rfl, hv, fun m hpre => ?_⟩
      rwa [List.prefix_nil.mp hpre]

theorem opened_of_remembered (hs : ∀ i, s.stage i = .idle) (hf : ∀ token user expires, ¬Remembered s token user expires)
    (h : Remembered (s.run lib events) token user expires) : Opened lib s events token user expires := by
  induction events using List.reverseRecOn
  case nil                          => exact absurd h (hf token user expires)
  case append_singleton events e hi =>
    rw [run_append] at h
    cases remembered_step h
    case inl h =>
      obtain ⟨pre, e', post, i, he, ho⟩ := hi h
      exact ⟨pre, e', post ++ [e], i, by rw [he, List.append_assoc, List.cons_append], ho⟩
    case inr h =>
      obtain ⟨i, h⟩ := h
      refine ⟨events, e, [], i, rfl, h, ?_⟩
      cases h
      case intro u at' r instant unix written hstage => exact verified_of_accepted hs hstage

-- Nobody is signed in without the credentials. Over every run, whoever a token resolves to is an account that exists
-- now, and the session was opened less than thirty days ago by the thread of a login to that account whose password,
-- and whose code if the account had a second factor, were right.
theorem signed_in (file : UserFile) (admin : Option (String × String)) (start : Nat) (events : List (AuthEvent ι))
    (h : (((({ userFile := .whole file } : FileAuthService ι).boot admin start).run lib events).userFor token unix
      written).1 = some user) :
    let s : FileAuthService ι := ({ userFile := .whole file } : FileAuthService ι).boot admin start
    ∃ opened expires stored, Opened lib s events token opened expires ∧ unix < expires ∧
      (s.run lib events).find opened.username = some stored ∧ stored.username = opened.username ∧
      stored.principal = user := by
  intro s
  obtain ⟨x, stored, hx, hlive, hfind, hname, hu⟩ := userFor_some h
  refine ⟨x.user, x.expires, stored, ?_, hlive, hfind, hname, hu⟩
  have hfresh : Fresh ({ userFile := .whole file } : FileAuthService ι) start s := fresh_boot admin start
  refine opened_of_remembered hfresh.idle ?_ ⟨x, .inl hx, rfl, rfl⟩
  intro token user expires hr
  obtain ⟨y, hy, -⟩ := remembered_boot hr
  simp at hy

theorem signed_in_second_factor :
    let lib : AuthLib := ⟨fun hash password => hash = password, fun _ _ _ => 0, fun _ => .ofFn fun _ => 0⟩
    let s : FileAuthService Bool := ({ userFile := .whole {} } : FileAuthService Bool).boot (some ("root", "secret")) 0
    let events : List (AuthEvent Bool) :=
      [.attempt true "root" "secret" none 1, .verify true 1, .conclude true "t" "now" 1 1 .whole, .boot none 5]
    ∃ opened expires stored, Opened lib s events "t" opened expires ∧ 7 < expires ∧
      (s.run lib events).find opened.username = some stored ∧ stored.username = opened.username ∧
      stored.principal = { username := "root", role := .super } := by
  intro lib s events
  exact @signed_in Bool lib "t" _ 7 .whole _ {} (some ("root", "secret")) 0 events (by decide)

end Runs

section Final

variable [DecidableEq ι]

end Final

end FileAuthService
