import CoxAgent.Auth.Service
import CoxAgent.Lib.Run
import Mathlib.Algebra.BigOperators.Group.Finset.Basic
import Mathlib.Algebra.Order.BigOperators.Group.Finset

namespace FileAuthService

variable {ι : Type} {lib : AuthLib} {username : String} {start : Nat}

section Definitions

-- A guess at the credentials of an account that got past the lock and is not answered yet.
def flying (username : String) : LoginStage → Nat
  | .checked u _ _ => if u = username then 1 else 0
  | .failed u      => if u = username then 1 else 0
  | _              => 0

def inFlight [Fintype ι] (username : String) (stage : ι → LoginStage) : Nat :=
  ∑ i, flying username (stage i)

-- A wrong guess that is answered.
def denial (username : String) (s : FileAuthService ι) : AuthEvent ι → Nat
  | .conclude i .. => if s.stage i = .failed username then 1 else 0
  | _              => 0

def denials [DecidableEq ι] (lib : AuthLib) (username : String) : FileAuthService ι → List (AuthEvent ι) → Nat
  | _, []           => 0
  | s, e :: events  => denial username s e + denials lib username (s.step lib e) events

-- What happens in a quarter of an hour in which nobody signs in to the account and the service is not restarted.
def Within (username : String) (start : Nat) (s : FileAuthService ι) : AuthEvent ι → Prop
  | .attempt _ _ _ _ instant    => start ≤ instant ∧ instant < start + lockout
  | .conclude i _ _ instant _ _ =>
    start ≤ instant ∧ instant < start + lockout ∧ ∀ role, s.stage i ≠ .accepted username role
  | .boot ..                    => False
  | _                           => True

-- The steps of a login, and the start of the service.
def IsLogin : AuthEvent ι → Bool
  | .attempt .. | .verify .. | .conclude .. | .boot .. => true
  | _                                                  => false

-- The changes of accounts and tokens.
def IsAccount : AuthEvent ι → Bool
  | .attempt .. | .verify .. | .conclude .. | .boot ..  => false
  | .userFor .. | .logout .. | .attachDevice ..         => false
  | _                                                   => true

-- An account is locked exactly if too many attempts failed.
def Throttling (s : FileAuthService ι) : Prop :=
  ∀ username, (s.attempts username).lockedUntil = none ↔ (s.attempts username).fails < maxFails

end Definitions

variable {s : FileAuthService ι}

section Frame

-- Accounts and tokens are apart from logins and sessions.
structure Apart (s s' : FileAuthService ι) : Prop where
  attempts     : s'.attempts = s.attempts
  stage        : s'.stage = s.stage
  sessions     : s'.sessions = s.sessions
  sessionsFile : s'.sessionsFile = s.sessionsFile

theorem Apart.refl : Apart s s :=
  ⟨rfl, rfl, rfl, rfl⟩

theorem Apart.of_pending {s' : FileAuthService ι} {pendingTotp : String → Option String}
    (h : Apart { s with pendingTotp } s') : Apart s s' :=
  ⟨h.attempts, h.stage, h.sessions, h.sessionsFile⟩

theorem apart_persist {users : List StoredUser} {tokens : List StoredToken} {written : FileWrite} :
    Apart s (persist { s with users, tokens } written) :=
  ⟨persist_attempts, persist_stage, persist_sessions, persist_sessionsFile⟩

theorem apart_change {f : StoredUser → StoredUser} {written : FileWrite} : Apart s (s.change username f written).2 := by
  unfold change
  split
  case h_1 => exact .refl
  case h_2 => exact apart_persist

theorem account_frame [DecidableEq ι] (s : FileAuthService ι) {e : AuthEvent ι} (he : IsAccount e) :
    Apart s (s.step lib e) := by
  cases e
  case mintToken =>
    simp only [step, mintToken]
    split
    case isTrue  => exact .refl
    case isFalse => exact apart_persist
  case revokeToken =>
    simp only [step, revokeToken]
    split
    case isTrue  => exact apart_persist
    case isFalse => exact .refl
  case createUser =>
    simp only [step, createUser]
    split
    case isTrue  => exact .refl
    case isFalse =>
      split
      case h_1 => exact .refl
      case h_2 => exact apart_persist
  case updateUser => exact apart_change
  case setPassword =>
    simp only [step, setPassword]
    split
    case isTrue  => exact .refl
    case isFalse =>
      split
      case h_1 => exact .refl
      case h_2 => exact apart_change
  case deleteUser =>
    simp only [step, deleteUser]
    split
    case isTrue  => exact .refl
    case isFalse =>
      split
      case isTrue  => exact .refl
      case isFalse => exact apart_persist
  case assignProject =>
    simp only [step, assignProject]
    split
    case h_1 => exact .refl
    case h_2 =>
      split
      case isTrue  => exact .refl
      case isFalse => exact apart_change
  case unassignProject =>
    simp only [step, unassignProject]
    split
    case h_1 => exact .refl
    case h_2 =>
      split
      case isTrue  => exact apart_change
      case isFalse => exact .refl
  case enroll2fa =>
    simp only [step, enroll2fa]
    split
    case isTrue  => exact ⟨rfl, rfl, rfl, rfl⟩
    case isFalse => exact .refl
  case enable2fa username code unix written =>
    simp only [step, enable2fa]
    split
    case h_1 => exact .refl
    case h_2 =>
      split
      case isFalse => exact .refl
      case isTrue  =>
        split
        case h_1 => exact .refl
        case h_2 =>
          exact apart_change.of_pending
  case disable2fa =>
    simp only [step, disable2fa]
    split
    case h_1 => exact .refl
    case h_2 => exact apart_change
  all_goals contradiction

-- Only logins and starts touch the attempts and the stages.
theorem step_frame [DecidableEq ι] (s : FileAuthService ι) {e : AuthEvent ι} (he : ¬IsLogin e) :
    (s.step lib e).attempts = s.attempts ∧ (s.step lib e).stage = s.stage := by
  by_cases ha : IsAccount e
  case pos => exact ⟨(account_frame s ha).attempts, (account_frame s ha).stage⟩
  case neg =>
    cases e
    case userFor =>
      simp only [step, userFor]
      split
      case h_1 => exact ⟨rfl, rfl⟩
      case h_2 => split <;> simp
    case logout =>
      simp only [step, logout]
      split <;> simp
    case attachDevice =>
      simp only [step, attachDevice]
      split <;> simp
    all_goals first | exact absurd rfl he | exact absurd rfl ha

theorem isLocked_other {u : String} (s : FileAuthService ι) (hu : u ≠ username) (instant : Nat) :
    (s.isLocked u instant).2.attempts username = s.attempts username ∧ (s.isLocked u instant).2.stage = s.stage := by
  unfold isLocked
  split
  case h_1 => exact ⟨rfl, rfl⟩
  case h_2 =>
    split
    case isTrue  => exact ⟨rfl, rfl⟩
    case isFalse => exact ⟨Function.update_of_ne hu.symm _ _, rfl⟩

end Frame

section Reachable

theorem unlocked : ({} : Attempts).lockedUntil = none ↔ ({} : Attempts).fails < maxFails :=
  iff_of_true rfl (by decide)

theorem throttling_boot (admin : Option (String × String)) (unix : Nat) (written : FileWrite) :
    (s.boot admin unix written).Throttling := by
  have hfresh := @fresh_boot ι s written admin unix
  generalize s.boot admin unix written = s' at hfresh ⊢
  cases hfresh <;> exact fun _ => unlocked

theorem throttling_update (h : s.Throttling) {a : Attempts} (ha : a.lockedUntil = none ↔ a.fails < maxFails)
    {s' : FileAuthService ι} (hs : s'.attempts = Function.update s.attempts username a) : s'.Throttling := by
  intro u
  rw [hs]
  by_cases hu : u = username
  case pos => rw [hu, Function.update_self, ha]
  case neg => rw [Function.update_of_ne hu, h u]

theorem throttling_isLocked (h : s.Throttling) (instant : Nat) : (s.isLocked username instant).2.Throttling := by
  unfold isLocked
  split
  case h_1 => exact h
  case h_2 =>
    split
    case isTrue  => exact h
    case isFalse => exact throttling_update h unlocked rfl

theorem throttling_recordFailure (h : s.Throttling) (instant : Nat) :
    (s.recordFailure username instant).Throttling := by
  refine throttling_update h ?_ rfl
  dsimp only
  split
  case isTrue hm  => exact iff_of_false (by simp) (Nat.not_lt.mpr hm)
  case isFalse hm => exact iff_of_true ((h username).mpr (by omega)) (Nat.lt_of_not_le hm)

theorem throttling_step [DecidableEq ι] (h : s.Throttling) (e : AuthEvent ι) : (s.step lib e).Throttling := by
  by_cases he : IsLogin e
  case neg =>
    intro u
    rw [(step_frame s he).left]
    exact h u
  case pos =>
    cases e
    case attempt i u password totp instant =>
      simp only [step, attempt]
      split
      case h_1 =>
        split
        case isTrue  => exact throttling_isLocked h instant
        case isFalse => exact throttling_isLocked h instant
      case h_2 => exact h
    case verify i unix =>
      simp only [step, verify]
      split
      case h_1 =>
        split
        case h_1 => exact h
        case h_2 =>
          split
          case h_1 => exact h
          case h_2 => exact h
          case h_3 => split <;> exact h
      case h_2 => exact h
    case conclude i token at' instant unix written =>
      simp only [step, conclude]
      split
      case h_1 => exact throttling_recordFailure h instant
      case h_2 => exact throttling_update h unlocked persistSessions_attempts
      case h_3 => exact h
    case boot admin unix written => exact throttling_boot admin unix written
    all_goals contradiction

end Reachable

section Flights

variable [Fintype ι]

omit [Fintype ι] in
theorem flying_le (stage : LoginStage) : flying username stage ≤ 1 := by
  cases stage <;> simp only [flying] <;> (try split) <;> simp

variable {stage : ι → LoginStage}

theorem inFlight_le : inFlight username stage ≤ Fintype.card ι := by
  calc inFlight username stage ≤ ∑ _ : ι, 1 := Finset.sum_le_sum fun _ _ => flying_le _
       _ = Fintype.card ι                   := by simp

-- A thread that moves on changes the count by its own part.
theorem inFlight_update [DecidableEq ι] (i : ι) (next : LoginStage) :
    inFlight username (Function.update stage i next) + flying username (stage i) =
      inFlight username stage + flying username next := by
  have h₁ := Finset.add_sum_erase Finset.univ (fun j => flying username (Function.update stage i next j))
    (Finset.mem_univ i)
  have h₂ := Finset.add_sum_erase Finset.univ (fun j => flying username (stage j)) (Finset.mem_univ i)
  have h₃ : ∑ j ∈ Finset.univ.erase i, flying username (Function.update stage i next j) =
      ∑ j ∈ Finset.univ.erase i, flying username (stage j) :=
    Finset.sum_congr rfl fun j hj => by rw [Function.update_of_ne (Finset.ne_of_mem_erase hj)]
  simp only [Function.update_self] at h₁
  unfold inFlight
  omega

end Flights

section Window

variable [Fintype ι] {r : Nat} {i : ι}

-- After `r` wrong guesses in the window: the account is not locked and they are counted, or it has been locked since
-- before the first one, or it stays locked until the window is over and only the guesses in flight are still to come.
def Guarded (username : String) (start r : Nat) (s : FileAuthService ι) : Prop :=
  match (s.attempts username).lockedUntil with
  | none        => r ≤ (s.attempts username).fails
  | some until' => r = 0 ∨ start + lockout ≤ until' ∧ r + inFlight username s.stage < maxFails + Fintype.card ι

theorem guarded_start : Guarded username start 0 s := by
  unfold Guarded
  split
  case h_1 => exact Nat.zero_le _
  case h_2 => exact .inl rfl

theorem Guarded.lt (h : Guarded username start r s) (hs : s.Throttling) : r < maxFails + Fintype.card ι := by
  unfold Guarded at h
  split at h
  case h_1 hl => exact (h.trans_lt ((hs username).mp hl)).trans_le (Nat.le_add_right _ _)
  case h_2    =>
    cases h
    case inl h => exact h ▸ Nat.add_pos_left (by decide) _
    case inr h => exact (Nat.le_add_right _ _).trans_lt h.right

-- The guard stays while the attempts stay and no guess comes in.
theorem Guarded.congr (h : Guarded username start r s) {s' : FileAuthService ι}
    (ha : s'.attempts username = s.attempts username)
    (hf : inFlight username s'.stage ≤ inFlight username s.stage) : Guarded username start r s' := by
  unfold Guarded at h ⊢
  rw [ha]
  cases hl : (s.attempts username).lockedUntil
  case none   => simpa only [hl] using h
  case some _ =>
    simp only [hl] at h ⊢
    exact h.imp_right fun h => ⟨h.left, (Nat.add_le_add_left hf r).trans_lt h.right⟩

variable [DecidableEq ι]

theorem Guarded.attempt (h : Guarded username start r s) {u password : String} {totp : Option String} {instant : Nat}
    (hi : instant < start + lockout) : Guarded username start r (s.attempt i u password totp instant).2 := by
  simp only [FileAuthService.attempt]
  split
  case h_2       => exact h
  case h_1 hidle =>
    by_cases hu : u = username
    case neg =>
      have ⟨hattempts, hstage⟩ := isLocked_other s hu instant
      split
      case isTrue  => exact h.congr hattempts (by rw [hstage])
      case isFalse =>
        refine h.congr hattempts ?_
        have hcount := @inFlight_update ι username _ s.stage _ i (.checked u password totp)
        simp only [hidle, flying, if_neg hu] at hcount
        rw [hstage]
        exact hcount.le
    case pos =>
      subst hu
      unfold isLocked
      split
      case h_1 hl =>
        unfold Guarded at h ⊢
        simpa only [hl, Bool.false_eq_true, ↓reduceIte] using h
      case h_2 until' hl =>
        split
        case isTrue hlt  => simpa only [↓reduceIte] using h
        case isFalse hlt =>
          -- The lock has expired in the window, so that it was there before the first guess.
          have hr : r = 0 := by
            unfold Guarded at h
            simp only [hl] at h
            omega
          unfold Guarded
          simp [hr]

theorem Guarded.verify (h : Guarded username start r s) (unix : Nat) :
    Guarded username start r (s.verify lib i unix).2 := by
  have hmove (next : LoginStage) (hle : flying username next ≤ flying username (s.stage i)) :
      Guarded username start r { s with stage := Function.update s.stage i next } := by
    refine h.congr rfl ?_
    have hcount := @inFlight_update ι username _ s.stage _ i next
    dsimp only
    omega
  simp only [FileAuthService.verify]
  split
  case h_2 => exact h
  case h_1 u password totp hstage =>
    have hu : flying username (s.stage i) = flying username (.failed u) := by rw [hstage, flying, flying]
    split
    case h_1 => exact hmove _ hu.ge
    case h_2 =>
      split
      case h_1 => exact hmove _ (Nat.zero_le _)
      case h_2 => exact hmove _ (Nat.zero_le _)
      case h_3 secret code _ =>
        generalize Totp.verify lib.mac secret code unix = right
        cases right
        case true  => exact hmove _ (Nat.zero_le _)
        case false => exact hmove _ hu.ge

theorem Guarded.recordFailure (h : Guarded username start r s) (hs : s.Throttling) {instant : Nat}
    (hi : start ≤ instant) (hstage : s.stage i = .failed username) :
    Guarded username start (r + 1)
      { s.recordFailure username instant with stage := Function.update s.stage i .idle } := by
  have hcount := @inFlight_update ι username _ s.stage _ i .idle
  simp only [hstage, flying, ↓reduceIte] at hcount
  have hle := @inFlight_le ι username _ s.stage
  unfold Guarded at h ⊢
  simp only [FileAuthService.recordFailure, Function.update_self]
  cases hl : (s.attempts username).lockedUntil
  case none =>
    have hlt := (hs username).mp hl
    simp only [hl] at h
    by_cases hm : maxFails ≤ (s.attempts username).fails + 1
    case pos =>
      simp only [if_pos hm]
      exact .inr ⟨by omega, by omega⟩
    case neg =>
      simp only [if_neg hm]
      omega
  case some until' =>
    have hfull : maxFails ≤ (s.attempts username).fails := by
      rw [← Nat.not_lt, ← hs username, hl]
      simp
    have hm : maxFails ≤ (s.attempts username).fails + 1 := Nat.le_succ_of_le hfull
    have hpos : 0 < maxFails := by decide
    simp only [hl] at h
    simp only [if_pos hm]
    refine .inr ⟨by omega, ?_⟩
    cases h
    case inl h => omega
    case inr h => omega

theorem Guarded.step (h : Guarded username start r s) (hs : s.Throttling) {e : AuthEvent ι}
    (he : Within username start s e) : Guarded username start (r + denial username s e) (s.step lib e) := by
  by_cases hl : IsLogin e
  case neg =>
    have ⟨hattempts, hstage⟩ := @step_frame ι lib _ s e hl
    have hzero : denial username s e = 0 := by cases e <;> first | rfl | exact absurd rfl hl
    rw [hzero]
    exact h.congr (congrFun hattempts username) (by rw [hstage])
  case pos =>
    cases e
    case attempt i u password totp instant => exact h.attempt he.right
    case verify i unix                     => exact h.verify unix
    case boot                              => exact he.elim
    case conclude i token at' instant unix written =>
      obtain ⟨hstart, -, hother⟩ := he
      simp only [FileAuthService.step, FileAuthService.conclude, denial]
      have hcount := @inFlight_update ι username _ s.stage _ i .idle
      cases hstage : s.stage i
      case idle | checked => exact h
      case failed u =>
        simp only [hstage] at hcount
        by_cases hu : u = username
        case pos =>
          subst hu
          rw [if_pos rfl]
          exact h.recordFailure hs hstart hstage
        case neg =>
          rw [if_neg fun he => hu (LoginStage.failed.inj he)]
          refine h.congr (Function.update_of_ne (Ne.symm hu) _ _) ?_
          simp only [flying, if_neg hu] at hcount
          exact hcount.le
      case accepted u role =>
        simp only [hstage] at hcount
        have hu : u ≠ username := by
          rintro rfl
          exact hother role hstage
        rw [if_neg (by simp)]
        refine h.congr ?_ ?_
        · rw [persistSessions_attempts]
          exact Function.update_of_ne hu.symm _ _
        · rw [persistSessions_stage]
          exact hcount.le
    all_goals contradiction

theorem guarded_run (h : Guarded username start r s) (hs : s.Throttling) {events : List (AuthEvent ι)}
    (he : Run.Meets (step lib) (Within username start) s events) :
    r + denials lib username s events < maxFails + Fintype.card ι := by
  induction events generalizing r s
  case nil              => exact h.lt hs
  case cons e events hi =>
    have hnext := hi (h.step hs he.left) (throttling_step hs e) he.right
    rwa [Nat.add_assoc] at hnext

-- Guesses are throttled. After any history, and however the logins of the threads interleave, fewer wrong guesses at
-- the credentials of an account are answered in a quarter of an hour than there are threads and attempts together,
-- unless somebody signs in to the account or the service is restarted.
theorem throttled (admin : Option (String × String)) (unix : Nat) (history events : List (AuthEvent ι))
    (he : Run.Meets (step lib) (Within username start) ((s.boot admin unix).run lib history) events) :
    denials lib username ((s.boot admin unix).run lib history) events < maxFails + Fintype.card ι := by
  have hs : ((s.boot admin unix).run lib history).Throttling :=
    Run.inv_all (fun _ e h => throttling_step h e) (throttling_boot admin unix .whole)
  have h := guarded_run guarded_start hs he
  rwa [Nat.zero_add] at h

-- Two threads that guess at once.
theorem throttled_guesses :
    let lib : AuthLib := ⟨fun hash password => hash = password, fun _ _ _ => 0, fun _ => .ofFn fun _ => 0⟩
    let s : FileAuthService Bool := (({} : FileAuthService Bool).boot none 0).run lib
      [.createUser "ann" (some "secret") false .admin .whole]
    let events : List (AuthEvent Bool) :=
      [.attempt true "ann" "guess" none 10, .attempt false "ann" "other" none 10, .verify false 10, .verify true 11,
        .conclude true "t" "now" 12 12 .whole, .conclude false "u" "now" 12 12 .whole]
    denials lib "ann" s events = 2 ∧ denials lib "ann" s events < 7 := by
  intro lib s events
  have hmeets : Run.Meets (step lib) (Within "ann" 0) s events :=
    ⟨⟨by decide, by decide⟩, ⟨by decide, by decide⟩, trivial, trivial,
      ⟨by decide, by decide, fun _ h => by contradiction⟩, ⟨by decide, by decide, fun _ h => by contradiction⟩, trivial⟩
  exact ⟨by decide, throttled none 0 _ events hmeets⟩

end Window

end FileAuthService
