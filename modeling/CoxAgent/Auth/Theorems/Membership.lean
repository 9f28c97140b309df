import CoxAgent.Auth.Theorems.Gate
import CoxAgent.Auth.Theorems.Sessions

namespace FileAuthService

variable {ι : Type} {lib : AuthLib} {s s' : FileAuthService ι} {username pid : String} {req : HttpRequest}
  {unix : Nat} {written : FileWrite} {user : AuthUser}

section Definitions

-- The request is made for an account: with a session of it, or with a token that belongs to it.
inductive Acts (lib : AuthLib) (s : FileAuthService ι) (req : HttpRequest) (unix : Nat) (written : FileWrite)
    (username : String) : AuthUser → Prop
  | session (token : String) (u : AuthUser) : req.bearerToken.bind (s.principalForBearer lib) = none →
    req.cookieValue HttpRequest.sessionCookie = some token → (s.userFor token unix written).1 = some u →
    u.username = username → Acts lib s req unix written username u
  | token (bearer : String) (t : StoredToken) (u : AuthUser) : req.bearerToken = some bearer →
    s.tokens.find? (·.hash = sha256Hex lib bearer) = some t → t.owner = username →
    s.principalForBearer lib bearer = some u → Acts lib s req unix written username u

theorem Acts.resolves (h : Acts lib s req unix written username user) :
    (s.resolvePrincipal lib req unix written).1 = some user := by
  unfold resolvePrincipal
  cases h
  case session token hb hc hu _ =>
    rw [hb]
    dsimp only
    rw [hc]
    exact hu
  case token bearer t hb _ _ hu => rw [hb, Option.bind_some, hu]

end Definitions

section Accounts

variable {users users' : List StoredUser} {tokens tokens' : List StoredToken} {may : Scope} {x : String}
  {f : StoredUser → StoredUser}

-- The projects of whoever acts for an account are those of the account.
theorem Acts.projects (h : Acts lib s req unix written username user) :
    ∀ pid ∈ user.projects, ∃ u, s.find username = some u ∧ pid ∈ u.projects := by
  intro pid hm
  cases h
  case session token _ _ hu hname =>
    obtain ⟨x, stored, -, -, hfind, hx, rfl⟩ := userFor_some hu
    have hname : stored.username = username := hname
    exact ⟨stored, by rw [← hname, hx, hfind], hm⟩
  case token bearer t _ ht howner hu =>
    rw [principalForBearer, ht, Option.map_some, Option.some_inj] at hu
    subst hu
    dsimp only at hm
    split at hm
    case isTrue  => simp at hm
    case isFalse =>
      rw [howner, ownerProjects] at hm
      cases hfind : s.find username
      case none   => simp [hfind] at hm
      case some u => exact ⟨u, rfl, by simpa [hfind] using hm⟩

end Accounts

section Access

variable [DecidableEq ι]

end Access

end FileAuthService
