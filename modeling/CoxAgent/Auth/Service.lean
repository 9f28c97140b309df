import CoxAgent.Auth.Totp
import CoxAgent.Lib.BTreeMap
import CoxAgent.Lib.Sha256
import Mathlib.Logic.Function.Basic

inductive AuthRole
  | super
  | admin
  | director | manager | techLead | dsLead | daLead
  | ba | po | sa | sm | qa | fe | be | aie | ds | da | de
  | reviewer
  | viewer
deriving DecidableEq, Repr

namespace AuthRole

def isLead : AuthRole → Bool
  | director | manager | techLead | dsLead | daLead => true
  | _                                               => false

def canWrite (r : AuthRole) : Bool :=
  r ≠ viewer

def isDev : AuthRole → Bool
  | fe | be | aie | ds | da | de => true
  | _                            => false

def canReview (r : AuthRole) : Bool :=
  r = super || r = admin || r = sa || r = reviewer || r.isLead || r.isDev

def canManage (r : AuthRole) : Bool :=
  r = super || r = admin || r.isLead

-- The roles of which the last account is not removed.
def isAdminTier (r : AuthRole) : Bool :=
  r = admin || r = super

end AuthRole

-- An authenticated principal.
structure AuthUser where
  username : String
  name     : String        := ""
  email    : String        := ""
  role     : AuthRole
  projects : List String   := []
deriving DecidableEq, Repr

inductive LoginResult
  | ok (token : String)
  | totpRequired
  | denied
deriving DecidableEq, Repr

structure StoredUser where
  username   : String
  hash       : String
  name       : String        := ""
  email      : String        := ""
  role       : AuthRole
  totpSecret : Option String := none
  projects   : List String   := []
deriving DecidableEq, Repr

-- The owner of a token of the service itself is empty.
structure StoredToken where
  label   : String
  role    : AuthRole
  hash    : String
  created : String
  owner   : String := ""
deriving DecidableEq, Repr

structure UserFile where
  users  : List StoredUser  := []
  tokens : List StoredToken := []
deriving DecidableEq, Repr

-- What becomes of a write to a file: it goes through, it is refused before the file is touched, or it leaves a part
-- of the new text. That does not parse, or cannot be read at all if it ends inside of a character.
inductive FileWrite
  | whole
  | refused
  | torn (parseError : Option String)
deriving DecidableEq, Repr

-- What is in the place of the user file.
inductive AuthFile
  | unreadable
  | bad (parseError : String)
  | whole (file : UserFile)
deriving DecidableEq, Repr

namespace AuthFile

-- What cannot be read is taken for a file that is missing.
def load : AuthFile → Except String UserFile
  | unreadable => .ok {}
  | bad e      => .error ("bad auth file: " ++ e)
  | whole file => .ok file

def write (old : AuthFile) (file : UserFile) : FileWrite → AuthFile
  | .whole         => whole file
  | .refused       => old
  | .torn (some e) => bad e
  | .torn none     => unreadable

end AuthFile

structure FileAuthService.Session where
  user    : AuthUser
  expires : Nat
  label   : String := ""
  at'     : String
deriving DecidableEq, Repr

structure Attempts where
  fails       : Nat        := 0
  lockedUntil : Option Nat := none
deriving DecidableEq, Repr

-- Thirty days and a quarter of an hour in seconds.
def sessionTtl : Nat := 2592000
def maxFails   : Nat := 5
def lockout    : Nat := 900

-- Where a thread is in `login`. The mutexes are taken one after another, so that other threads run in between.
inductive LoginStage
  | idle
  | checked (username password : String) (totp : Option String)
  | failed (username : String)
  | accepted (username : String) (role : AuthRole)
deriving DecidableEq, Repr

-- The service with the threads `ι` that log in, and its two files.
structure FileAuthService (ι : Type) where
  users        : List StoredUser           := []
  tokens       : List StoredToken          := []
  sessions     : BTreeMap String FileAuthService.Session   := ∅
  attempts     : String → Attempts         := fun _ => {}
  pendingTotp  : String → Option String    := fun _ => none
  userFile     : AuthFile                  := .unreadable
  sessionsFile : BTreeMap String FileAuthService.Session   := ∅
  stage        : ι → LoginStage            := fun _ => .idle

-- What the service gets from its libraries: whether a password is that of a hash, and two digests.
structure AuthLib where
  verifyPassword : String → String → Bool
  mac            : Mac
  sha256         : ByteArray → Digest

def StoredUser.principal (u : StoredUser) : AuthUser where
  username := u.username
  name     := u.name
  email    := u.email
  role     := u.role
  projects := u.projects

namespace FileAuthService

variable {ι : Type} (s : FileAuthService ι)

section Files

-- Write the user file. What is in memory stays as it is, whatever becomes of the write.
def persist (written : FileWrite) : FileAuthService ι :=
  { s with userFile := s.userFile.write ⟨s.users, s.tokens⟩ written }

-- A file of sessions that does not parse is read as one without sessions.
def persistSessions (written : FileWrite) : FileAuthService ι :=
  { s with sessionsFile := match written with
    | .whole   => s.sessions
    | .refused => s.sessionsFile
    | .torn _  => ∅ }

-- The account of the operator, whatever the file says.
def bootstrapAdmin (username hash : String) (file : UserFile) : UserFile :=
  if file.users.any (·.username = username) then
    { file with users := modifyFirst file.users }
  else
    { file with users := file.users ++ [{ username, hash, role := .super }] }
where
  modifyFirst : List StoredUser → List StoredUser
    | []      => []
    | u :: us => if u.username = username then { u with hash, role := .super } :: us else u :: modifyFirst us

-- A start of the service from its files, with the account of the operator if one is given. A start that is refused
-- leaves no accounts, and nobody is signed in.
def boot (admin : Option (String × String)) (unix : Nat) (written : FileWrite := .whole) : FileAuthService ι :=
  let refused (userFile : AuthFile) : FileAuthService ι := { userFile, sessionsFile := s.sessionsFile }
  let started (file : UserFile) (userFile : AuthFile) : FileAuthService ι :=
    { users        := file.users
      tokens       := file.tokens
      sessions     := s.sessionsFile.retain fun token => (s.sessionsFile.get? token).any (unix < ·.expires)
      userFile     := userFile
      sessionsFile := s.sessionsFile }
  match s.userFile.load, admin with
  | .error _, _    => refused s.userFile
  | .ok file, none => started file s.userFile
  | .ok file, some (username, hash) =>
    let file := bootstrapAdmin username hash file
    let userFile := s.userFile.write file written
    if written = .whole then started file userFile else refused userFile

variable {s} {written : FileWrite}

@[simp] theorem persist_users        : (s.persist written).users = s.users := rfl
@[simp] theorem persist_tokens       : (s.persist written).tokens = s.tokens := rfl
@[simp] theorem persist_sessions     : (s.persist written).sessions = s.sessions := rfl
@[simp] theorem persist_attempts     : (s.persist written).attempts = s.attempts := rfl
@[simp] theorem persist_stage        : (s.persist written).stage = s.stage := rfl
@[simp] theorem persist_sessionsFile : (s.persist written).sessionsFile = s.sessionsFile := rfl

@[simp] theorem persistSessions_users    : (s.persistSessions written).users = s.users := rfl
@[simp] theorem persistSessions_tokens   : (s.persistSessions written).tokens = s.tokens := rfl
@[simp] theorem persistSessions_sessions : (s.persistSessions written).sessions = s.sessions := rfl
@[simp] theorem persistSessions_attempts : (s.persistSessions written).attempts = s.attempts := rfl
@[simp] theorem persistSessions_stage    : (s.persistSessions written).stage = s.stage := rfl
@[simp] theorem persistSessions_userFile : (s.persistSessions written).userFile = s.userFile := rfl

-- Nobody is signed in after a start but with a session of the file.
inductive Fresh (s : FileAuthService ι) (unix : Nat) : FileAuthService ι → Prop
  | refused (userFile : AuthFile) : Fresh s unix { userFile, sessionsFile := s.sessionsFile }
  | started (file : UserFile) (userFile : AuthFile) : Fresh s unix
    { users        := file.users
      tokens       := file.tokens
      sessions     := s.sessionsFile.retain fun token => (s.sessionsFile.get? token).any (unix < ·.expires)
      userFile     := userFile
      sessionsFile := s.sessionsFile }

theorem fresh_boot (admin : Option (String × String)) (unix : Nat) : Fresh s unix (s.boot admin unix written) := by
  unfold boot
  cases s.userFile.load
  case error e => exact .refused _
  case ok file =>
    cases admin
    case none         => exact .started _ _
    case some account =>
      dsimp only
      split
      case isTrue  => exact .started _ _
      case isFalse => exact .refused _

theorem Fresh.idle {unix : Nat} {s' : FileAuthService ι} (h : Fresh s unix s') (i : ι) : s'.stage i = .idle := by
  cases h <;> rfl

end Files

section Lockout

variable [DecidableEq ι]

-- Whether an account is locked. A lock that has expired is taken off.
def isLocked (username : String) (instant : Nat) : Bool × FileAuthService ι :=
  match (s.attempts username).lockedUntil with
  | none       => (false, s)
  | some until' =>
    if instant < until' then
      (true, s)
    else
      (false, { s with attempts := Function.update s.attempts username {} })

def recordFailure (username : String) (instant : Nat) : FileAuthService ι :=
  let a := s.attempts username
  let fails := a.fails + 1
  let lockedUntil := if maxFails ≤ fails then some (instant + lockout) else a.lockedUntil
  { s with attempts := Function.update s.attempts username { fails, lockedUntil } }

def clearFailures (username : String) : FileAuthService ι :=
  { s with attempts := Function.update s.attempts username {} }

end Lockout

section Users

def find (username : String) : Option StoredUser :=
  s.users.find? (·.username = username)

-- Change the first account of the name.
def modify (username : String) (f : StoredUser → StoredUser) : List StoredUser → List StoredUser
  | []      => []
  | u :: us => if u.username = username then f u :: us else u :: modify username f us

-- The projects of an account as they are now, and none for one that is gone.
def ownerProjects (owner : String) : List String :=
  (s.find owner).elim [] (·.projects)

def createUser (username : String) (hash : Option String) (passwordEmpty : Bool) (role : AuthRole) (written : FileWrite) :
    Bool × FileAuthService ι :=
  if Text.trim username = "" || passwordEmpty then
    (false, s)
  else
    match hash with
    | none      => (false, s)
    | some hash =>
      let users := match s.find username with
        | some _ => modify username (fun u => { u with hash, role }) s.users
        | none   => s.users ++ [{ username, hash, role }]
      (written = .whole, persist { s with users } written)

-- Change an account that exists.
def change (username : String) (f : StoredUser → StoredUser) (written : FileWrite) : Bool × FileAuthService ι :=
  match s.find username with
  | none   => (false, s)
  | some _ => (written = .whole, persist { s with users := modify username f s.users } written)

def updateUser (username name email : String) (role : Option AuthRole) (written : FileWrite) : Bool × FileAuthService ι :=
  s.change username (fun u => { u with
    name  := Text.trim name
    email := Text.trim email
    role  := role.getD u.role }) written

def setPassword (username : String) (hash : Option String) (passwordEmpty : Bool) (written : FileWrite) :
    Bool × FileAuthService ι :=
  if passwordEmpty then
    (false, s)
  else
    match hash with
    | none      => (false, s)
    | some hash => s.change username (fun u => { u with hash }) written

-- The last account of the administrators is not removed.
def deleteUser (username : String) (written : FileWrite) : Bool × FileAuthService ι :=
  if s.users.all (·.username ≠ username) then
    (false, s)
  else
    let adminsLeft := s.users.countP fun u => u.role.isAdminTier && u.username ≠ username
    let removingAdmin := s.users.any fun u => u.username = username && u.role.isAdminTier
    if removingAdmin && adminsLeft = 0 then
      (false, s)
    else
      (written = .whole, persist { s with users := s.users.filter (·.username ≠ username) } written)

def assignProject (username pid : String) (written : FileWrite) : Bool × FileAuthService ι :=
  match s.find username with
  | none   => (false, s)
  | some u =>
    if pid ∈ u.projects then
      (true, s)
    else
      s.change username (fun u => { u with projects := u.projects ++ [pid] }) written

def unassignProject (username pid : String) (written : FileWrite) : Bool × FileAuthService ι :=
  match s.find username with
  | none   => (false, s)
  | some u =>
    if pid ∈ u.projects then
      (true, (s.change username (fun u => { u with projects := u.projects.filter (· ≠ pid) }) written).2)
    else
      (false, s)

-- The secret is pending until a code confirms it.
def enroll2fa (username secret : String) : Option (String × String) × FileAuthService ι :=
  if s.users.any (·.username = username) then
    (some (secret, Totp.provisioningUri secret username "CoXAgent"),
      { s with pendingTotp := Function.update s.pendingTotp username (some secret) })
  else
    (none, s)

def enable2fa (lib : AuthLib) (username code : String) (unix : Nat) (written : FileWrite) : Bool × FileAuthService ι :=
  match s.pendingTotp username with
  | none        => (false, s)
  | some secret =>
    if Totp.verify lib.mac secret code unix then
      match s.find username with
      | none   => (false, s)
      | some _ =>
        let s := { s with pendingTotp := Function.update s.pendingTotp username none }
        s.change username (fun u => { u with totpSecret := some secret }) written
    else
      (false, s)

def disable2fa (username : String) (written : FileWrite) : Bool × FileAuthService ι :=
  match (s.find username).bind (·.totpSecret) with
  | none   => (false, s)
  | some _ => (true, (s.change username (fun u => { u with totpSecret := none }) written).2)

end Users

section Tokens

variable (lib : AuthLib)

def sha256Hex (token : String) : String :=
  toHex (lib.sha256 token.toUTF8).toList

-- A token under a label that is not taken. Only its hash is kept.
def mintToken (label : String) (role : AuthRole) (owner secret created : String) (written : FileWrite) :
    Option String × FileAuthService ι :=
  if s.tokens.any (·.label = label) then
    (none, s)
  else
    let token : StoredToken := { label, role, hash := sha256Hex lib secret, created, owner }
    (if written = .whole then some secret else none, persist { s with tokens := s.tokens ++ [token] } written)

def revokeToken (label : String) (written : FileWrite) : Bool × FileAuthService ι :=
  if s.tokens.any (·.label = label) then
    (true, persist { s with tokens := s.tokens.filter (·.label ≠ label) } written)
  else
    (false, s)

-- The principal of a token, with the projects that its owner has now.
def principalForBearer (token : String) : Option AuthUser :=
  (s.tokens.find? (·.hash = sha256Hex lib token)).map fun stored =>
    { username := "svc:" ++ stored.label
      role     := stored.role
      projects := if stored.owner = "" then [] else s.ownerProjects stored.owner }

end Tokens

section Sessions

-- The account of a session, as it is now. A session that has expired is removed.
def userFor (token : String) (unix : Nat) (written : FileWrite) : Option AuthUser × FileAuthService ι :=
  match s.sessions.get? token with
  | none         => (none, s)
  | some session =>
    if session.expires ≤ unix then
      (none, persistSessions { s with sessions := s.sessions.remove token } written)
    else
      ((s.find session.user.username).map StoredUser.principal, s)

def logout (token : String) (written : FileWrite) : FileAuthService ι :=
  if (s.sessions.get? token).isSome then
    persistSessions { s with sessions := s.sessions.remove token } written
  else
    s

def attachDevice (token device : String) (written : FileWrite) : FileAuthService ι :=
  match s.sessions.get? token with
  | none         => s
  | some session =>
    persistSessions { s with sessions := s.sessions.insert token { session with label := device } } written

end Sessions

section Login

variable [DecidableEq ι] (lib : AuthLib) (i : ι)

-- Refuse while the account is locked.
def attempt (username password : String) (totp : Option String) (instant : Nat) :
    Option LoginResult × FileAuthService ι :=
  match s.stage i with
  | .idle =>
    let (locked, s) := s.isLocked username instant
    if locked then
      (some .denied, s)
    else
      (none, { s with stage := Function.update s.stage i (.checked username password totp) })
  | _ => (none, s)

-- Compare the password, and the code of an account that has a second factor.
def verify (unix : Nat) : Option LoginResult × FileAuthService ι :=
  match s.stage i with
  | .checked username password totp =>
    match (s.find username).filter fun u => lib.verifyPassword u.hash password with
    | none   => (none, { s with stage := Function.update s.stage i (.failed username) })
    | some u =>
      match u.totpSecret, totp with
      | none,        _         => (none, { s with stage := Function.update s.stage i (.accepted username u.role) })
      | some _,      none      => (some .totpRequired, { s with stage := Function.update s.stage i .idle })
      | some secret, some code =>
        if Totp.verify lib.mac secret code unix then
          (none, { s with stage := Function.update s.stage i (.accepted username u.role) })
        else
          (none, { s with stage := Function.update s.stage i (.failed username) })
  | _ => (none, s)

-- Count the failure, or open a session under a fresh token.
def conclude (token at' : String) (instant unix : Nat) (written : FileWrite) : Option LoginResult × FileAuthService ι :=
  match s.stage i with
  | .failed username =>
    (some .denied, { s.recordFailure username instant with stage := Function.update s.stage i .idle })
  | .accepted username role =>
    let session : Session := { user := { username, role }, expires := unix + sessionTtl, at' }
    let s := { s.clearFailures username with
      sessions := s.sessions.insert token session
      stage    := Function.update s.stage i .idle }
    (some (.ok token), s.persistSessions written)
  | _ => (none, s)

end Login

end FileAuthService

-- What happens to the service.
inductive AuthEvent (ι : Type)
  | attempt (i : ι) (username password : String) (totp : Option String) (instant : Nat)
  | verify (i : ι) (unix : Nat)
  | conclude (i : ι) (token at' : String) (instant unix : Nat) (written : FileWrite)
  | userFor (token : String) (unix : Nat) (written : FileWrite)
  | logout (token : String) (written : FileWrite)
  | attachDevice (token device : String) (written : FileWrite)
  | mintToken (label : String) (role : AuthRole) (owner secret created : String) (written : FileWrite)
  | revokeToken (label : String) (written : FileWrite)
  | createUser (username : String) (hash : Option String) (passwordEmpty : Bool) (role : AuthRole) (written : FileWrite)
  | updateUser (username name email : String) (role : Option AuthRole) (written : FileWrite)
  | setPassword (username : String) (hash : Option String) (passwordEmpty : Bool) (written : FileWrite)
  | deleteUser (username : String) (written : FileWrite)
  | assignProject (username pid : String) (written : FileWrite)
  | unassignProject (username pid : String) (written : FileWrite)
  | enroll2fa (username secret : String)
  | enable2fa (username code : String) (unix : Nat) (written : FileWrite)
  | disable2fa (username : String) (written : FileWrite)
  | boot (admin : Option (String × String)) (unix : Nat) (written : FileWrite := .whole)

namespace FileAuthService

variable {ι : Type} [DecidableEq ι] (lib : AuthLib)

def step (s : FileAuthService ι) : AuthEvent ι → FileAuthService ι
  | .attempt i username password totp instant           => (s.attempt i username password totp instant).2
  | .verify i unix                                      => (s.verify lib i unix).2
  | .conclude i token at' instant unix written          => (s.conclude i token at' instant unix written).2
  | .userFor token unix written                         => (s.userFor token unix written).2
  | .logout token written                               => s.logout token written
  | .attachDevice token device written                  => s.attachDevice token device written
  | .mintToken label role owner secret created written  => (s.mintToken lib label role owner secret created written).2
  | .revokeToken label written                          => (s.revokeToken label written).2
  | .createUser username hash passwordEmpty role written => (s.createUser username hash passwordEmpty role written).2
  | .updateUser username name email role written        => (s.updateUser username name email role written).2
  | .setPassword username hash passwordEmpty written    => (s.setPassword username hash passwordEmpty written).2
  | .deleteUser username written                        => (s.deleteUser username written).2
  | .assignProject username pid written                 => (s.assignProject username pid written).2
  | .unassignProject username pid written               => (s.unassignProject username pid written).2
  | .enroll2fa username secret                          => (s.enroll2fa username secret).2
  | .enable2fa username code unix written               => (s.enable2fa lib username code unix written).2
  | .disable2fa username written                        => (s.disable2fa username written).2
  | .boot admin unix written                            => s.boot admin unix written

def run (s : FileAuthService ι) (events : List (AuthEvent ι)) : FileAuthService ι :=
  events.foldl (step lib) s

end FileAuthService
