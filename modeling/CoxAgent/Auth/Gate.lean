import CoxAgent.Auth.Service

-- What a request is admitted by before it reaches its handler.

inductive HttpMethod
  | get | post | put | delete | patch
  | other (name : String)
deriving DecidableEq, Repr

namespace HttpMethod

def asStr : HttpMethod → String
  | get        => "GET"
  | post       => "POST"
  | put        => "PUT"
  | delete     => "DELETE"
  | patch      => "PATCH"
  | other name => name

def mutates : HttpMethod → Bool
  | post | put | delete | patch => true
  | _                           => false

end HttpMethod

-- The headers that are read, if they are there and are texts, and the address of the peer.
structure HttpRequest where
  method        : HttpMethod
  path          : String
  authorization : Option String := none
  cookie        : Option String := none
  forwardedFor  : Option String := none
  peer          : Option String := none
deriving DecidableEq, Repr

namespace HttpRequest

def sessionCookie : String := "cox_session"

variable (req : HttpRequest)

def cookieValue (name : String) : Option String :=
  req.cookie.bind fun raw => (raw.toList.splitOn ';').findSome? fun pair =>
    if '=' ∈ pair then
      let k := Text.trimChars (pair.takeWhile (· ≠ '='))
      let v := Text.trimChars (pair.dropWhile (· ≠ '=')).tail
      if k = name.toList then some (.ofList v) else none
    else
      none

def bearerToken : Option String :=
  req.authorization.bind fun raw => (Text.stripPrefix raw "Bearer ").map Text.trim

-- The client for the rate limit. A proxy in front that is trusted names it.
def clientKey (trustProxy : Bool) : String :=
  let leftmost := Text.trim (.ofList ((req.forwardedFor.getD "").toList.takeWhile (· ≠ ',')))
  if trustProxy && leftmost ≠ "" then
    leftmost
  else
    req.peer.getD "unknown"

end HttpRequest

-- Which surface a process serves.
inductive HubRole
  | all
  | gateway
  | realtime
  | knowledge
deriving DecidableEq, Repr

namespace Gate

def endsWith (s suffix : String) : Bool :=
  suffix.toList.isSuffixOf s.toList

def isRealtimePath (path : String) : Bool :=
  endsWith path "/ws" || endsWith path "/events" || endsWith path "/river" || endsWith path "/terminal" ||
  Text.contains path "/docs-ws"

def serves : HubRole → String → Bool
  | .all,       _    => true
  | .gateway,   path => !isRealtimePath path
  | .realtime,  path => isRealtimePath path ||
    path = "/api/health" || path = "/api/ready" || path = "/api/auth/me" || path = "/"
  | .knowledge, path => path = "/api/health" || path = "/api/ready"

-- The paths that no session is needed for.
def publicPaths : List String :=
  ["/", "/api/health", "/api/ready", "/api/auth/oidc/login", "/api/auth/oidc/callback", "/api/openapi.json",
    "/api/auth/login", "/api/workspace/join"]

def publicPrefixes : List String :=
  ["/assets/", "/api/app/download/", "/api/chat/hook/", "/join/", "/s/"]

def isPublic (path : String) : Bool :=
  path ∈ publicPaths || publicPrefixes.any (Text.startsWith path)

-- What anybody who is signed in may write: their own things, and the chat.
def selfServicePaths : List String :=
  ["/api/auth/logout", "/api/chat/send", "/api/chat/dm", "/api/mcp"]

def selfServicePrefixes : List String :=
  ["/api/auth/2fa/", "/api/auth/my/", "/api/meetings", "/api/profile", "/api/engines/opencode"]

def isWrite (method : HttpMethod) (path : String) : Bool :=
  method.mutates && path ∉ selfServicePaths && !selfServicePrefixes.any (Text.startsWith path) &&
  !endsWith path "/chat" && !Text.contains path "/channels" && !endsWith path "/upload"

def isManageSurface (method : HttpMethod) (path : String) : Bool :=
  Text.startsWith path "/api/auth/users" || Text.startsWith path "/api/auth/tokens" ||
  endsWith path "/config" && (method = .put || method = .post || method = .patch)

def extractPidFromPath (path : String) : Option String :=
  (Text.stripPrefix path "/api/projects/").map fun rest => .ofList (rest.toList.takeWhile (· ≠ '/'))

def isPrReviewPath (path : String) : Bool :=
  Text.contains path "/prs/"

def isStoreRpcPath (path : String) : Bool :=
  (Text.stripPrefix path "/api/projects/").any fun rest =>
    endsWith rest "/store" &&
      let pid := rest.toList.take (rest.length - "/store".length)
      pid ≠ [] && '/' ∉ pid

def isServiceMgmtPath (path : String) : Bool :=
  (Text.stripPrefix path "/api/projects/").any fun rest =>
    '/' ∈ rest.toList &&
      let pid := rest.toList.takeWhile (· ≠ '/')
      let tail := String.ofList (rest.toList.dropWhile (· ≠ '/')).tail
      pid ≠ [] && (tail = "services" || Text.startsWith tail "services/")

def writeGateOk (role : AuthRole) (path : String) : Bool :=
  if isPrReviewPath path then
    role.canReview
  else if isStoreRpcPath path || path = "/api/pr-report" then
    role.canManage
  else if isServiceMgmtPath path then
    role.canManage
  else
    role.canWrite

-- The parts before and after the first occurrence of a mark.
def splitAtMark (mark : List Char) : List Char → Option (List Char × List Char)
  | []      => none
  | c :: cs =>
    if mark.isPrefixOf (c :: cs) then
      some ([], (c :: cs).drop mark.length)
    else
      (splitAtMark mark cs).map fun (head, tail) => (c :: head, tail)

def mark : String := "/share-links/"

-- The path as it is recorded. The token of a share link is not.
def auditSafePath (path : String) : String :=
  match splitAtMark mark.toList path.toList with
  | some (head, token) =>
    if token ≠ [] && '/' ∉ token then .ofList head ++ mark ++ "<redacted>" else path
  | none => path

-- Who did what, for the record of the hub.
structure AuditLine where
  user : String
  text : String
deriving DecidableEq, Repr

-- A request is answered by the gate, or goes on to its handler. The outcome is recorded if there is a line.
inductive Verdict
  | refuse (status : Nat) (error : String) (record : Option AuditLine)
  | forward (record : Option AuditLine)
deriving DecidableEq, Repr

def Verdict.record : Verdict → Option AuditLine
  | refuse _ _ line => line
  | forward line    => line

def Verdict.forwards : Verdict → Bool
  | refuse ..  => false
  | forward .. => true

def isSuperOrAdmin (role : AuthRole) : Bool :=
  role = .super || role = .admin

-- What is decided about a request of somebody who is signed in.
def admission (user : AuthUser) (method : HttpMethod) (path : String) : Verdict :=
  let line : AuditLine := { user := user.username, text := method.asStr ++ " " ++ auditSafePath path }
  if isManageSurface method path && !user.role.canManage then
    .refuse 403 "management role required" line
  else if path = "/api/mcp" && !user.role.canWrite then
    .refuse 403 "insufficient role" line
  else if (extractPidFromPath path).any fun pid => !isSuperOrAdmin user.role && pid ∉ user.projects then
    .refuse 403 "not a member of this project" line
  else if isWrite method path && !writeGateOk user.role path then
    .refuse 403 "insufficient role" line
  else
    .forward (if isWrite method path then some line else none)

-- The gate of a hub with accounts, given who the request is from.
def authMw (role : HubRole) (principal : Option AuthUser) (method : HttpMethod) (path : String) : Verdict :=
  if !serves role path then
    .refuse 503 "wrong service role for this endpoint" none
  else if isPublic path then
    .forward none
  else
    match principal with
    | none      => .refuse 401 "unauthenticated" none
    | some user => admission user method path

end Gate

namespace FileAuthService

variable {ι : Type} (s : FileAuthService ι) (lib : AuthLib)

-- The principal of a token goes before that of the session.
def resolvePrincipal (req : HttpRequest) (unix : Nat) (written : FileWrite) : Option AuthUser × FileAuthService ι :=
  match req.bearerToken.bind (s.principalForBearer lib) with
  | some user => (some user, s)
  | none      =>
    match req.cookieValue HttpRequest.sessionCookie with
    | none       => (none, s)
    | some token => s.userFor token unix written

def authMw (role : HubRole) (req : HttpRequest) (unix : Nat) (written : FileWrite) : Gate.Verdict :=
  Gate.authMw role (s.resolvePrincipal lib req unix written).1 req.method req.path

end FileAuthService

-- The hits of each client that are remembered, with the oldest first. Instants are those of a clock that never goes
-- back, and has its earliest instant at `earliest`.
structure RateLimiter where
  earliest : Int
  hits     : String → List Int := fun _ => []

namespace RateLimiter

variable (l : RateLimiter)

def checkedSub (now : Int) (window : Nat) : Option Int :=
  if l.earliest ≤ now - window then some (now - window) else none

-- Record a hit. It is within the limit if no more than `max` are left with it.
def check (key : String) (max window : Nat) (now : Int) : Bool × RateLimiter :=
  let cutoff := (l.checkedSub now window).getD now
  let deque := (l.hits key).dropWhile (· ≤ cutoff) ++ [now]
  (deque.length ≤ max, { l with hits := Function.update l.hits key deque })

def isReadOnly (req : HttpRequest) : Bool :=
  req.method = .get && (req.path = "/api/auth/sessions" || req.path = "/api/auth/me")

-- The bucket of a request for the limiter, and its limit. Counts do not go beyond those of a `usize`.
def bucket (max : Nat) (trustProxy : Bool) (req : HttpRequest) : String × Nat :=
  if isReadOnly req then
    (req.clientKey trustProxy ++ ":ro", min (max * 12) (2 ^ 64 - 1))
  else
    (req.clientKey trustProxy, max)

def isLimited (req : HttpRequest) : Bool :=
  Text.startsWith req.path "/api/auth/"

-- Whether a request passes the limiter.
def rateLimitMw (max window : Nat) (trustProxy : Bool) (req : HttpRequest) (now : Int) : Bool × RateLimiter :=
  if isLimited req then
    l.check (bucket max trustProxy req).1 (bucket max trustProxy req).2 window now
  else
    (true, l)

end RateLimiter
