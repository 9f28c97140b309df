import CoxAgent.Backlog.Parsing
import CoxAgent.Lib.Disk
import CoxAgent.Lib.OsPath
import CoxAgent.Lib.Replace

-- What a model asks for.
inductive ToolCall
  | readFile (path : String)
  | writeFile (path content : String)
  -- The text is there once and gets another one.
  | patchFile (path find replace : String)
  | listDir (path : String)
  | run (cmd : String)
  | done (summary : String)
deriving DecidableEq, Repr

structure ToolResult where
  ok      : Bool
  content : String
deriving DecidableEq, Repr

-- Files hold texts, or bytes that are no text.
inductive Contents
  | text (s : String)
  | binary (bytes : List UInt8)
deriving DecidableEq, Repr

abbrev HostDisk := Disk OsStr Contents

namespace ToolCall

section Reply

open Json

-- A field of an object. If there are several of the name, it is the last one.
def field (name : String) : Json → Option Json
  | .obj entries => (entries.reverse.find? fun e => unescape e.1 = some name).map Prod.snd
  | _            => none

def textField (v : Json) (name : String) : Option String :=
  field name v >>= Serde.text

def ofJson (v : Json) : Option ToolCall := do
  let tool ← textField v "tool"
  if tool = "read_file" then
    return .readFile (← textField v "path")
  else if tool = "write_file" then
    return .writeFile (← textField v "path") ((textField v "content").getD "")
  else if tool = "list_dir" then
    return .listDir ((textField v "path").getD ".")
  else if tool = "patch_file" then
    return .patchFile (← textField v "path") (← textField v "find") ((textField v "replace").getD "")
  else if tool = "run" then
    return .run (← textField v "cmd")
  else if tool = "done" then
    return .done ((textField v "summary").getD "")
  else
    none

def openingFence : List Char :=
  "```json".toList

def closingFence : List Char :=
  "```".toList

-- What is before the first occurrence of a piece of text, and what is after it.
def splitAt (pat : List Char) : List Char → Option (List Char × List Char)
  | []     => if pat = [] then some ([], []) else none
  | c :: l =>
    if pat.isPrefixOf (c :: l) then some ([], (c :: l).drop pat.length)
    else (splitAt pat l).map fun (before, after) => (c :: before, after)

-- The text up to the brace that closes the first one. Braces in strings do not count.
def objectSlice (depth : Int) (inStr escaped : Bool) (slice : List Char) : List Char → Option (List Char)
  | []      => none
  | c :: cs =>
    let slice := slice ++ [c]
    if inStr then
      if escaped then objectSlice depth inStr false slice cs
      else if c = '\x5c' then objectSlice depth inStr true slice cs
      else if c = '\x22' then objectSlice depth false escaped slice cs
      else objectSlice depth inStr escaped slice cs
    else if c = '\x22' then
      objectSlice depth true escaped slice cs
    else if c = '{' then
      objectSlice (depth + 1) inStr escaped slice cs
    else if c = '}' then
      if depth - 1 = 0 then some slice else objectSlice (depth - 1) inStr escaped slice cs
    else
      objectSlice depth inStr escaped slice cs

-- What is between the first fences, or the first braces.
def extractJsonBlock (text : List Char) : Option (List Char) :=
  let fenced := splitAt openingFence text >>= fun (_, after) => splitAt closingFence after
  match fenced with
  | some (body, _) => some (Text.trimChars body)
  | none           => objectSlice 0 false false [] (text.dropWhile (· ≠ '{'))

def ofContent (fits : List Char → Bool) (content : String) : Option ToolCall :=
  extractJsonBlock content.toList >>= read (Parsing.valueLimits fits) >>= ofJson

end Reply

section Paths

-- How a path ends. Only what is a directory can go by a path that ends with a separator or a dot.
inductive Ending
  | name
  | dot
  | slash
deriving DecidableEq, Repr

def Ending.of (rel : String) : Ending :=
  match (rel.toList.splitOn '/').getLast? with
  | some []    => slash
  | some ['.'] => dot
  | _          => name

-- The place of a path in the workspace.
def safeJoin (workDir : List OsStr) (rel : String) : Except String (List OsStr) :=
  if Text.trim rel = "" then
    .error "empty path"
  else if rel.toList.head? = some '/' then
    .error ("absolute paths are not allowed: " ++ rel)
  else
    match (OsPath.ofString rel).find? fun c => c = .parentDir ∨ c = .rootDir with
    | some .parentDir => .error ("path escapes the workspace (`..`): " ++ rel)
    | some _          => .error ("rooted paths are not allowed: " ++ rel)
    | none            => .ok (OsPath.place workDir (OsPath.ofString rel))

-- A name with a null byte is none for the host.
def hasNul (p : List OsStr) : Bool :=
  p.any (0 ∈ ·)

end Paths

end ToolCall

-- The host: the texts of its errors, and what commands do.
structure Host where
  errorText  : IoError → String
  runCommand : String → HostDisk → ToolResult × HostDisk

namespace ToolCall

section Files

variable (d : HostDisk) (p : List OsStr)

-- Why what is no directory cannot be opened by a path that only a directory goes by.
def notAFile : IoError :=
  match d.resolve p with
  | .ok .dir      => .isADirectory
  | .ok (.file _) => .notADirectory
  | .error e      => e

def readToString (ending : Ending) : Except IoError String :=
  if hasNul p then
    .error .invalidInput
  else if ending ≠ .name then
    .error (notAFile d p)
  else
    match d.read p with
    | .ok (.text s)   => .ok s
    | .ok (.binary _) => .error .invalidData
    | .error e        => .error e

-- The directories above a file.
def createParent : Except IoError HostDisk :=
  if hasNul p.dropLast then .error .invalidInput else d.mkdirAll [] p.dropLast

def writeText (ending : Ending) (content : String) : Except IoError HostDisk :=
  if hasNul p then
    .error .invalidInput
  else
    match ending with
    | .name  => d.write p (.text content)
    | .dot   => .error (notAFile d p)
    | .slash => .error .isADirectory

def readDir : Except IoError (List (OsStr × Bool)) :=
  if hasNul p then .error .invalidInput else d.list p

def listing (names : List (OsStr × Bool)) : String :=
  let texts := names.map fun (name, isDir) => if isDir then name.toStringLossy ++ "/" else name.toStringLossy
  "\n".intercalate (texts.mergeSort (· ≤ ·))

-- How often a text is found, if the search goes on behind what it has found.
def countFrom (pat : List Char) (skip : Nat) : List Char → Nat
  | []     => 0
  | c :: l =>
    if 0 < skip then countFrom pat (skip - 1) l
    else if pat.isPrefixOf (c :: l) then countFrom pat (pat.length - 1) l + 1
    else countFrom pat 0 l

def matchCount (pat l : List Char) : Nat :=
  if pat = [] then l.length + 1 else countFrom pat 0 l

end Files

section Apply

variable (h : Host) (workDir : List OsStr) (d : HostDisk)

def applyRead (path : String) : ToolResult :=
  match safeJoin workDir path with
  | .error e => ⟨false, e⟩
  | .ok p    =>
    match readToString d p (.of path) with
    | .ok text => ⟨true, text⟩
    | .error e => ⟨false, "read " ++ path ++ ": " ++ h.errorText e⟩

def applyWrite (path content : String) : ToolResult × HostDisk :=
  match safeJoin workDir path with
  | .error e => (⟨false, e⟩, d)
  | .ok p    =>
    match createParent d p with
    | .error e => (⟨false, "mkdir for " ++ path ++ ": " ++ h.errorText e⟩, d)
    | .ok d    =>
      match writeText d p (.of path) content with
      | .ok d    => (⟨true, s!"wrote {content.utf8ByteSize} bytes to {path}"⟩, d)
      | .error e => (⟨false, "write " ++ path ++ ": " ++ h.errorText e⟩, d)

def applyPatch (path find replace : String) : ToolResult × HostDisk :=
  match safeJoin workDir path with
  | .error e => (⟨false, e⟩, d)
  | .ok p    =>
    match readToString d p (.of path) with
    | .error e => (⟨false, "patch read " ++ path ++ ": " ++ h.errorText e⟩, d)
    | .ok text =>
      let n := matchCount find.toList text.toList
      if n = 0 then
        (⟨false, "patch " ++ path ++ ": `find` text not present — read the file and copy it exactly"⟩, d)
      else if 1 < n then
        (⟨false, s!"patch {path}: `find` matches {n} places — add surrounding context to make it unique"⟩, d)
      else
        match writeText d p (.of path) (Text.replaceFirst text find replace) with
        | .ok d    => (⟨true, "patched " ++ path⟩, d)
        | .error e => (⟨false, "patch write " ++ path ++ ": " ++ h.errorText e⟩, d)

def applyList (path : String) : ToolResult :=
  match safeJoin workDir path with
  | .error e => ⟨false, e⟩
  | .ok p    =>
    match readDir d p with
    | .ok names => ⟨true, listing names⟩
    | .error e  => ⟨false, "list " ++ path ++ ": " ++ h.errorText e⟩

def applyTool : ToolCall → ToolResult × HostDisk
  | readFile path               => (applyRead h workDir d path, d)
  | writeFile path content      => applyWrite h workDir d path content
  | patchFile path find replace => applyPatch h workDir d path find replace
  | listDir path                => (applyList h workDir d path, d)
  | run _                       => (⟨false, "run is executed by the loop, not apply_tool"⟩, d)
  | done summary                => (⟨true, summary⟩, d)

def isEdit : ToolCall → Bool
  | writeFile .. | patchFile .. => true
  | _                           => false

end Apply

end ToolCall

structure ChatMessage where
  role    : String
  content : String
deriving DecidableEq, Repr

structure TurnReply where
  content      : String
  inputTokens  : Nat := 0
  outputTokens : Nat := 0
deriving DecidableEq, Repr

-- What the model says in each turn, given the messages so far.
abbrev Chat := Nat → List ChatMessage → Except String TurnReply

structure LoopOutcome where
  summary      : String
  transcript   : String
  inputTokens  : Nat
  outputTokens : Nat
  wroteAny     : Bool
  done         : Bool
deriving DecidableEq, Repr

-- The loop between two turns.
structure ToolLoop where
  messages     : List ChatMessage
  transcript   : String := ""
  inputTokens  : Nat    := 0
  outputTokens : Nat    := 0
  wroteAny     : Bool   := false
  disk         : HostDisk

namespace ToolLoop

def toolsInstructions : String :=
  "\n\nYou are running in an automated coding loop with tools. To act, reply with a " ++
  "SINGLE fenced JSON block and nothing else:\n" ++
  "```json\n\x7b\"tool\": \"read_file\", \"path\": \"relative/path\"\x7d\n```\n" ++
  "Available tools:\n" ++
  "- read_file \x7bpath\x7d: return the file's text.\n" ++
  "- list_dir \x7bpath\x7d: list a directory (\".\" for the workspace root).\n" ++
  "- write_file \x7bpath, content\x7d: create/overwrite a file with the FULL new content.\n" ++
  "- patch_file \x7bpath, find, replace\x7d: replace the UNIQUE occurrence of `find` with " ++
  "`replace` in an existing file — prefer this for edits to large files. `find` " ++
  "must match exactly and appear once; add surrounding lines to disambiguate.\n" ++
  "- run \x7bcmd\x7d: run a shell command in the workspace (e.g. build or tests) and see " ++
  "its output + exit code; use it to verify your change.\n" ++
  "- done \x7bsummary\x7d: finish, summarising what you changed.\n" ++
  "Paths are relative to the workspace; `..` and absolute paths are rejected. " ++
  "Inspect before you edit, make the smallest change that implements the task, " ++
  "run the build/tests to check it, then call done."

def nudge : String :=
  "No tool action found. Reply with exactly one ```json \x7b\"tool\": …\x7d``` block, or " ++
  "\x7b\"tool\": \"done\", \"summary\": …\x7d to finish."

def start (d : HostDisk) (systemPrompt taskPrompt : String) : ToolLoop where
  messages := [⟨"system", systemPrompt ++ toolsInstructions⟩, ⟨"user", taskPrompt⟩]
  disk     := d

-- Counts do not go beyond those of a `u64`.
def saturatingAdd (a b : Nat) : Nat :=
  min (a + b) (2 ^ 64 - 1)

variable (s : ToolLoop)

def finish (summary note : String) (done : Bool) : LoopOutcome × HostDisk :=
  ({
    summary
    transcript   := s.transcript ++ note
    inputTokens  := s.inputTokens
    outputTokens := s.outputTokens
    wroteAny     := s.wroteAny
    done
  }, s.disk)

-- The reply of a turn is recorded.
def answer (turn : Nat) (reply : TurnReply) : ToolLoop := { s with
  messages     := s.messages ++ [⟨"assistant", reply.content⟩]
  transcript   := s.transcript ++ s!"\n[assistant {turn}]\n{reply.content}\n"
  inputTokens  := saturatingAdd s.inputTokens reply.inputTokens
  outputTokens := saturatingAdd s.outputTokens reply.outputTokens
}

-- What came of a tool is recorded.
def report (call : ToolCall) (result : ToolResult) (disk : HostDisk) : ToolLoop := { s with
  messages   := s.messages ++
    [⟨"user", "Tool result (" ++ (if result.ok then "ok" else "error") ++ "):\n" ++ result.content⟩]
  transcript := s.transcript ++
    "[tool " ++ (if result.ok then "ok" else "err") ++ "] " ++ .ofList (result.content.toList.take 200) ++ "\n"
  wroteAny   := s.wroteAny || (call.isEdit && result.ok)
  disk
}

variable (h : Host) (fits : List Char → Bool) (chat : Chat) (workDir : List OsStr)

def apply (call : ToolCall) : ToolLoop :=
  let (result, disk) := match call with
    | .run cmd => h.runCommand cmd s.disk
    | _        => call.applyTool h workDir s.disk
  s.report call result disk

-- One turn, after which the loop goes on or ends.
def turn (n : Nat) : ToolLoop ⊕ (LoopOutcome × HostDisk) :=
  match chat n s.messages with
  | .error e  => .inr (s.finish ("http loop aborted: " ++ e) s!"\n[turn {n}] chat error: {e}\n" false)
  | .ok reply =>
    let s := s.answer n reply
    match ToolCall.ofContent fits reply.content with
    | none                 => .inl { s with messages := s.messages ++ [⟨"user", nudge⟩] }
    | some (.done summary) => .inr (s.finish summary ("[done] " ++ summary ++ "\n") true)
    | some call            => .inl (s.apply h workDir call)

def turns (maxIters : Nat) (s : ToolLoop) (n : Nat) : Nat → LoopOutcome × HostDisk
  | 0        =>
    let note := if s.wroteAny then "some files were written" else "no files written"
    s.finish s!"http loop hit the {maxIters}-turn cap without calling done ({note})" "" false
  | left + 1 =>
    match s.turn h fits chat workDir n with
    | .inl s   => turns maxIters s (n + 1) left
    | .inr out => out

end ToolLoop

def runToolLoop (h : Host) (fits : List Char → Bool) (chat : Chat) (workDir : List OsStr)
    (systemPrompt taskPrompt : String) (maxIters : Nat) (d : HostDisk) : LoopOutcome × HostDisk :=
  (ToolLoop.start d systemPrompt taskPrompt).turns h fits chat workDir maxIters 0 maxIters
