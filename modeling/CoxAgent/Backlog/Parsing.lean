import CoxAgent.Domain.Kinds
import CoxAgent.Lib.Json
import CoxAgent.Lib.Text
import Mathlib.Data.List.Infix

-- A ticket that an agent proposes.
structure ProposedItem where
  title              : String
  description        : String        := ""
  priority           : Priority
  complexity         : Complexity
  hasUi              : Bool          := false
  acceptanceCriteria : List String   := []
  serviceTag         : Option String := none
deriving DecidableEq, Repr

section Read

open Serde

def priorities : List (String × Priority) :=
  [("low", .low), ("medium", .medium), ("high", .high)]

def complexities : List (String × Complexity) :=
  [("small", .small), ("medium", .medium), ("large", .large)]

def ProposedItem.ofJson (j : Json) : Option ProposedItem := do
  match ← fields
    ["title", "description", "priority", "complexity", "has_ui", "acceptance_criteria", "service_tag"] j with
  | [title, description, priority, complexity, hasUi, criteria, tag] =>
    return {
      title              := ← required text title
      description        := ← defaulted "" text description
      priority           := ← required (variant priorities) priority
      complexity         := ← required (variant complexities) complexity
      hasUi              := ← defaulted false boolean hasUi
      acceptanceCriteria := ← defaulted [] (list text) criteria
      serviceTag         := ← defaulted none (optional text) tag
    }
  | _ => none

end Read

-- Why an answer has no items. The deserializer has a text of its own.
inductive ItemsError
  | message (text : String)
  | deserializer
deriving DecidableEq, Repr

namespace Parsing

-- What a value may be that is read without a type: its strings are texts, it is not nested too deeply and
-- it has no number that does not fit.
def valueLimits (fits : List Char → Bool) : Json.Limits where
  text raw := (Json.unescape raw).isSome
  number   := fits
  depth n  := n < 128

def isArray : Json → Bool
  | .arr _ => true
  | _      => false

def readItems (cs : List Char) : Option (List ProposedItem) :=
  Json.read .none cs >>= Serde.list ProposedItem.ofJson

def readItem (cs : List Char) : Option ProposedItem :=
  Json.read .none cs >>= ProposedItem.ofJson

def fence : List Char := "```".toList

-- Drop the first and the last line if they are fences. The lines end with a line feed afterwards.
def stripCodeFences (raw : String) : String :=
  let ls := Text.lines raw
  if ls.length < 2 then
    raw
  else
    let headIsFence := fence.isPrefixOf ((ls.headD "").toList.dropWhile Text.isWhitespace)
    let tailIsFence := fence.isSuffixOf (Text.trim (ls.getLastD "")).toList
    if headIsFence && tailIsFence then "\n".intercalate ls.tail.dropLast else raw

def isClosing (c : Char) : Bool :=
  c = ']' || c = '}'

def trimTrailingProse (s : String) : String :=
  if s.toList.any isClosing then .ofList (s.toList.rdropWhile (!isClosing ·)) else s

variable (fits : List Char → Bool)

def isArrayText (cs : List Char) : Bool :=
  (Json.read (valueLimits fits) cs).any isArray

-- The shortest array that starts at the first bracket.
def firstValidSlice (s : String) : Option (List Char) :=
  (s.toList.dropWhile (· ≠ '[')).inits.filter (·.getLast? = some ']') |>.find? (isArrayText fits)

def parseItems (raw : String) : Except ItemsError (List ProposedItem) :=
  let stripped := stripCodeFences raw
  let slice := [trimTrailingProse stripped, stripped].findSome? fun body =>
    if !body.toList.contains '[' || !body.toList.contains ']' then none else firstValidSlice fits body
  match slice with
  | none           => .error (.message "no JSON array found")
  | some candidate =>
    match readItems candidate with
    | some items => .ok items
    | none       => .error .deserializer

-- Where the scan for objects is: how many braces are open, whether in a string and after a backslash, the
-- text since the first brace that is open, and the objects so far.
structure Scan where
  depth    : Int                := 0
  inString : Bool               := false
  escaped  : Bool               := false
  start    : Option (List Char) := none
  out      : List (List Char)   := []

def scanStep (s : Scan) (c : Char) : Scan :=
  let slice := s.start.map (· ++ [c])
  if s.inString then
    if s.escaped then
      { s with escaped := false, start := slice }
    else if c = '\x5c' then
      { s with escaped := true, start := slice }
    else if c = '\x22' then
      { s with inString := false, start := slice }
    else
      { s with start := slice }
  else if c = '\x22' then
    { s with inString := true, start := slice }
  else if c = '{' then
    { s with
      depth := s.depth + 1
      start := if s.depth = 0 ∧ s.start.isNone then some [c] else slice
    }
  else if c = '}' then
    if s.depth - 1 = 0 then
      { s with depth := s.depth - 1, start := none, out := s.out ++ slice.toList }
    else
      { s with depth := s.depth - 1, start := slice }
  else
    { s with start := slice }

-- The objects that are in no other object.
def topLevelObjects (s : String) : List (List Char) :=
  (s.toList.foldl scanStep {}).out

def parseItemsLenient (raw : String) : Except ItemsError (List ProposedItem) :=
  match (topLevelObjects (stripCodeFences raw)).filterMap readItem with
  | []    => .error (.message "no valid feature items found")
  | items => .ok items

end Parsing

example : (Parsing.parseItems (fun _ => true)
    "thinking... [\x7b\x22title\x22:\x22X\x22,\x22priority\x22:\x22low\x22,\x22complexity\x22:\x22small\x22\x7d] done").toOption =
    some [{ title := "X", priority := .low, complexity := .small }] := by
  decide +kernel
