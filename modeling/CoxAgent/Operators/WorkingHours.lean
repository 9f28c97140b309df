import CoxAgent.Lib.Json
import CoxAgent.Lib.Text

inductive Weekday
  | monday | tuesday | wednesday | thursday | friday | saturday | sunday
deriving DecidableEq, Repr

def Weekday.ofIndex : Nat → Weekday
  | 0 => monday
  | 1 => tuesday
  | 2 => wednesday
  | 3 => thursday
  | 4 => friday
  | 5 => saturday
  | _ => sunday

def Weekday.index : Weekday → Nat
  | monday    => 0
  | tuesday   => 1
  | wednesday => 2
  | thursday  => 3
  | friday    => 4
  | saturday  => 5
  | sunday    => 6

-- A wall-clock time. The declared ones have no seconds.
structure Time where
  hour      : Nat
  minute    : Nat
  hour_lt   : hour < 24
  minute_lt : minute < 60
deriving DecidableEq, Repr

-- The distance from UTC, at most 25 hours with all their minutes and seconds.
structure UtcOffset where
  seconds : Int
  lower   : -93600 < seconds
  upper   : seconds < 93600
deriving DecidableEq, Repr

namespace WorkingHours

def minutesOf (t : Time) : Nat :=
  t.hour * 60 + t.minute

end WorkingHours

open WorkingHours

-- A stretch of a weekday that is worked, without its end. One that is reversed or empty is refused.
structure WorkingWindow where
  weekday : Weekday
  (start end' : Time)
  ordered : minutesOf start < minutesOf end'
deriving DecidableEq, Repr

structure OperatorWorkingHours where
  tzOffset : UtcOffset
  windows  : List WorkingWindow := []
deriving DecidableEq, Repr

def WorkingWindow.covers (w : WorkingWindow) (weekday : Weekday) (minutesOfDay : Nat) : Bool :=
  w.weekday = weekday && minutesOf w.start ≤ minutesOfDay && minutesOfDay < minutesOf w.end'

namespace WorkingHours

section Decide

-- An instant is given by the seconds since 1970, which began on a Thursday.
def localWeekday (now : Int) (offset : UtcOffset) : Weekday :=
  .ofIndex (((now + offset.seconds) / 86400 + 3) % 7).toNat

def localMinutes (now : Int) (offset : UtcOffset) : Nat :=
  ((now + offset.seconds) % 86400 / 60).toNat

-- The windows that contain the instant as it is read with one of the offsets, each of them once.
def resolveWindows (decl : OperatorWorkingHours) (now : Int) (candidates : List UtcOffset) : List WorkingWindow :=
  candidates.foldl (fun picked candidate =>
    let weekday := localWeekday now candidate
    let minutes := localMinutes now candidate
    decl.windows.foldl (fun picked w =>
      if w.covers weekday minutes && !picked.contains w then picked ++ [w] else picked) picked) []

def isActionable (decl : OperatorWorkingHours) (now : Int) : Bool :=
  !(resolveWindows decl now [decl.tzOffset]).isEmpty

end Decide

section Read

open Serde

-- Exactly two digits.
def twoDigits : List Char → Option Nat
  | [a, b] => if a.isDigit && b.isDigit then some ((a.toNat - 48) * 10 + (b.toNat - 48)) else none
  | _      => none

-- Whether the sign is a minus.
def signOf : Char → Option Bool
  | '+' => some false
  | '-' => some true
  | _   => none

def parseTz (s : String) : Option UtcOffset :=
  match s.toList with
  | [sign, h₁, h₂, ':', m₁, m₂] => do
    let negative ← signOf sign
    let h ← twoDigits [h₁, h₂]
    let m ← twoDigits [m₁, m₂]
    if hm : h ≤ 23 ∧ m ≤ 59 then
      if negative then
        some ⟨-(h * 3600 + m * 60 : Nat), by omega, by omega⟩
      else
        some ⟨(h * 3600 + m * 60 : Nat), by omega, by omega⟩
    else
      none
  | _ => none

def parseHhmm (s : String) : Option Time :=
  match s.toList with
  | [h₁, h₂, ':', m₁, m₂] => do
    let hour ← twoDigits [h₁, h₂]
    let minute ← twoDigits [m₁, m₂]
    if h : hour < 24 ∧ minute < 60 then some ⟨hour, minute, h.1, h.2⟩ else none
  | _ => none

def weekdayNames : List (String × Weekday) :=
  [("monday", .monday), ("tuesday", .tuesday), ("wednesday", .wednesday), ("thursday", .thursday),
    ("friday", .friday), ("saturday", .saturday), ("sunday", .sunday)]

def parseWeekday (s : String) : Option Weekday :=
  weekdayNames.lookup (Text.trim s).toLower

def tzOf (j : Json) : Option UtcOffset := text j >>= parseTz

def hhmmOf (j : Json) : Option Time := text j >>= parseHhmm

def weekdayOf (j : Json) : Option Weekday := text j >>= parseWeekday

end Read

section Write

-- Two digits, or more for what does not fit.
def pad (n : Nat) : List Char :=
  Text.zeroPad 2 n

def printTz (o : UtcOffset) : List Char :=
  let minutes := o.seconds.tdiv 60
  (if minutes < 0 then '-' else '+') :: (pad (minutes.natAbs / 60) ++ ':' :: pad (minutes.natAbs % 60))

def printHhmm (t : Time) : List Char :=
  pad t.hour ++ ':' :: pad t.minute

def printWeekday : Weekday → List Char
  | .monday    => "monday".toList
  | .tuesday   => "tuesday".toList
  | .wednesday => "wednesday".toList
  | .thursday  => "thursday".toList
  | .friday    => "friday".toList
  | .saturday  => "saturday".toList
  | .sunday    => "sunday".toList

end Write
end WorkingHours

namespace WorkingWindow

open Serde WorkingHours

-- An end that does not come after the start is an error.
def ofJson (j : Json) : Option WorkingWindow := do
  match ← fields ["weekday", "start", "end"] j with
  | [weekday, start, stop] =>
    let weekday ← required weekdayOf weekday
    let start ← required hhmmOf start
    let stop ← required hhmmOf stop
    if h : minutesOf start < minutesOf stop then some ⟨weekday, start, stop, h⟩ else none
  | _ => none

def toJson (w : WorkingWindow) : Json :=
  .obj [("weekday".toList, .str (printWeekday w.weekday)), ("start".toList, .str (printHhmm w.start)),
    ("end".toList, .str (printHhmm w.end'))]

end WorkingWindow

namespace OperatorWorkingHours

open Serde WorkingHours

def ofJson (j : Json) : Option OperatorWorkingHours := do
  match ← fields ["tz_offset", "windows"] j with
  | [tz, windows] =>
    return {
      tzOffset := ← required tzOf tz
      windows  := ← defaulted [] (list WorkingWindow.ofJson) windows
    }
  | _ => none

def toJson (d : OperatorWorkingHours) : Json :=
  .obj [("tz_offset".toList, .str (printTz d.tzOffset)), ("windows".toList, .arr (d.windows.map (·.toJson)))]

end OperatorWorkingHours
