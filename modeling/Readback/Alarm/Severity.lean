import Readback.Value.Basic

namespace Readback

inductive Severity where
  | noAlarm
  | minor
  | major
  | invalid
  | disable
deriving DecidableEq

namespace Severity

-- All severities, the least severe first.
def all : List Severity := [noAlarm, minor, major, invalid, disable]

def state : Severity → String
  | noAlarm => "NO_ALARM"
  | minor => "MINOR"
  | major => "MAJOR"
  | invalid => "INVALID"
  | disable => "DISABLE"

def toValue (s : Severity) : Value :=
  .text s.state

def ofState? (s : String) : Option Severity :=
  all.find? fun severity => severity.state == s

def ofText? (s : String) : Option Severity :=
  all.find? fun severity => Text.sameLetters severity.state (String.ofList (Text.trim s.toList))

def unknownMessage (s : String) : String :=
  "Unknown alarm severity '" ++ s ++ "'"

-- The severity that a value stands for when it is written to a record: a text by name, a number by
-- its place among the severities.
def ofValue? : Value → Option Severity
  | .text s => ofText? s
  | v => v.toInteger?.bind fun n => if 0 ≤ n.toInt then all[n.toInt.toNat]? else none

end Severity
end Readback
