import Readback.Span.Basic
import Readback.Text.Blank
import Readback.Text.Digits

namespace Readback.Span

open Text

-- The units of written spans. A month has 30.44 days and a year 365.25.
inductive TimeUnit where
  | nano
  | micro
  | milli
  | second
  | minute
  | hour
  | day
  | week
  | month
  | year
deriving DecidableEq

namespace TimeUnit

def nanos? : TimeUnit → Option Nat
  | nano => some 1
  | micro => some 1000
  | milli => some 1000000
  | _ => none

def seconds : TimeUnit → Nat
  | minute => 60
  | hour => 3600
  | day => 86400
  | week => 604800
  | month => 2630016
  | year => 31557600
  | _ => 1

def names : TimeUnit → List String
  | nano => ["nanos", "nsec", "ns"]
  | micro => ["usec", "us", "µs"]
  | milli => ["millis", "msec", "ms"]
  | second => ["seconds", "second", "secs", "sec", "s"]
  | minute => ["minutes", "minute", "min", "mins", "m"]
  | hour => ["hours", "hour", "hrs", "hr", "h"]
  | day => ["days", "day", "d"]
  | week => ["weeks", "week", "wks", "wk", "w"]
  | month => ["months", "month", "M"]
  | year => ["years", "year", "yrs", "yr", "y"]

def all : List TimeUnit :=
  [nano, micro, milli, second, minute, hour, day, week, month, year]

def ofName? (cs : List Char) : Option TimeUnit :=
  all.find? fun u => u.names.any fun name => name.toList == cs

end TimeUnit

def count? (n : Nat) : Option Nat :=
  if n < UInt64.size then some n else none

-- A span with seconds and nanoseconds added to it. The nanoseconds, together with those of the
-- span beyond its last full second, are counted in 64 bits, and so are the seconds of the result.
def plus? (s : Span) (seconds nanos : Nat) : Option Span := do
  let _ ← count? (s % Span.second + nanos)
  let sum := s + seconds * Span.second + nanos
  if sum < UInt64.size * Span.second then some sum else none

-- A number as it stands before a unit: a whole part and a fraction `part / whole`.
structure Amount where
  whole : Nat
  fraction : Option (Nat × Nat)

def fraction? (ds : List Char) : Option (Nat × Nat) := do
  if ds.isEmpty then none
  let denominator ← count? (Nat.pow 10 ds.length)
  return (decimal ds, denominator)

def partOf? (part whole n : Nat) : Option Nat := do
  let product ← count? (part * n)
  if product % whole = 0 then some (product / whole) else none

-- A span with an amount of a unit added to it. A fraction of an hour and more has to be a whole
-- number of seconds, of a unit below a whole number of nanoseconds, and there is none of a
-- nanosecond.
def plusAmount? (s : Span) (a : Amount) (u : TimeUnit) : Option Span := do
  let s ← match u.nanos? with
    | some unit => s.plus? 0 (← count? (a.whole * unit))
    | none => s.plus? (← count? (a.whole * u.seconds)) 0
  match a.fraction with
  | none => return s
  | some (part, whole) =>
    match u with
    | .hour | .day | .week | .month | .year => s.plus? (← partOf? part whole u.seconds) 0
    | .second | .minute => s.plus? 0 (← partOf? part whole (u.seconds * Span.second))
    | .milli => s.plus? 0 (← partOf? part whole 1000000)
    | .micro => s.plus? 0 (← partOf? part whole 1000)
    | .nano => none

def isUnitLetter (c : Char) : Bool :=
  ('a' ≤ c && c ≤ 'z') || ('A' ≤ c && c ≤ 'Z') || c == 'µ'

def looseDigits (cs : List Char) : List Char × List Char :=
  let (run, rest) := cs.span fun c => isDigit c || isBlank c
  (run.filter isDigit, rest)

def amount? (cs : List Char) : Option (Amount × List Char) := do
  let (whole, rest) := looseDigits cs
  let whole ← count? (decimal whole)
  match rest with
  | '.' :: rest =>
    let (places, rest) := looseDigits rest
    return (⟨whole, some (← fraction? places)⟩, rest)
  | _ => return (⟨whole, none⟩, rest)

-- The sum of amounts that follow each other, each with its unit, added to a span. The number of
-- steps allowed is a bound on the characters.
def sum? : Nat → Span → List Char → Option Span
  | 0, _, _ => none
  | n + 1, s, cs => do
    let c ← cs.head?
    if !isDigit c then none
    let (amount, rest) ← amount? cs
    let (name, rest) := rest.span isUnitLetter
    let unit ← TimeUnit.ofName? name
    let s ← s.plusAmount? amount unit
    match rest.head? with
    | none => some s
    | some c =>
      if isBlank c then
        match rest.dropWhile isBlank with
        | [] => some s
        | rest => sum? n s rest
      else sum? n s rest

-- Reads a written span: amounts with units, in any order, with or without blanks between them.
-- Zero needs no unit.
def read? (cs : List Char) : Option Span :=
  if cs == ['0'] then some 0 else sum? (cs.length + 1) 0 (cs.dropWhile isBlank)

def parts (s : Span) : List (Nat × String) :=
  let seconds := s / Span.second
  let nanos := s % Span.second
  let inYear := seconds % 31557600
  let inMonth := inYear % 2630016
  let inDay := inMonth % 86400
  let named (n : Nat) (name : String) := (n, if n = 1 then name else name ++ "s")
  [named (seconds / 31557600) "year",
   named (inYear / 2630016) "month",
   named (inMonth / 86400) "day",
   (inDay / 3600, "h"),
   (inDay % 3600 / 60, "m"),
   (inDay % 60, "s"),
   (nanos / 1000000, "ms"),
   (nanos / 1000 % 1000, "us"),
   (nanos % 1000, "ns")]

def written (s : Span) : String :=
  if s = 0 then "0s"
  else
    joinWith " " ((s.parts.filter fun p => p.1 != 0).map fun p => String.ofList (digits p.1) ++ p.2)

end Readback.Span
