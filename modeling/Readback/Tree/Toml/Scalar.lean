import Readback.Text.Scan
import Readback.Tree.Basic

namespace Readback.Tree.Toml

open Text

-- Digits, possibly with single underscores between them; the result has no underscores.
def grouped? (isDigit : Char → Bool) : List Char → Option (List Char)
  | [] => none
  | [c] => if isDigit c then some [c] else none
  | c :: '_' :: cs => if isDigit c then (grouped? isDigit cs).map (c :: ·) else none
  | c :: cs => if isDigit c then (grouped? isDigit cs).map (c :: ·) else none

def sign (cs : List Char) : Bool × List Char :=
  match cs with
  | '-' :: cs => (true, cs)
  | '+' :: cs => (false, cs)
  | cs => (false, cs)

-- Grouped decimal digits, the first of which is zero only if it is alone.
def whole? (cs : List Char) : Option (List Char) :=
  if cs.head? == some '0' && cs.length != 1 then none else grouped? isDigit cs

def isOctal (c : Char) : Bool := '0' ≤ c && c ≤ '7'

def isBinary (c : Char) : Bool := c == '0' || c == '1'

def word? (n : Int) : Option Tree :=
  (Value.word? n).map fun _ => .integer n

def integer? : List Char → Option Tree
  | '0' :: 'x' :: cs => (grouped? isHexDigit cs).bind fun ds => word? (valueIn 16 ds)
  | '0' :: 'o' :: cs => (grouped? isOctal cs).bind fun ds => word? (valueIn 8 ds)
  | '0' :: 'b' :: cs => (grouped? isBinary cs).bind fun ds => word? (valueIn 2 ds)
  | cs =>
    let (negative, cs) := sign cs
    (whole? cs).bind fun ds => word? (if negative then -(decimal ds : Int) else decimal ds)

def exponent? (cs : List Char) : Option Int :=
  let (negative, cs) := sign cs
  (grouped? isDigit cs).map fun ds => if negative then -(decimal ds : Int) else decimal ds

def isExponentMark (c : Char) : Bool := c == 'e' || c == 'E'

-- A double: a whole number followed by a fraction or an exponent or both, or a word. A number
-- beyond the largest double is refused.
def float? (cs : List Char) : Option Tree :=
  let (negative, cs) := sign cs
  if cs == ['i', 'n', 'f'] then some (.float (.infinite negative))
  else if cs == ['n', 'a', 'n'] then some (.float .nan)
  else do
    let (mantissa, mark) := cs.span fun c => !isExponentMark c
    let exponent ← match mark with
      | [] => pure 0
      | _ :: cs => exponent? cs
    let (whole, point) := mantissa.span (· != '.')
    let whole ← whole? whole
    let fraction ← match point with
      | [] => if mark.isEmpty then none else pure []
      | _ :: cs => grouped? isDigit cs
    let x := Double.Numeral.toDouble negative { whole, fraction, exponent }
    if x == .infinite false then none else some (.float x)

def numberOf (n least greatest : Nat) : Scan Nat := do
  let k := decimal (← Scan.exactly n isDigit)
  if least ≤ k ∧ k ≤ greatest then return k else failure

def daysIn (year month : Nat) : Nat :=
  if month = 2 then
    if year % 4 = 0 ∧ (year % 100 ≠ 0 ∨ year % 400 = 0) then 29 else 28
  else if month = 4 ∨ month = 6 ∨ month = 9 ∨ month = 11 then 30
  else 31

def date : Scan Unit := do
  let year ← numberOf 4 0 9999
  Scan.char '-'
  let month ← numberOf 2 1 12
  Scan.char '-'
  discard (numberOf 2 1 (daysIn year month))

def time : Scan Unit := do
  discard (numberOf 2 0 23)
  Scan.char ':'
  discard (numberOf 2 0 59)
  Scan.char ':'
  discard (numberOf 2 0 60)
  discard (Scan.optional do
    Scan.char '.'
    Scan.run isDigit)

def offset : Scan Unit :=
  (discard (Scan.satisfying fun c => c == 'Z' || c == 'z')) <|> do
    discard (Scan.satisfying fun c => c == '+' || c == '-')
    discard (numberOf 2 0 23)
    Scan.char ':'
    discard (numberOf 2 0 59)

-- A date, a time, or both, of which only both together may have an offset.
def moment : Scan Unit :=
  (do
    date
    discard (Scan.optional do
      discard (Scan.satisfying fun c => c == 'T' || c == 't' || c == ' ')
      time
      discard (Scan.optional offset))) <|> time

def isPlain (c : Char) : Bool :=
  isDigit c || ('a' ≤ c && c ≤ 'z') || ('A' ≤ c && c ≤ 'Z') || c == '_' || c == '+' || c == '-' ||
  c == '.' || c == ':'

def plain : Scan Tree :=
  (do
    moment
    if ((← Scan.peek).map isPlain).getD false then failure else return .moment "") <|> do
  let cs ← Scan.run isPlain
  if cs == ['t', 'r', 'u', 'e'] then return .bool true
  else if cs == ['f', 'a', 'l', 's', 'e'] then return .bool false
  else Scan.ofOption ((integer? cs).or (float? cs))

end Readback.Tree.Toml
