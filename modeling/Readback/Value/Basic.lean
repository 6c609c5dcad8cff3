import Readback.Double.Form
import Readback.Text.Blank

namespace Readback

-- What a process variable holds: an integer, a double, a text (the state of an enumeration, say)
-- or a waveform.
inductive Value where
  | int (n : Int64)
  | float (x : Double)
  | text (s : String)
  | array (items : List Value)

namespace Value

def kind : Value → String
  | int _ => "int"
  | float _ => "float"
  | text _ => "str"
  | array _ => "array"

def text? : Value → Option String
  | text s => some s
  | _ => none

def word? (n : Int) : Option Int64 :=
  if Int64.minValue.toInt ≤ n ∧ n ≤ Int64.maxValue.toInt then some (.ofInt n) else none

-- A value taken as a number. A text is one if it spells one between blanks; an array is never
-- one.
def toDouble? : Value → Option Double
  | int n => some (.ofInt n.toInt)
  | float x => some x
  | text s => Double.ofText? (Text.trim s.toList)
  | array _ => none

-- The integer part of a double, for doubles from `-2 ^ 63` through `2 ^ 63`. The upper bound
-- itself is no 64-bit integer and gives the greatest one.
def truncated? (x : Double) : Option Int64 :=
  x.truncate?.bind fun n =>
    if n = Int64.maxValue.toInt + 1 then some .maxValue else word? n

-- A value taken as an integer. Doubles lose their fraction; a text is an integer only if it spells
-- one between blanks.
def toInteger? : Value → Option Int64
  | int n => some n
  | float x => truncated? x
  | text s => (Text.integer? (Text.trim s.toList)).bind word?
  | array _ => none

end Value
end Readback
