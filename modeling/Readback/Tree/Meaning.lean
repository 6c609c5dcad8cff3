import Readback.Alarm.Severity
import Readback.Device.Emulator
import Readback.Span.Written
import Readback.Tree.Basic

namespace Readback

namespace Value

mutual

-- An integer within 64 bits stays one; any other number is a double. Nothing but numbers, texts
-- and lists of values is a value.
def ofTree? : Tree → Option Value
  | .integer n => some (match word? n with | some w => int w | none => float (.ofInt n))
  | .float x => some (float x)
  | .text s => some (text s)
  | .list items => (ofTrees? items).map array
  | _ => none

def ofTrees? : List Tree → Option (List Value)
  | [] => some []
  | t :: ts => do return (← ofTree? t) :: (← ofTrees? ts)

end

mutual

def toTree : Value → Tree
  | int n => .integer n.toInt
  | float x => .float x
  | text s => .text s
  | array items => .list (toTrees items)

def toTrees : List Value → List Tree
  | [] => []
  | v :: vs => v.toTree :: toTrees vs

end

end Value

-- A double may be written as an integer.
def Double.ofTree? : Tree → Option Double
  | .integer n => some (.ofInt n)
  | .float x => some x
  | _ => none

-- An integer may not be written as a double.
def Tree.word? : Tree → Option Int64
  | .integer n => Value.word? n
  | _ => none

namespace Span

def ofTree? (t : Tree) : Option Span :=
  t.text?.bind fun s => read? s.toList

def toTree (s : Span) : Tree :=
  .text s.written

def ofTreeOrNull? : Tree → Option (Option Span)
  | .null => some none
  | t => (ofTree? t).map some

end Span

namespace Severity

def toTree (s : Severity) : Tree :=
  .text s.state

def ofTree? (isNothing : Tree → Bool) (t : Tree) : Option Severity :=
  (t.choice? isNothing).bind ofState?

end Severity

namespace Mode

def toTree (m : Mode) : Tree :=
  .text m.name

def ofTree? (t : Tree) : Option Mode :=
  (t.choice? Tree.isNull).bind ofName?

end Mode
end Readback
