import Readback.Value.Basic

namespace Readback.Value

mutual

-- Equality as test authors expect it: an integer equals the double it rounds to, texts never equal
-- numbers, arrays are equal item by item.
def same : Value → Value → Bool
  | int a, int b => a == b
  | int a, float b => (Double.ofInt a.toInt).same b
  | float a, int b => (Double.ofInt b.toInt).same a
  | float a, float b => a.same b
  | text a, text b => a == b
  | array as, array bs => sameItems as bs
  | _, _ => false

def sameItems : List Value → List Value → Bool
  | [], [] => true
  | a :: as, b :: bs => a.same b && sameItems as bs
  | _, _ => false

end

mutual

-- Order: numbers by size, texts by code points, arrays by their first items that are not equal.
-- Values of other kinds are not comparable, and neither is anything with NaN.
def compare? : Value → Value → Option Ordering
  | int a, int b => some (compare a.toInt b.toInt)
  | int a, float b => (Double.ofInt a.toInt).compare? b
  | float a, int b => a.compare? (.ofInt b.toInt)
  | float a, float b => a.compare? b
  | text a, text b => some (compare a b)
  | array as, array bs => compareItems? as bs
  | _, _ => none

def compareItems? : List Value → List Value → Option Ordering
  | [], [] => some .eq
  | [], _ :: _ => some .lt
  | _ :: _, [] => some .gt
  | a :: as, b :: bs =>
    match a.compare? b with
    | some .eq => compareItems? as bs
    | order => order

end

def lessThan (a b : Value) : Bool := a.compare? b == some .lt

def greaterThan (a b : Value) : Bool := a.compare? b == some .gt

def atMost (a b : Value) : Bool := a.compare? b == some .lt || a.compare? b == some .eq

def atLeast (a b : Value) : Bool := a.compare? b == some .gt || a.compare? b == some .eq

-- Whether a value is a number at most `tolerance` away from `expected`. A negative tolerance is
-- never met.
def within (v : Value) (expected tolerance : Double) : Bool :=
  match v.toDouble? with
  | some x => (x.sub expected).abs.atMost tolerance
  | none => false

def inRange (v : Value) (least greatest : Int64) : Bool :=
  match v.toInteger? with
  | some n => least.toInt ≤ n.toInt && n.toInt ≤ greatest.toInt
  | none => false

end Readback.Value
