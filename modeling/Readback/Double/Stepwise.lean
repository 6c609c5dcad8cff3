import Readback.Double.Decimal

namespace Readback.Double

open Text

-- Appends digits to a number as long as it stays below `2 ^ 64`; the digits that are left.
def append : Nat → List Char → Nat × List Char
  | n, [] => (n, [])
  | n, c :: cs =>
    let m := 10 * n + (digit? c).getD 0
    if m < UInt64.size then append m cs else (n, c :: cs)

def power (n : Nat) : Double := ofInt (Nat.pow 10 n)

-- A double times a power of ten. It is multiplied or divided by powers up to `10 ^ 308`, and every
-- step rounds. There is nothing beyond all doubles.
def scale? (x : Double) (exponent : Int) : Option Double :=
  if exponent < -308 then
    if x.same zero then some x else scale? (x.div (power 308)) (exponent + 308)
  else if exponent < 0 then some (x.div (power (-exponent).toNat))
  else if exponent ≤ 308 then
    let y := x.mul (power exponent.toNat)
    if y.isFinite then some y else none
  else if x.same zero then some x
  else none
termination_by (-exponent).toNat

-- A quick reading of a numeral, which may miss the nearest double: its first digits, as many as
-- fit 64 bits, are rounded and then scaled. The digits left of the point that do not fit only
-- count as places.
def Numeral.stepwise? (negative : Bool) (n : Numeral) : Option Double :=
  let (whole, left) := append 0 n.whole
  let (significand, unused) := append whole n.fraction
  let places := (n.fraction.length - unused.length : Int)
  let x := scale? (ofInt significand) (n.exponent + left.length - places)
  if negative then x.map neg else x

end Readback.Double
