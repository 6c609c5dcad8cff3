import Readback.Double.Decimal

namespace Readback.Double

inductive Tie where
  | up
  | even
deriving DecidableEq

-- `digits * 10 ^ exponent`.
structure Scientific where
  digits : Nat
  exponent : Int
deriving DecidableEq

-- The magnitudes that round to a given rank, in half units: the ends are half way to the
-- neighbours, and belong to it when the rank is even.
structure Basin where
  low : Nat
  high : Nat
  closed : Bool

def basin (rank : Nat) : Basin where
  low := magnitude (rank - 1) + magnitude rank
  high := magnitude rank + magnitude (rank + 1)
  closed := rank % 2 == 0

def Basin.holds (b : Basin) (num den : Nat) : Bool :=
  if b.closed then b.low * den ≤ num && num ≤ b.high * den
  else b.low * den < num && num < b.high * den

-- The multiple of `10 ^ exponent` that is nearest to the magnitude of a rank among its two
-- neighbours there that read back as it.
def onGrid? (tie : Tie) (rank : Nat) (exponent : Int) : Option Scientific :=
  let num := Nat.pow 10 exponent.toNat * Nat.pow 2 1075
  let den := Nat.pow 10 (-exponent).toNat
  let value := 2 * magnitude rank * den
  let below := value / num
  let rest := value % num
  let readsBack (n : Nat) := (basin rank).holds (n * num) den
  let upper := num < 2 * rest || (2 * rest == num && (tie == .up || below % 2 == 1))
  match readsBack below, readsBack (below + 1) with
  | true, true => some ⟨if upper then below + 1 else below, exponent⟩
  | true, false => some ⟨below, exponent⟩
  | false, true => some ⟨below + 1, exponent⟩
  | false, false => none

def searchGrids (tie : Tie) (rank : Nat) : Nat → Int → Option Scientific
  | 0, _ => none
  | n + 1, exponent => (onGrid? tie rank exponent).or (searchGrids tie rank n (exponent - 1))

-- The decimal with the fewest digits that reads back as a rank, and of those the nearest. The
-- search starts above the magnitude, and 20 grids reach seventeen digits; the decimal of all digits
-- would stand in if it failed.
def shortest (tie : Tie) (rank : Nat) : Scientific :=
  let start := ((magnitude rank).log2 - 1074 : Int) * 30103 / 100000 + 2
  (searchGrids tie rank 20 start).getD ⟨magnitude rank * Nat.pow 5 1074, -1074⟩

end Readback.Double
