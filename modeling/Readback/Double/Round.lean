import Readback.Double.Basic

namespace Readback.Double

-- The rank of the magnitude nearest to `num / den` units, the even rank when two are equally near.
-- Within a binade the magnitudes are the multiples of a power of two, and rounding up past its end
-- gives the first magnitude of the next. Beyond the largest double the result is no rank.
def nearestRank (num den : Nat) : Nat :=
  let scale := Nat.log2 (num / den) - 52
  let step := den * Nat.pow 2 scale
  let below := num / step
  let rest := num % step
  let up := step < 2 * rest || (2 * rest == step && below % 2 == 1)
  scale * Nat.pow 2 52 + below + if up then 1 else 0

def ofRatio (negative : Bool) (num den : Nat) : Double :=
  if h : nearestRank num den < ranks then .finite negative ⟨nearestRank num den, h⟩
  else .infinite negative

def ofUnits (n : Int) : Double :=
  ofRatio (n < 0) n.natAbs 1

def ofInt (n : Int) : Double :=
  ofRatio (n < 0) (n.natAbs * Nat.pow 2 1074) 1

-- The sum, rounded once. An exact zero is negative only if both terms are.
def add : Double → Double → Double
  | .nan, _ | _, .nan => .nan
  | .infinite a, .infinite b => if a == b then .infinite a else .nan
  | .infinite a, .finite .. => .infinite a
  | .finite .., .infinite b => .infinite b
  | .finite a i, .finite b j =>
    let sum := (if a then -(magnitude i : Int) else magnitude i) +
      (if b then -(magnitude j : Int) else magnitude j)
    if sum = 0 then .finite (a && b) ⟨0, ranks_pos⟩ else ofUnits sum

def sub (x y : Double) : Double :=
  add x y.neg

def mul : Double → Double → Double
  | .nan, _ | _, .nan => .nan
  | .infinite a, .infinite b => .infinite (a != b)
  | .infinite a, .finite b j => if j.val = 0 then .nan else .infinite (a != b)
  | .finite a i, .infinite b => if i.val = 0 then .nan else .infinite (a != b)
  | .finite a i, .finite b j => ofRatio (a != b) (magnitude i * magnitude j) (Nat.pow 2 1074)

def div : Double → Double → Double
  | .nan, _ | _, .nan => .nan
  | .infinite _, .infinite _ => .nan
  | .infinite a, .finite b _ => .infinite (a != b)
  | .finite a _, .infinite b => .finite (a != b) ⟨0, ranks_pos⟩
  | .finite a i, .finite b j =>
    if j.val ≠ 0 then ofRatio (a != b) (magnitude i * Nat.pow 2 1074) (magnitude j)
    else if i.val = 0 then .nan
    else .infinite (a != b)

def truncate? (x : Double) : Option Int :=
  x.units?.map fun n => n.tdiv (Nat.pow 2 1074)

def fraction (x : Double) (k : Nat) : Double :=
  match x with
  | .finite negative rank => ofRatio negative (magnitude rank * k) (Nat.pow 2 32)
  | _ => x

end Readback.Double
