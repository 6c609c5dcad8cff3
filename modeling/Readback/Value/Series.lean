import Readback.Double.Round
import Readback.Value.Basic

namespace Readback

structure Ramp where
  next : Double
  step : Double

namespace Ramp

def value (r : Ramp) : Value := .float r.next

def advance (r : Ramp) : Ramp := { r with next := r.next.add r.step }

end Ramp

structure Noise where
  center : Double
  -- How far a value can be from the center; the sign does not matter.
  amplitude : Double
  seed : Nat

namespace Noise

-- The next number of a linear congruential sequence, below `2 ^ 64`.
def scramble (n : Nat) : Nat :=
  (n * 6364136223846793005 + 1442695040888963407) % UInt64.size

-- How far the value is from the center: a part of the amplitude that the upper half of the seed
-- gives, to the side that the next bit gives.
def offset (g : Noise) : Double :=
  let part := g.amplitude.abs.fraction (g.seed / Nat.pow 2 32)
  Double.zero.add (if g.seed / Nat.pow 2 31 % 2 = 1 then part.neg else part)

def value (g : Noise) : Value := .float (g.center.add g.offset)

def advance (g : Noise) : Noise := { g with seed := scramble g.seed }

end Noise

-- Values that come one after another. Those that are given can be any at all.
inductive Series where
  | ramp (r : Ramp)
  | noise (g : Noise)
  | given (values : Nat → Value)

namespace Series

def value : Series → Value
  | ramp r => r.value
  | noise g => g.value
  | given values => values 0

def advance : Series → Series
  | ramp r => ramp r.advance
  | noise g => noise g.advance
  | given values => given fun n => values (n + 1)

def take : Nat → Series → List Value
  | 0, _ => []
  | n + 1, s => s.value :: take n s.advance

def drop (n : Nat) (s : Series) : Series := n.repeat advance s

@[simp] theorem length_take (n : Nat) (s : Series) : (take n s).length = n := by
  induction n generalizing s
  case zero => rfl
  case succ n hi => rw [take, List.length_cons, hi]

end Series

def Ramp.take (n : Nat) (r : Ramp) : List Value := (Series.ramp r).take n

def Noise.take (n : Nat) (g : Noise) : List Value := (Series.noise g).take n

instance : Coe Ramp Series := ⟨.ramp⟩

end Readback
