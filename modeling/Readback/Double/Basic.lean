namespace Readback

namespace Double

def ranks : Nat := 2047 * Nat.pow 2 52

theorem ranks_pos : 0 < ranks := by decide

-- The magnitude with a given rank, counted in units of `2 ^ -1074`, the smallest one above zero.
-- Up to `2 ^ 53` each unit is a magnitude; each further binade has `2 ^ 52` of them, twice as far
-- apart as those before.
def magnitude (rank : Nat) : Nat :=
  let binade := Nat.pow 2 52
  if rank < 2 * binade then rank
  else (binade + rank % binade) * Nat.pow 2 (rank / binade - 1)

end Double

-- An IEEE 754 double without the payloads of its NaNs: a finite one is a sign and the place of its
-- magnitude among all magnitudes.
inductive Double where
  | nan
  | infinite (negative : Bool)
  | finite (negative : Bool) (rank : Fin Double.ranks)
deriving DecidableEq

namespace Double

def zero : Double := .finite false ⟨0, ranks_pos⟩

def isFinite : Double → Bool
  | .finite .. => true
  | _ => false

-- The place of a double on the number line. Both zeros stand at 0, NaN stands nowhere.
def place? : Double → Option Int
  | .nan => none
  | .infinite negative => some (if negative then -(ranks : Int) else ranks)
  | .finite negative rank => some (if negative then -(rank : Int) else rank)

def units? : Double → Option Int
  | .finite negative rank =>
    some (if negative then -(magnitude rank : Int) else magnitude rank)
  | _ => none

def compare? (x y : Double) : Option Ordering := do
  let i ← x.place?
  let j ← y.place?
  return compare i j

-- Numerical equality: the zeros are equal, NaN equals nothing.
def same (x y : Double) : Bool :=
  x.compare? y == some .eq

def atMost (x y : Double) : Bool :=
  match x.compare? y with
  | some .lt | some .eq => true
  | _ => false

def neg : Double → Double
  | .nan => .nan
  | .infinite negative => .infinite !negative
  | .finite negative rank => .finite (!negative) rank

def abs : Double → Double
  | .nan => .nan
  | .infinite _ => .infinite false
  | .finite _ rank => .finite false rank

@[simp] theorem place?_nan : place? .nan = none := rfl

@[simp] theorem units?_nan : units? .nan = none := rfl

theorem place?_isSome_iff {x : Double} : x.place?.isSome ↔ x ≠ .nan := by
  cases x <;> simp [place?]

theorem compare?_nan_left (y : Double) : compare? .nan y = none := rfl

end Double
end Readback
