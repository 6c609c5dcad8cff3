import Readback.Double.Shortest

namespace Readback.Double

open Text

-- How a double is written: the place of the first digit from which on it has an exponent
-- on either side, the mark of a positive exponent, and which of two equally near decimals stands.
structure Form where
  tie : Tie
  lowest : Int
  highest : Int
  positiveMark : List Char

-- The form in diagnostics: positional from `0.0001` to below `1e16`.
def Form.diagnostic : Form := ⟨.up, -4, 15, []⟩

-- The form in JSON: positional from `0.00001` to below `1e+16`.
def Form.json : Form := ⟨.even, -5, 15, ['+']⟩

def positional (ds : List Char) (place : Int) : List Char :=
  if place < 0 then
    ['0', '.'] ++ List.replicate (-place - 1).toNat '0' ++ ds
  else
    let whole := place.toNat + 1
    if ds.length ≤ whole then ds ++ List.replicate (whole - ds.length) '0' ++ ['.', '0']
    else ds.take whole ++ ['.'] ++ ds.drop whole

def withExponent (mark ds : List Char) (place : Int) : List Char :=
  let head := match ds with
    | [] => []
    | [d] => [d]
    | d :: ds => d :: '.' :: ds
  head ++ ['e'] ++ (if 0 ≤ place then mark else []) ++ ofInteger place

def Form.decimal (form : Form) (s : Scientific) : List Char :=
  let ds := digits s.digits
  let place := s.exponent + (ds.length - 1 : Int)
  if form.lowest ≤ place ∧ place ≤ form.highest then positional ds place
  else withExponent form.positiveMark ds place

def Form.rank (form : Form) (rank : Nat) : List Char :=
  if rank = 0 then ['0', '.', '0'] else form.decimal (shortest form.tie rank)

def Form.write? (form : Form) : Double → Option (List Char)
  | .finite negative rank => some ((if negative then ['-'] else []) ++ form.rank rank)
  | _ => none

def text (x : Double) : List Char :=
  match x with
  | .nan => ['N', 'a', 'N']
  | .infinite negative => (if negative then ['-'] else []) ++ ['i', 'n', 'f']
  | x => (Form.diagnostic.write? x).getD []

end Readback.Double
