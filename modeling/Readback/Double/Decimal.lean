import Readback.Double.Round
import Readback.Text.Digits

namespace Readback.Double

open Text

-- The double nearest to `digits * 10 ^ exponent`. Exponents so large or so small that the result
-- is certain are settled without the power of ten.
def ofDecimal (negative : Bool) (digits : Nat) (exponent : Int) : Double :=
  if digits = 0 then .finite negative ⟨0, ranks_pos⟩
  else if 400 < exponent then .infinite negative
  else if exponent + digits.log2 < -400 then .finite negative ⟨0, ranks_pos⟩
  else if 0 ≤ exponent then ofRatio negative (digits * Nat.pow 10 exponent.toNat * Nat.pow 2 1074) 1
  else ofRatio negative (digits * Nat.pow 2 1074) (Nat.pow 10 (-exponent).toNat)

structure Numeral where
  whole : List Char
  fraction : List Char
  exponent : Int

def Numeral.toDouble (negative : Bool) (n : Numeral) : Double :=
  ofDecimal negative (decimal (n.whole ++ n.fraction)) (n.exponent - n.fraction.length)

-- An exponent: a letter `e`, at most one sign, and digits. An absent one counts as zero.
def exponent? : List Char → Option Int
  | [] => some 0
  | c :: cs => if c == 'e' || c == 'E' then integer? cs else none

-- Digits with at most one point among them and an exponent after them. One digit is enough, on
-- either side of the point.
def Numeral.ofText? (cs : List Char) : Option Numeral :=
  let (whole, rest) := cs.span isDigit
  let (fraction, rest) := match rest with
    | '.' :: rest => rest.span isDigit
    | _ => ([], rest)
  if whole.isEmpty && fraction.isEmpty then none
  else (exponent? rest).map fun exponent => { whole, fraction, exponent }

def unsigned? (negative : Bool) (cs : List Char) : Option Double :=
  match cs.map Char.toLower with
  | ['n', 'a', 'n'] => some .nan
  | ['i', 'n', 'f'] | ['i', 'n', 'f', 'i', 'n', 'i', 't', 'y'] => some (.infinite negative)
  | _ => (Numeral.ofText? cs).map (·.toDouble negative)

def ofText? : List Char → Option Double
  | '-' :: cs => unsigned? true cs
  | '+' :: cs => unsigned? false cs
  | cs => unsigned? false cs

end Readback.Double
