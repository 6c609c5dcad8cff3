import Readback.Text.Digits

namespace Readback

-- A length of time in nanoseconds.
abbrev Span := Nat

namespace Span

def second : Span := 1000000000

def ofMillis (n : Nat) : Span := n * 1000000

def ofSeconds (n : Nat) : Span := n * second

-- Seconds are counted in 64 bits.
def Representable (s : Span) : Prop := s < UInt64.size * second

instance (s : Span) : Decidable s.Representable := inferInstanceAs (Decidable (_ < _))

open Text

-- A quotient in decimal, without trailing zeros. The divisor is a power of ten with `places`
-- zeros.
def quotient (places : Nat) (n : Nat) : List Char :=
  let unit := Nat.pow 10 places
  let fraction := ((padded places (n % unit)).reverse.dropWhile (· == '0')).reverse
  digits (n / unit) ++ if n % unit = 0 then [] else '.' :: fraction

def brief (s : Span) : List Char :=
  if second ≤ s then quotient 9 s ++ ['s']
  else if 1000000 ≤ s then quotient 6 s ++ ['m', 's']
  else if 1000 ≤ s then quotient 3 s ++ ['µ', 's']
  else digits s ++ ['n', 's']

end Span
end Readback
