import Readback.Double.Stepwise
import Readback.Tree.Basic

namespace Readback.Tree.Json

open Text

-- The words of JSON. A string without a text has an escape that stands for no character.
inductive Token where
  | openList
  | closeList
  | openObject
  | closeObject
  | comma
  | colon
  | string (s : Option String)
  | scalar (t : Tree)

-- A number. An integer below `2 ^ 64` stays one, but minus zero and what lies beyond becomes a
-- double, as does everything with a point or an exponent; doubles are read stepwise. There is
-- nothing to be read beyond all doubles.
def number? (cs : List Char) : Option Tree :=
  let (negative, cs) := match cs with
    | '-' :: cs => (true, cs)
    | cs => (false, cs)
  let (whole, rest) := cs.span isDigit
  let float (fraction : List Char) (exponent : Int) : Tree :=
    ((Double.Numeral.stepwise? negative { whole, fraction, exponent }).map .float).getD .unreadable
  if whole.isEmpty || (whole.head? == some '0' && whole.length != 1) then none
  else
    match rest with
    | [] =>
      let (n, left) := Double.append 0 whole
      if !left.isEmpty then some (float [] 0)
      else if !negative then some (.integer n)
      else if n ≠ 0 ∧ n ≤ Nat.pow 2 63 then some (.integer (-n))
      else some (float [] 0)
    | '.' :: rest =>
      let (fraction, rest) := rest.span isDigit
      if fraction.isEmpty then none else (Double.exponent? rest).map (float fraction)
    | rest => (Double.exponent? rest).map (float [])

def word? : List Char → Option Tree
  | ['n', 'u', 'l', 'l'] => some .null
  | ['t', 'r', 'u', 'e'] => some (.bool true)
  | ['f', 'a', 'l', 's', 'e'] => some (.bool false)
  | _ => none

inductive Piece where
  | char (c : Char)
  | unit (n : Nat)

def escaped? : Char → Option Char
  | '"' => some '"'
  | '\\' => some '\\'
  | '/' => some '/'
  | 'b' => some '\x08'
  | 'f' => some '\x0c'
  | 'n' => some '\n'
  | 'r' => some '\r'
  | 't' => some '\t'
  | _ => none

def pieces? : List Char → Option (List Piece)
  | [] => some []
  | '\\' :: 'u' :: a :: b :: c :: d :: cs =>
    if [a, b, c, d].all isHexDigit then
      (pieces? cs).map (.unit (valueIn 16 [a, b, c, d]) :: ·)
    else none
  | '\\' :: e :: cs => (escaped? e).bind fun c => (pieces? cs).map (.char c :: ·)
  | c :: cs => if c == '\\' || c.toNat < 0x20 then none else (pieces? cs).map (.char c :: ·)

-- Joins pieces to characters. Units in the ranges of surrogates count only in pairs.
def join? : List Piece → Option (List Char)
  | [] => some []
  | .char c :: ps => (join? ps).map (c :: ·)
  | .unit n :: ps =>
    if 0xD800 ≤ n ∧ n < 0xDC00 then
      match ps with
      | .unit m :: ps =>
        if 0xDC00 ≤ m ∧ m < 0xE000 then
          (join? ps).map (Char.ofNat (0x10000 + (n - 0xD800) * 0x400 + (m - 0xDC00)) :: ·)
        else none
      | _ => none
    else if 0xDC00 ≤ n ∧ n < 0xE000 then none
    else (join? ps).map (Char.ofNat n :: ·)

def string? (reversed : List Char) : Option Token :=
  (pieces? reversed.reverse).map fun ps => .string ((join? ps).map String.ofList)

inductive Place where
  | between
  | word (reversed : List Char)
  | number (reversed : List Char)
  | string (escape : Bool) (reversed : List Char)

def isNumberChar (c : Char) : Bool :=
  isDigit c || c == '-' || c == '+' || c == '.' || c == 'e' || c == 'E'

def start (c : Char) : Option (List Token × Place) :=
  if c == ' ' || c == '\t' || c == '\n' || c == '\r' then some ([], .between)
  else if c == '[' then some ([.openList], .between)
  else if c == ']' then some ([.closeList], .between)
  else if c == '\x7b' then some ([.openObject], .between)
  else if c == '\x7d' then some ([.closeObject], .between)
  else if c == ',' then some ([.comma], .between)
  else if c == ':' then some ([.colon], .between)
  else if c == '"' then some ([], .string false [])
  else if c == '-' || isDigit c then some ([], .number [c])
  else if c.isLower then some ([], .word [c])
  else none

def advance : Place → Char → Option (List Token × Place)
  | .between, c => start c
  | .word cs, c =>
    if c.isLower then some ([], .word (c :: cs))
    else do
      let t ← word? cs.reverse
      let (ts, place) ← start c
      return (.scalar t :: ts, place)
  | .number cs, c =>
    if isNumberChar c then some ([], .number (c :: cs))
    else do
      let t ← number? cs.reverse
      let (ts, place) ← start c
      return (.scalar t :: ts, place)
  | .string true cs, c => some ([], .string false (c :: cs))
  | .string false cs, c =>
    if c == '"' then (string? cs).map fun t => ([t], .between)
    else some ([], .string (c == '\\') (c :: cs))

def tokensFrom : Place → List Char → Option (List Token)
  | .between, [] => some []
  | .word cs, [] => (word? cs.reverse).map ([.scalar ·])
  | .number cs, [] => (number? cs.reverse).map ([.scalar ·])
  | .string .., [] => none
  | place, c :: cs => do
    let (ts, place) ← advance place c
    return ts ++ (← tokensFrom place cs)

def tokens? (cs : List Char) : Option (List Token) :=
  tokensFrom .between cs

end Readback.Tree.Json
