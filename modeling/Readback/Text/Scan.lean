import Readback.Text.Digits

namespace Readback

abbrev Scan := StateT (List Char) Option

namespace Scan

def all? (p : Scan α) (cs : List Char) : Option α :=
  match p cs with
  | some (a, []) => some a
  | _ => none

def next : Scan Char
  | [] => none
  | c :: cs => some (c, cs)

def peek : Scan (Option Char) :=
  fun cs => some (cs.head?, cs)

def satisfying (p : Char → Bool) : Scan Char
  | [] => none
  | c :: cs => if p c then some (c, cs) else none

def char (c : Char) : Scan Unit :=
  discard (satisfying (· == c))

def word (s : List Char) : Scan Unit :=
  fun cs => if cs.take s.length == s then some ((), cs.drop s.length) else none

def takeWhile (p : Char → Bool) : Scan (List Char) :=
  fun cs => some (cs.span p)

def run (p : Char → Bool) : Scan (List Char) := do
  let cs ← takeWhile p
  if cs.isEmpty then failure else return cs

def skipWhile (p : Char → Bool) : Scan Unit :=
  fun cs => some ((), cs.dropWhile p)

def exactly (n : Nat) (p : Char → Bool) : Scan (List Char) :=
  fun cs =>
    let taken := cs.take n
    if taken.length == n && taken.all p then some (taken, cs.drop n) else none

def optional (p : Scan α) : Scan (Option α) :=
  (some <$> p) <|> pure none

-- Repeats `p` as long as it succeeds and takes something.
def repeated (p : Scan α) (cs : List Char) : List α × List Char :=
  match p cs with
  | none => ([], cs)
  | some (a, rest) =>
    if rest.length < cs.length then
      let (as, rest) := repeated p rest
      (a :: as, rest)
    else ([], cs)
termination_by cs.length

def many (p : Scan α) : Scan (List α) :=
  fun cs => some (repeated p cs)

def atEnd : Scan Unit
  | [] => some ((), [])
  | _ => none

def ofOption (a : Option α) : Scan α :=
  fun cs => a.map (·, cs)

end Scan
end Readback
