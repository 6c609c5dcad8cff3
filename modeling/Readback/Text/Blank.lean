namespace Readback.Text

-- The characters with the Unicode property `White_Space`.
def isBlank (c : Char) : Bool :=
  let n := c.toNat
  (9 ≤ n && n ≤ 13) || n == 0x20 || n == 0x85 || n == 0xA0 || n == 0x1680 ||
  (0x2000 ≤ n && n ≤ 0x200A) || n == 0x2028 || n == 0x2029 || n == 0x202F || n == 0x205F ||
  n == 0x3000

def isAsciiBlank (c : Char) : Bool :=
  c == ' ' || c == '\t' || c == '\n' || c == '\x0c' || c == '\r'

def trim (cs : List Char) : List Char :=
  (((cs.dropWhile isBlank).reverse).dropWhile isBlank).reverse

def sameLetters (s t : String) : Bool :=
  s.toList.map Char.toLower == t.toList.map Char.toLower

def stripStart? (head s : String) : Option String :=
  let n := head.toList.length
  let cs := s.toList
  if sameLetters (String.ofList (cs.take n)) head then some (String.ofList (cs.drop n)) else none

def parts (separator : Char) (s : String) : List String :=
  let rec go (part : List Char) : List Char → List String
    | [] => [String.ofList part.reverse]
    | c :: cs =>
      if c == separator then String.ofList part.reverse :: go [] cs else go (c :: part) cs
  go [] s.toList

def joinWith (separator : String) : List String → String
  | [] => ""
  | [s] => s
  | s :: t :: rest => s ++ separator ++ joinWith separator (t :: rest)

@[simp] theorem joinWith_singleton (sep s : String) : joinWith sep [s] = s := rfl

end Readback.Text
