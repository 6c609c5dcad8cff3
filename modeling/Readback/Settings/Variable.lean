import Readback.Text.Blank
import Readback.Text.Scan
import Readback.Tree.Basic

namespace Readback.Settings.Variable

open Text

def isSeparator (c : Char) : Bool :=
  c == ',' || c == '\x7b' || c == '\x7d' || c == '[' || c == ']'

def blanks : Scan Unit := Scan.skipWhile isAsciiBlank

def surrounded (p : Scan α) : Scan α := do
  blanks
  let a ← p
  blanks
  return a

def hexadecimal (width : Nat) : Scan Char := do
  let n := valueIn 16 (← Scan.exactly width isHexDigit)
  if h : n.isValidChar then return Char.ofNatAux n h else failure

def escape : Scan Char := do
  match ← Scan.next with
  | 'b' => return '\x08'
  | 't' => return '\t'
  | 'n' => return '\n'
  | 'f' => return '\x0c'
  | 'r' => return '\r'
  | '"' => return '"'
  | '\\' => return '\\'
  | 'u' => hexadecimal 4
  | 'U' => hexadecimal 8
  | _ => failure

def isOrdinary (c : Char) : Bool :=
  c != '"' && c != '\\' && (c == '\t' || (0x20 ≤ c.toNat && c.toNat != 0x7F))

def within : Nat → List Char → List Char
  | _, [] => []
  | n, c :: cs => if c.utf8Size ≤ n then c :: within (n - c.utf8Size) cs else []

-- A text between double quotes. Of what stands before its first escape only as many bytes count as
-- there are characters, so nothing is lost if they are all ASCII.
def quoted : Scan String := do
  Scan.char '"'
  let before ← Scan.takeWhile isOrdinary
  let fromEscape ← Scan.many <|
    (do
      Scan.char '\\'
      escape) <|>
    Scan.satisfying isOrdinary
  Scan.char '"'
  return String.ofList <|
    if fromEscape.isEmpty then before else within before.length before ++ fromEscape

def isKeyChar (c : Char) : Bool :=
  isDigit c || ('a' ≤ c && c ≤ 'z') || ('A' ≤ c && c ≤ 'Z') || c == '_' || c == '-'

def key : Scan String :=
  quoted <|> String.ofList <$> Scan.run isKeyChar

-- What stands without quotes: a number if it looks like one that fits 64 bits or has a point,
-- and a text otherwise.
def bare (cs : List Char) : Tree :=
  let number : Option Tree :=
    if cs.contains '.' then (Double.ofText? cs).map .float else none
  let integer : Option Tree := (Text.integer? cs).bind fun n =>
    if (cs.head? != some '-' && n < UInt64.size) ||
        (Int64.minValue.toInt ≤ n && n ≤ Int64.maxValue.toInt) then some (.integer n)
    else none
  (number.or integer).getD (.text (String.ofList cs))

def bracketed (opening closing : Char) (item : Scan α) : Scan (List α) := do
  Scan.char opening
  (do
    Scan.char closing
    return []) <|> do
  let first ← item
  let others ← Scan.many do
    Scan.char ','
    item
  discard (Scan.optional (Scan.char ','))
  Scan.char closing
  return first :: others

def value : Nat → Scan Tree
  | 0 => failure
  | depth + 1 => surrounded do
    match ← Scan.peek with
    | some '\x7b' =>
      Tree.object <$> bracketed '\x7b' '\x7d' do
        let k ← surrounded key
        Scan.char '='
        return (k, ← surrounded (value depth))
    | some '[' => Tree.list <$> bracketed '[' ']' (value depth)
    | some '"' => Tree.text <$> quoted
    | some '\'' =>
      Scan.char '\''
      let c ← Scan.next
      Scan.char '\''
      return .text (String.ofList [c])
    | _ =>
      (do
        Scan.word ['t', 'r', 'u', 'e']
        return .bool true) <|>
      (do
        Scan.word ['f', 'a', 'l', 's', 'e']
        return .bool false) <|> do
      let cs ← Scan.takeWhile fun c => !isSeparator c
      return bare (trim cs)

-- The value of an environment variable. What does not read as one is a text as it stands.
def read (s : String) : Tree :=
  (Scan.all? (value (s.toList.length + 1)) s.toList).getD (.text s)

end Readback.Settings.Variable
