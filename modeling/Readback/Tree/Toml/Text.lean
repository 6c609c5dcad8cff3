import Readback.Text.Scan

namespace Readback.Tree.Toml

open Text

def isSpace (c : Char) : Bool := c == ' ' || c == '\t'

-- The characters that may stand in a comment or unescaped in a text: tabs and all others that do
-- not control.
def isVisible (c : Char) : Bool :=
  c == '\t' || (0x20 ≤ c.toNat && c.toNat != 0x7F)

def spaces : Scan Unit := Scan.skipWhile isSpace

def newline : Scan Unit :=
  (Scan.char '\n') <|> Scan.word ['\r', '\n']

def comment : Scan Unit := do
  Scan.char '#'
  Scan.skipWhile isVisible

def endOfLine : Scan Unit := do
  spaces
  discard (Scan.optional comment)
  newline <|> Scan.atEnd

def gap : Scan Unit :=
  discard (Scan.many ((discard (Scan.satisfying isSpace)) <|> newline <|> comment))

def codePoint (width : Nat) : Scan Char := do
  let n := valueIn 16 (← Scan.exactly width isHexDigit)
  if h : n.isValidChar then return Char.ofNatAux n h else failure

def escape : Scan Char := do
  match ← Scan.next with
  | 'b' => return '\x08'
  | 't' => return '\t'
  | 'n' => return '\n'
  | 'f' => return '\x0c'
  | 'r' => return '\r'
  | '"' => return '"'
  | '\\' => return '\\'
  | 'u' => codePoint 4
  | 'U' => codePoint 8
  | _ => failure

def escapable : Scan Char :=
  (do
    Scan.char '\\'
    escape) <|> Scan.satisfying fun c => isVisible c && c != '"' && c != '\\'

def isLiteral (c : Char) : Bool := isVisible c && c != '\''

def line : Scan (List Char) :=
  (do
    Scan.char '"'
    let cs ← Scan.many escapable
    Scan.char '"'
    return cs) <|> do
  Scan.char '\''
  let cs ← Scan.takeWhile isLiteral
  Scan.char '\''
  return cs

def continuation : Scan Unit := do
  Scan.char '\\'
  spaces
  newline
  discard (Scan.many ((discard (Scan.satisfying isSpace)) <|> newline))

def innerQuotes (quote : Char) : Scan (List Char) := do
  let cs ← Scan.run (· == quote)
  if cs.length < 3 then return cs else failure

-- The end of a text of several lines: three quotes, with up to two more that belong to it.
def closingQuotes (quote : Char) : Scan (List Char) := do
  let cs ← Scan.run (· == quote)
  if 3 ≤ cs.length ∧ cs.length ≤ 5 then return cs.drop 3 else failure

-- A text of several lines. A line end right after the opening quotes is dropped, and all others
-- are line feeds.
def lines (quote : Char) (content : Scan (List Char)) : Scan (List Char) := do
  Scan.word [quote, quote, quote]
  discard (Scan.optional newline)
  let body ← Scan.many (content <|> innerQuotes quote)
  return body.flatten ++ (← closingQuotes quote)

def lineFeed : Scan (List Char) := do
  newline
  return ['\n']

def text : Scan String := do
  let escaped : Scan (List Char) :=
    (do continuation; return []) <|> ((fun c => [c]) <$> escapable) <|> lineFeed
  let cs ← lines '"' escaped <|> lines '\'' (Scan.run isLiteral <|> lineFeed) <|> line
  return String.ofList cs

def isBare (c : Char) : Bool :=
  isDigit c || ('a' ≤ c && c ≤ 'z') || ('A' ≤ c && c ≤ 'Z') || c == '_' || c == '-'

def simpleKey : Scan String :=
  String.ofList <$> (line <|> Scan.run isBare)

def nesting : Nat := 79

def key : Scan (List String) := do
  let part : Scan String := do
    spaces
    let k ← simpleKey
    spaces
    return k
  let first ← part
  let others ← Scan.many do
    Scan.char '.'
    part
  if others.length < nesting then return first :: others else failure

end Readback.Tree.Toml
