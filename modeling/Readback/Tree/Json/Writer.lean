import Readback.Tree.Basic

namespace Readback.Tree.Json

open Text

def hexDigits (n : Nat) : List Char :=
  let ds := Nat.toDigits 16 n
  List.replicate (4 - ds.length) '0' ++ ds

-- A character inside a string. Only quotes, backslashes and control characters are escaped.
def escape (c : Char) : List Char :=
  if c == '"' then ['\\', '"']
  else if c == '\\' then ['\\', '\\']
  else if c == '\x08' then ['\\', 'b']
  else if c == '\t' then ['\\', 't']
  else if c == '\n' then ['\\', 'n']
  else if c == '\x0c' then ['\\', 'f']
  else if c == '\r' then ['\\', 'r']
  else if c.toNat < 0x20 then ['\\', 'u'] ++ hexDigits c.toNat
  else [c]

def quoted (s : String) : List Char :=
  '"' :: s.toList.flatMap escape ++ ['"']

-- What has no parts. A double that is not finite has no text of its own.
def scalar : Tree → List Char
  | bool true => ['t', 'r', 'u', 'e']
  | bool false => ['f', 'a', 'l', 's', 'e']
  | integer n => ofInteger n
  | float x => (Double.Form.json.write? x).getD ['n', 'u', 'l', 'l']
  | text s => quoted s
  | moment s => quoted s
  | _ => ['n', 'u', 'l', 'l']

mutual

def compact : Tree → List Char
  | list items => '[' :: compactItems items ++ [']']
  | object members => '\x7b' :: compactMembers members ++ ['\x7d']
  | t => scalar t

def compactItems : List Tree → List Char
  | [] => []
  | [t] => compact t
  | t :: u :: rest => compact t ++ ',' :: compactItems (u :: rest)

def compactMembers : List (String × Tree) → List Char
  | [] => []
  | [(key, t)] => quoted key ++ ':' :: compact t
  | (key, t) :: m :: rest => quoted key ++ ':' :: compact t ++ ',' :: compactMembers (m :: rest)

end

def newline (indent : Nat) : List Char :=
  '\n' :: List.replicate (2 * indent) ' '

mutual

def pretty (indent : Nat) : Tree → List Char
  | list [] => ['[', ']']
  | list (t :: ts) =>
    '[' :: newline (indent + 1) ++ prettyItems (indent + 1) (t :: ts) ++ newline indent ++ [']']
  | object [] => ['\x7b', '\x7d']
  | object (m :: ms) =>
    '\x7b' :: newline (indent + 1) ++ prettyMembers (indent + 1) (m :: ms) ++ newline indent ++
      ['\x7d']
  | t => scalar t

def prettyItems (indent : Nat) : List Tree → List Char
  | [] => []
  | [t] => pretty indent t
  | t :: u :: rest => pretty indent t ++ ',' :: newline indent ++ prettyItems indent (u :: rest)

def prettyMembers (indent : Nat) : List (String × Tree) → List Char
  | [] => []
  | [(key, t)] => quoted key ++ ':' :: ' ' :: pretty indent t
  | (key, t) :: m :: rest =>
    quoted key ++ ':' :: ' ' :: pretty indent t ++ ',' :: newline indent ++
      prettyMembers indent (m :: rest)

end

def compactText (t : Tree) : String :=
  String.ofList (compact t)

def prettyText (t : Tree) : String :=
  String.ofList (pretty 0 t)

end Readback.Tree.Json
