import Readback.Value.Basic

namespace Readback.Value

open Text

mutual

-- The text of a value in a diagnostic. Doubles keep their point, so that `5.0` and `5` read
-- differently; a text stands between single quotes, as it is.
def render : Value → List Char
  | int n => ofInteger n.toInt
  | float x => x.text
  | text s => '\'' :: s.toList ++ ['\'']
  | array items => '[' :: renderItems items ++ [']']

def renderItems : List Value → List Char
  | [] => []
  | [a] => a.render
  | a :: b :: rest => a.render ++ [',', ' '] ++ renderItems (b :: rest)

end

def toText (v : Value) : String :=
  String.ofList v.render

def textOf (v : Option Value) : String :=
  (v.map toText).getD "None"

def listText (vs : List Value) : String :=
  (array vs).toText

end Readback.Value
