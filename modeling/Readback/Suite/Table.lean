import Readback.Suite.Case
import Readback.Tree.Json.Reader
import Readback.Tree.Json.Writer
import Readback.Tree.Toml.Reader

namespace Readback

inductive TableError where
  | toml
  | json
  | duplicateCase (name : String)
deriving DecidableEq

def TableError.message : TableError → String
  | toml => "Invalid TOML case table"
  | json => "Invalid JSON case table"
  | duplicateCase name => "Duplicate case name: '" ++ name ++ "'"

inductive TableFormat where
  | toml
  | json
deriving DecidableEq

namespace Case

def firstRepeated (seen : List String) : List Case → Option String
  | [] => none
  | c :: cs => if c.name ∈ seen then some c.name else firstRepeated (c.name :: seen) cs

def unique (cs : List Case) : Except TableError (List Case) :=
  match firstRepeated [] cs with
  | some name => .error (.duplicateCase name)
  | none => .ok cs

def ofList? : Tree → Option (List Case)
  | .list items => items.mapM ofTree?
  | _ => none

-- A case whose fields are written as a list, without what stands after them.
def cut : Tree → Tree
  | .list items => .list (items.take keys.length)
  | t => t

-- The cases under the key `case`; there may be none. What stands after the fields of one is
-- ignored.
def ofTable? : Tree → Option (List Case)
  | .object members => do
    match ← Tree.member? members "case" with
    | none => return []
    | some (.list items) => items.mapM fun t => ofTree? (cut t)
    | some _ => none
  | _ => none

def parse? : TableFormat → String → Option (List Case)
  | .toml, text => (Tree.Toml.read? text).bind ofTable?
  | .json, text => (Tree.Json.read? text).bind ofList?

def malformed : TableFormat → TableError
  | .toml => .toml
  | .json => .json

def read (format : TableFormat) (text : String) : Except TableError (List Case) :=
  match parse? format text with
  | none => .error (malformed format)
  | some cs => unique cs

def writeJson (cs : List Case) : String :=
  Tree.Json.compactText (.list (cs.map toTree))

end Case
end Readback
