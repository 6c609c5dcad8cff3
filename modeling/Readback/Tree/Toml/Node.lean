import Readback.Tree.Basic

namespace Readback.Tree.Toml

-- A table while it is being filled. It is implicit as long as only tables inside it have been
-- named, and dotted if a key with points has made it. The tables of a list stand last first.
inductive Node where
  | value (t : Tree)
  | table (implicit dotted : Bool) (entries : List (String × Node))
  | tables (rows : List Node)

namespace Node

def empty : Node := .table false false []

mutual

def toTree : Node → Tree
  | .value t => t
  | .table _ _ entries => .object (entriesToTree entries)
  | .tables rows => .list (rowsToTree rows).reverse

def entriesToTree : List (String × Node) → List (String × Tree)
  | [] => []
  | (key, n) :: entries => (key, n.toTree) :: entriesToTree entries

def rowsToTree : List Node → List Tree
  | [] => []
  | n :: rows => n.toTree :: rowsToTree rows

end

def put (key : String) (n : Node) : List (String × Node) → List (String × Node)
  | [] => [(key, n)]
  | e :: entries => if e.1 == key then (key, n) :: entries else e :: put key n entries

def latest : Node → Node
  | .tables (last :: _) => last
  | n => n

def entry? (key : String) : Node → Option Node
  | .table _ _ entries => entries.lookup key
  | _ => none

def find? : List String → Node → Option Node
  | [], n => some n
  | key :: path, n => (n.entry? key).bind fun child => find? path child.latest

-- Changes the table at the end of a path. Tables on the way that are missing are made, as dotted
-- ones where the path is a key with points; and such a key passes through no table that has been
-- named.
def update (dotted : Bool) (change : Node → Option Node) : List String → Node → Option Node
  | [], n => change n
  | key :: path, .table implicit isDotted entries => do
    let child := (entries.lookup key).getD (.table true dotted [])
    let child ← match child with
      | .value _ => none
      | .tables [] => none
      | .tables (last :: earlier) =>
        (update dotted change path last).map fun n => .tables (n :: earlier)
      | .table true _ _ => update dotted change path child
      | .table false _ _ => if dotted then none else update dotted change path child
    return .table implicit isDotted (put key child entries)
  | _ :: _, _ => none

-- Adds a value under a key with points, whose last part is given apart. A table takes values
-- either through keys with points or otherwise, but not both, and a key only once.
def insert (path : List String) (key : String) (t : Tree) : Node → Option Node :=
  update true (fun
    | .table implicit dotted entries =>
      if dotted == path.isEmpty || (entries.lookup key).isSome then none
      else some (.table implicit dotted (entries ++ [(key, .value t)]))
    | _ => none) path

def insertAll (n : Node) (entries : List (List String × Tree)) : Option Node :=
  entries.foldlM (fun n e => do
    let key ← e.1.getLast?
    n.insert e.1.dropLast key e.2) n

end Node
end Readback.Tree.Toml
