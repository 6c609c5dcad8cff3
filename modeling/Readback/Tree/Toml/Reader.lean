import Readback.Tree.Toml.Node
import Readback.Tree.Toml.Scalar
import Readback.Tree.Toml.Text

namespace Readback.Tree.Toml

def items (value : Scan Tree) : Scan Tree := do
  let item : Scan Tree := do
    gap
    let t ← value
    gap
    return t
  Scan.char '['
  let first ← Scan.optional item
  let others ← match first with
    | none => pure []
    | some _ => Scan.many do
      Scan.char ','
      item
  if first.isSome then discard (Scan.optional (Scan.char ','))
  gap
  Scan.char ']'
  return .list (first.toList ++ others)

def entry (value : Scan Tree) : Scan (List String × Tree) := do
  let k ← key
  Scan.char '='
  spaces
  return (k, ← value)

def inlineTable (value : Scan Tree) : Scan Tree := do
  let spaced : Scan (List String × Tree) := do
    let e ← entry value
    spaces
    return e
  Scan.char '\x7b'
  let first ← Scan.optional spaced
  let others ← match first with
    | none => pure []
    | some _ => Scan.many do
      Scan.char ','
      spaced
  spaces
  Scan.char '\x7d'
  Scan.ofOption ((Node.empty.insertAll (first.toList ++ others)).map Node.toTree)

def value : Nat → Scan Tree
  | 0 => Tree.text <$> text <|> plain
  | depth + 1 => Tree.text <$> text <|> plain <|> items (value depth) <|> inlineTable (value depth)

inductive Line where
  | blank
  | table (path : List String)
  | tables (path : List String)
  | entry (key : List String) (t : Tree)

def header : Scan Line := do
  Scan.char '['
  match ← Scan.peek with
  | some '[' =>
    Scan.char '['
    let k ← key
    Scan.word [']', ']']
    return .tables k
  | _ =>
    let k ← key
    Scan.char ']'
    return .table k

def documentLine : Scan Line := do
  spaces
  let l ← header <|> (do
    let e ← entry (value nesting)
    return .entry e.1 e.2) <|> pure .blank
  endOfLine
  return l

-- A document read down to some line: all its tables but the current one, the path of that, and
-- whether it is a row of a list of tables.
structure Document where
  root : Node
  current : Node
  path : List String
  isRow : Bool

namespace Document

def empty : Document := ⟨.empty, .empty, [], false⟩

def finish (d : Document) : Option Node :=
  match d.path.getLast? with
  | none => some d.current
  | some key =>
    d.root.update false (fun
      | .table implicit dotted entries =>
        if d.isRow then
          match entries.lookup key with
          | none => some (.table implicit dotted (Node.put key (.tables [d.current]) entries))
          | some (.tables rows) =>
            some (.table implicit dotted (Node.put key (.tables (d.current :: rows)) entries))
          | some _ => none
        else some (.table implicit dotted (Node.put key d.current entries))
      | _ => none) d.path.dropLast

-- What the name of a table stands for before the table begins; all tables on the way to it are
-- made.
def announce (d : Document) (path : List String) : Option (Node × Option Node) := do
  let root ← (← d.finish).update false some path.dropLast
  let parent ← root.find? path.dropLast
  return (root, parent.entry? (← path.getLast?))

-- Begins a table. It may have been implied by tables inside it, but not named before.
def startTable (d : Document) (path : List String) : Option Document := do
  let (root, present) ← d.announce path
  match present with
  | none => return { root, current := .empty, path, isRow := false }
  | some (.table true false entries) =>
    return { root, current := .table false false entries, path, isRow := false }
  | some _ => none

-- Begins a row of a list of tables. Its name may stand for nothing but that list.
def startRow (d : Document) (path : List String) : Option Document := do
  let (root, present) ← d.announce path
  match present with
  | none | some (.tables _) => return { root, current := .empty, path, isRow := true }
  | some _ => none

def add (d : Document) : Line → Option Document
  | .blank => some d
  | .table path => d.startTable path
  | .tables path => d.startRow path
  | .entry key t => do
    let last ← key.getLast?
    return { d with current := ← d.current.insert key.dropLast last t }

end Document

def read? (s : String) : Option Tree := do
  let cs := match s.toList with
    | '\ufeff' :: cs => cs
    | cs => cs
  let ls ← Scan.all? (Scan.many documentLine) cs
  let d ← ls.foldlM Document.add .empty
  return (← d.finish).toTree

end Readback.Tree.Toml
