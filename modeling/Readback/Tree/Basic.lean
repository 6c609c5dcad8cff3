import Readback.Value.Basic

namespace Readback

-- Data without a schema, as it stands in a text. The members of an object keep their order and may
-- repeat a key. Something `unreadable` is well formed but has no meaning, such as a number beyond
-- all doubles: it does no harm where nobody looks at it.
inductive Tree where
  | null
  | bool (b : Bool)
  | integer (n : Int)
  | float (x : Double)
  | text (s : String)
  | moment (s : String)
  | list (items : List Tree)
  | object (members : List (String × Tree))
  | unreadable

namespace Tree

mutual

def readable : Tree → Bool
  | unreadable => false
  | list items => readableItems items
  | object members => readableMembers members
  | _ => true

def readableItems : List Tree → Bool
  | [] => true
  | t :: ts => t.readable && readableItems ts

def readableMembers : List (String × Tree) → Bool
  | [] => true
  | (_, t) :: ms => t.readable && readableMembers ms

end

def text? : Tree → Option String
  | text s => some s
  | _ => none

-- The member of an object with a key. A key that occurs twice is an error.
def member? (members : List (String × Tree)) (key : String) : Option (Option Tree) :=
  match members.filter fun m => m.1 == key with
  | [] => some none
  | [m] => some (some m.2)
  | _ => none

-- The fields of a record in the order of their names: from an object by name, other members being
-- ignored, or from a list by place, where the last ones may be missing.
def fields? (names : List String) : Tree → Option (List (Option Tree))
  | object members => names.mapM (member? members)
  | list items =>
    if items.length ≤ names.length then
      some (items.map some ++ List.replicate (names.length - items.length) none)
    else none
  | _ => none

-- Splits off the name of a variant: the member `tag` of an object, or the head of a list.
def variant? (tag : String) : Tree → Option (String × Tree)
  | object members => do
    let name ← ← member? members tag
    return (← name.text?, object (members.filter fun m => m.1 != tag))
  | list (text name :: items) => some (name, list items)
  | _ => none

-- The name of a choice without contents: a text, or an object with that one key and nothing in
-- it.
def choice? (isNothing : Tree → Bool) : Tree → Option String
  | text s => some s
  | object [(name, contents)] => if isNothing contents then some name else none
  | _ => none

def isNull : Tree → Bool
  | null => true
  | _ => false

def isNullOrEmpty : Tree → Bool
  | null | object [] => true
  | _ => false

end Tree
end Readback
