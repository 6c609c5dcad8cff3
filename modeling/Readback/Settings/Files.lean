import Readback.Text.Blank

namespace Readback

-- Files by their places, and the directory in which one works. A place is given by the names that
-- lead to it from the root.
structure Files where
  working : List String
  contents : List (List String × String)

namespace Files

def names (path : String) : List String :=
  Text.parts '/' path

def origin (directory : List String) (path : String) : List String :=
  if path.toList.head? == some '/' then [] else directory

def step (place : List String) (name : String) : List String :=
  if name = "" ∨ name = "." then place
  else if name = ".." then place.dropLast
  else place ++ [name]

def place (directory : List String) (path : String) : List String :=
  (names path).foldl step (origin directory path)

def isDirectory (f : Files) (place : List String) : Bool :=
  place.isPrefixOf f.working || f.contents.any fun e => place.isPrefixOf e.1.dropLast

def follow? (f : Files) (place : List String) : List String → Option (List String)
  | [] => some place
  | name :: rest => if f.isDirectory place then f.follow? (step place name) rest else none

def upwards (directory : List String) : List (List String) :=
  (List.range (directory.length + 1)).map fun n => directory.take (directory.length - n)

-- The file to which a path leads from the directory in which one works, or else from the nearest
-- one above it.
def find? (f : Files) (path : String) : Option String :=
  (upwards f.working).findSome? fun directory =>
    (f.follow? (origin directory path) (names path)).bind fun place => f.contents.lookup place

end Files
end Readback
