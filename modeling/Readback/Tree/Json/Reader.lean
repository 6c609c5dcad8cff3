import Readback.Tree.Json.Token

namespace Readback.Tree.Json

def nesting : Nat := 127

-- A list or an object that is not closed yet; what it holds so far, last first.
inductive Frame where
  | list (items : List Tree)
  | object (members : List (Option String × Tree))
  | member (members : List (Option String × Tree)) (key : Option String)

inductive Step where
  -- A value, or the end of a list that has just been opened.
  | value (opened : Bool) (frames : List Frame)
  -- The key of a member, or the end of an object that has just been opened.
  | key (opened : Bool) (members : List (Option String × Tree)) (frames : List Frame)
  | colon (key : Option String) (members : List (Option String × Tree)) (frames : List Frame)
  -- A comma, or the end of the innermost list or object.
  | next (frames : List Frame)
  | done (t : Tree)

def Step.deliver (t : Tree) : List Frame → Option Step
  | [] => some (.done t)
  | .list items :: frames => some (.next (.list (t :: items) :: frames))
  | .member members k :: frames => some (.next (.object ((k, t) :: members) :: frames))
  | .object _ :: _ => none

-- A list or object is complete. One that is nested too deeply cannot be read.
def Step.close (t : Tree) (frames : List Frame) : Option Step :=
  deliver (if frames.length < nesting then t else .unreadable) frames

def ofMembers (reversed : List (Option String × Tree)) : Tree :=
  match reversed.reverse.mapM fun m => m.1.map fun key => (key, m.2) with
  | some members => .object members
  | none => .unreadable

def Step.advance : Step → Token → Option Step
  | .value _ frames, .scalar t => deliver t frames
  | .value _ frames, .string s => deliver ((s.map Tree.text).getD .unreadable) frames
  | .value _ frames, .openList => some (.value true (.list [] :: frames))
  | .value _ frames, .openObject => some (.key true [] frames)
  | .value true (.list items :: frames), .closeList => close (.list items.reverse) frames
  | .key _ members frames, .string s => some (.colon s members frames)
  | .key true members frames, .closeObject => close (ofMembers members) frames
  | .colon k members frames, .colon => some (.value false (.member members k :: frames))
  | .next (.list items :: frames), .comma => some (.value false (.list items :: frames))
  | .next (.list items :: frames), .closeList => close (.list items.reverse) frames
  | .next (.object members :: frames), .comma => some (.key false members frames)
  | .next (.object members :: frames), .closeObject => close (ofMembers members) frames
  | _, _ => none

def read? (s : String) : Option Tree := do
  match ← (← tokens? s.toList).foldlM Step.advance (.value false []) with
  | .done t => some t
  | _ => none

end Readback.Tree.Json
