import Readback.Tree.Meaning

namespace Readback

inductive Expectation where
  | equals (value : Value)
  | number (value tolerance : Double)
  | oneOf (values : List Value)
  | integerInRange (least greatest : Int64)
  | alarm (severity : Severity)

namespace Expectation

def toTree : Expectation → Tree
  | equals v => .object [("kind", .text "equals"), ("value", v.toTree)]
  | number x tolerance =>
    .object [("kind", .text "number"), ("value", .float x), ("tolerance", .float tolerance)]
  | oneOf vs => .object [("kind", .text "one_of"), ("values", .list (Value.toTrees vs))]
  | integerInRange least greatest =>
    .object [("kind", .text "integer_in_range"), ("min", .integer least.toInt),
      ("max", .integer greatest.toInt)]
  | alarm severity => .object [("kind", .text "alarm"), ("severity", severity.toTree)]

def values? : Tree → Option (List Value)
  | .list items => Value.ofTrees? items
  | _ => none

-- An expectation is read as a whole, so all parts of it need a meaning.
def ofTree? (t : Tree) : Option Expectation := do
  if !t.readable then none
  let (kind, contents) ← t.variant? "kind"
  match kind with
  | "equals" =>
    match ← contents.fields? ["value"] with
    | [some value] => return equals (← Value.ofTree? value)
    | _ => none
  | "number" =>
    match ← contents.fields? ["value", "tolerance"] with
    | [some value, none] => return number (← Double.ofTree? value) .zero
    | [some value, some tolerance] =>
      return number (← Double.ofTree? value) (← Double.ofTree? tolerance)
    | _ => none
  | "one_of" =>
    match ← contents.fields? ["values"] with
    | [some values] => return oneOf (← values? values)
    | _ => none
  | "integer_in_range" =>
    match ← contents.fields? ["min", "max"] with
    | [some least, some greatest] => return integerInRange (← least.word?) (← greatest.word?)
    | _ => none
  | "alarm" =>
    match ← contents.fields? ["severity"] with
    | [some severity] => return alarm (← Severity.ofTree? Tree.isNullOrEmpty severity)
    | _ => none
  | _ => none

end Expectation

structure Case where
  name : String
  -- What is applied to the device.
  input : Value
  expect : Expectation
  -- How long the status may take; the default is the checker's.
  timeout : Option Span

namespace Case

def keys : List String := ["name", "input", "expect", "timeout"]

def toTree (c : Case) : Tree :=
  .object [("name", .text c.name), ("input", c.input.toTree), ("expect", c.expect.toTree),
    ("timeout", (c.timeout.map Span.toTree).getD .null)]

def ofTree? (t : Tree) : Option Case := do
  match ← t.fields? keys with
  | [some name, some input, some expect, timeout] =>
    return {
      name := ← name.text?
      input := ← Value.ofTree? input
      expect := ← Expectation.ofTree? expect
      timeout := ← match timeout with
        | none => pure none
        | some t => Span.ofTreeOrNull? t }
  | _ => none

end Case
end Readback
