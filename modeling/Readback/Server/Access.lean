import Readback.Server.State
import Readback.Value.Render

namespace Readback.Server

-- The record and the field that a name stands for, reachable or not. A record of just that name
-- comes before a field.
def locate? (s : Server) (name : String) : Option (String × Option Field) :=
  if s.records.contains name then some (name, none)
  else do
    let (base, code) ← Field.split? name
    if s.records.contains base then
      return (base, some (← Field.ofCode? code))
    else none

def resolve? (s : Server) (name : String) : Option (String × Record × Option Field) := do
  let (base, field) ← s.locate? name
  let r ← s.records.find? base
  if r.isReachable s.clock then some (base, r, field) else none

def get (s : Server) (name : String) : Except AccessError Value :=
  match s.resolve? name with
  | some (_, r, field) => .ok (r.read field)
  | none => .error (.unreachable name)

def putRecord (s : Server) (pv : String) (v : Value) : Server :=
  let s := s.set pv v
  match s.links.find? pv with
  | some readback => s.set readback v
  | none => s

-- A write of a client. It is listed once it has found its record, whether it succeeds or not.
def put (s : Server) (name : String) (v : Value) : Except AccessError Unit × Server :=
  match s.resolve? name with
  | none => (.error (.unreachable name), s)
  | some (base, _, field) =>
    let s : Server := { s with writes := s.writes ++ [(name, v)] }
    match field with
    | none => (.ok (), s.putRecord base v)
    | some .simulatedSeverity =>
      match Severity.ofValue? v with
      | some severity => (.ok (), s.amend base fun r => r.simulate severity)
      | none => (.error (.putFailed name (v.toText ++ " is not an alarm severity")), s)
    | some .process => (.ok (), s.amend base Record.process)
    | some field => (.error (.putFailed name ("field " ++ field.code ++ " is read-only")), s)

def delay? (s : Server) (name : String) : Option Nat := do
  let (base, _) ← s.locate? name
  return (← s.records.find? base).delay s.clock

end Readback.Server
