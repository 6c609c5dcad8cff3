namespace Readback

inductive Field where
  | severity
  | simulatedSeverity
  | status
  | process
deriving DecidableEq

namespace Field

def all : List Field := [severity, simulatedSeverity, status, process]

def code : Field → String
  | severity => "SEVR"
  | simulatedSeverity => "SIMS"
  | status => "STAT"
  | process => "PROC"

def ofCode? (s : String) : Option Field :=
  all.find? fun field => field.code == s

def join (pv code : String) : String :=
  pv ++ "." ++ code

def of (field : Field) (pv : String) : String :=
  join pv field.code

-- What stands before and after the last point of a name.
def split? (name : String) : Option (String × String) :=
  let (last, rest) := name.toList.reverse.span (· != '.')
  match rest with
  | [] => none
  | _ :: rest => some (String.ofList rest.reverse, String.ofList last.reverse)

end Field
end Readback
