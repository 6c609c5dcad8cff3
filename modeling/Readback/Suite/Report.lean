import Readback.Tree.Json.Writer

namespace Readback

structure CaseResult where
  name : String
  passed : Bool
  -- What went wrong.
  failure : Option String
deriving DecidableEq

structure Report where
  suite : String
  results : List CaseResult

namespace CaseResult

def toTree (r : CaseResult) : Tree :=
  .object (("name", .text r.name) :: ("passed", .bool r.passed) ::
    (r.failure.map fun s => ("failure", Tree.text s)).toList)

def line (r : CaseResult) : String :=
  r.name ++ ": " ++ r.failure.getD ""

end CaseResult

namespace Report

def passed (r : Report) : Nat :=
  r.results.countP CaseResult.passed

def failures (r : Report) : List CaseResult :=
  r.results.filter fun c => !c.passed

def isSuccess (r : Report) : Bool :=
  r.results.all CaseResult.passed

def toTree (r : Report) : Tree :=
  .object [("suite", .text r.suite), ("results", .list (r.results.map CaseResult.toTree))]

def toJson (r : Report) : String :=
  Tree.Json.prettyText r.toTree

def summary (r : Report) : String :=
  String.ofList (Text.digits r.failures.length) ++ " of " ++
    String.ofList (Text.digits r.results.length) ++ " cases failed in suite '" ++ r.suite ++
    "':\n" ++ Text.joinWith "\n" (r.failures.map CaseResult.line)

def result (r : Report) : Except String Unit :=
  if r.isSuccess then .ok () else .error r.summary

end Report
end Readback
