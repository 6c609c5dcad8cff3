import Readback.Access.Transport
import Readback.Value.Render

namespace Readback

structure Failure where
  expectation : String
  lastValue : Option Value

def Failure.message (f : Failure) : String :=
  f.expectation ++ "\nFinal PV value was " ++ Value.textOf f.lastValue

inductive Outcome where
  | success
  | failure (f : Failure)

abbrev Evaluation := Except AccessError Outcome

def Evaluation.isPending : Evaluation → Bool
  | .ok .success => false
  | .ok (.failure _) => true
  | .error e => e.isRetryable

end Readback
