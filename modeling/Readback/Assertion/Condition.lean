import Readback.Value.Compare
import Readback.Value.Render

namespace Readback

inductive Trend where
  | increasing
  | decreasing
  | unchanged
deriving DecidableEq

namespace Trend

def all : List Trend := [increasing, decreasing, unchanged]

def comparator : Trend → String
  | increasing => "gt"
  | decreasing => "lt"
  | unchanged => "eq"

def holds (last initial : Value) : Trend → Bool
  | increasing => last.greaterThan initial
  | decreasing => last.lessThan initial
  | unchanged => last.same initial

end Trend

inductive Condition where
  | described (description : String) (holds : Value → Bool)
  | equals (v : Value)
  | differs (v : Value)
  | near (expected tolerance : Double)
  -- Not near; what is no number is not near anything.
  | away (restricted tolerance : Double)
  | oneOf (vs : List Value)
  | integerIn (least greatest : Int64)
  | moved (trend : Trend) (initial : Value)

namespace Condition

def holds : Condition → Value → Bool
  | described _ p, v => p v
  | equals w, v => v.same w
  | differs w, v => !v.same w
  | near expected tolerance, v => v.within expected tolerance
  | away restricted tolerance, v => !v.within restricted tolerance
  | oneOf ws, v => ws.any fun w => w.same v
  | integerIn least greatest, v => v.inRange least greatest
  | moved trend initial, v => trend.holds v initial

def toleranceText (tolerance : Double) : String :=
  " (tolerance: " ++ (Value.float tolerance).toText ++ ")"

def expectation (c : Condition) (pv : String) : String :=
  match c with
  | described description _ =>
    "Expected condition '" ++ description ++ "' to hold when reading PV '" ++ pv ++ "'."
  | equals v => "Expected PV '" ++ pv ++ "' to have value " ++ v.toText ++ "."
  | differs v => "Expected PV '" ++ pv ++ "' to not have value " ++ v.toText ++ "."
  | near expected tolerance =>
    "Expected PV '" ++ pv ++ "' value to be equal to " ++ (Value.float expected).toText ++
      toleranceText tolerance
  | away restricted tolerance =>
    "Expected PV '" ++ pv ++ "' value to be not equal to " ++ (Value.float restricted).toText ++
      toleranceText tolerance
  | oneOf vs => "Expected PV '" ++ pv ++ "' value to be in " ++ Value.listText vs
  | integerIn least greatest =>
    "Expected PV '" ++ pv ++ "' value to be an integer between " ++ (Value.int least).toText ++
      " and " ++ (Value.int greatest).toText
  | moved trend initial =>
    "Expected PV '" ++ pv ++ "' value trend to satisfy comparator '" ++ trend.comparator ++
      "'. Initial value was " ++ initial.toText ++ "."

end Condition
end Readback
