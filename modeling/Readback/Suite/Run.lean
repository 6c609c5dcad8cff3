import Readback.Assertion.Writing
import Readback.Suite.Case
import Readback.Suite.Context
import Readback.Suite.Report

namespace Readback

abbrev Causes := List String

abbrev Setter (σ : Type) := Context σ → Value → ExceptT Causes (StateM σ) Unit

structure Suite (σ : Type) where
  name : String
  statusPv : String
  -- What has to have the alarm, if it is not the status itself.
  alarmPv : Option String
  setter : Setter σ

namespace Setter

variable {σ : Type}

def setpoint (pv : String) : Setter σ := fun c v =>
  ExceptT.mk do
    return (← (c.checker.write pv v {}).run).mapError fun e =>
      ("writing setpoint " ++ pv) :: e.causes

def onDevice (property : String) : Setter σ := fun c v =>
  ExceptT.mk do
    return (← c.setOnDevice property v).mapError fun e => [e.message]

def severity (pv : String) : Setter σ := fun c v =>
  let text := v.text?.getD ""
  match Severity.ofText? text with
  | none => throw [Severity.unknownMessage text]
  | some severity =>
    ExceptT.mk do
      return (← (c.checker.write (Field.simulatedSeverity.of pv) severity.toValue {}).run).mapError
        AssertError.causes

def nothing : Setter σ := fun _ _ => pure ()

def refusing (message : String) : Setter σ := fun _ v =>
  throw [message ++ " " ++ v.toText]

end Setter

namespace Suite

variable {σ : Type}

def demand (suite : Suite σ) : Expectation → String × Condition
  | .equals v => (suite.statusPv, .equals v)
  | .number x tolerance => (suite.statusPv, .near x tolerance)
  | .oneOf vs => (suite.statusPv, .oneOf vs)
  | .integerInRange least greatest => (suite.statusPv, .integerIn least greatest)
  | .alarm severity =>
    (Field.severity.of (suite.alarmPv.getD suite.statusPv), .equals severity.toValue)

def expect (suite : Suite σ) (k : Checker σ) (expectation : Expectation) (timeout : Option Span) :
    Assertion σ Unit :=
  let (pv, condition) := suite.demand expectation
  k.assertValue pv condition { timeout }

def perform (suite : Suite σ) (c : Context σ) (case : Case) : ExceptT Causes (StateM σ) Unit := do
  suite.setter c case.input
  ExceptT.mk do
    return (← (suite.expect c.checker case.expect case.timeout).run).mapError AssertError.causes

def runCase (suite : Suite σ) (c : Context σ) (case : Case) : StateM σ CaseResult := do
  match ← (suite.perform c case).run with
  | .ok () => return ⟨case.name, true, none⟩
  | .error causes => return ⟨case.name, false, some (Text.joinWith ": " causes)⟩

def runAll (suite : Suite σ) (c : Context σ) : List Case → StateM σ (List CaseResult)
  | [] => return []
  | case :: cases => do
    let r ← suite.runCase c case
    return r :: (← runAll suite c cases)

def run (suite : Suite σ) (c : Context σ) (cases : List Case) : StateM σ Report := do
  return ⟨suite.name, ← suite.runAll c cases⟩

end Suite
end Readback
