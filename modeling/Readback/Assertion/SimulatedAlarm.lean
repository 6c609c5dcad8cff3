import Readback.Assertion.Writing

namespace Readback

structure SimulatedAlarm where
  pv : String
  active : Bool

namespace Checker

variable {σ : Type}

def forceAlarm (k : Checker σ) (pv : String) (severity : Severity) : Assertion σ Unit := do
  k.write (Field.simulatedSeverity.of pv) severity.toValue {}
  k.assertAlarm pv severity {}

def restoreAlarm (k : Checker σ) (pv : String) : StateM σ Unit :=
  discard (k.forceAlarm pv .noAlarm).run

-- Puts a record into an alarm. What has been changed is restored if that fails.
def simulateAlarm (k : Checker σ) (pv : String) (severity : Severity) :
    Assertion σ SimulatedAlarm := do
  (k.forceAlarm pv severity).orElseDo (k.restoreAlarm pv)
  return ⟨pv, true⟩

end Checker

namespace SimulatedAlarm

variable {σ : Type}

-- Ends an alarm. It is over then, whether this succeeds or not.
def clear (a : SimulatedAlarm) (k : Checker σ) :
    StateM σ (Except AssertError Unit × SimulatedAlarm) := do
  return (← (k.forceAlarm a.pv .noAlarm).run, { a with active := false })

def release (a : SimulatedAlarm) (k : Checker σ) : StateM σ Unit :=
  if a.active then k.restoreAlarm a.pv else pure ()

end SimulatedAlarm
end Readback
