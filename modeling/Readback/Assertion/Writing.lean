import Readback.Assertion.Reading

namespace Readback

structure PutOptions where
  -- Whether to wait for completion, which some records never report.
  wait : Bool := false
  -- How long to wait afterwards, if not as long as the settings say.
  settle : Option Span := none

structure SetpointOptions where
  setpoint : Option String := none
  expected : Option Value := none
  -- The alarm to be found on the readback; without one alarms are not looked at.
  alarm : Option Severity := some .noAlarm
  timeout : Option Span := none

namespace Checker

variable {σ : Type}

def assertExists (k : Checker σ) (pv : String) (timeout : Option Span) : Assertion σ Unit := do
  let full := k.fullName pv
  if !(← k.transport.probe full (timeout.getD k.defaultTimeout)) then
    throw (.missing full)

def assertAbsent (k : Checker σ) (pv : String) (timeout : Option Span) : Assertion σ Unit := do
  let full := k.fullName pv
  if ← k.transport.probe full (timeout.getD k.absenceTimeout) then
    throw (.present full)

def read (k : Checker σ) (pv : String) : Assertion σ Value :=
  .ofAccess (k.transport.get (k.fullName pv))

def settle (k : Checker σ) (d : Span) : StateM σ Unit :=
  if d = 0 then pure () else modify (k.transport.sleep d)

def write (k : Checker σ) (pv : String) (v : Value) (o : PutOptions) : Assertion σ Unit := do
  k.assertExists pv (some k.putExistenceTimeout)
  Assertion.ofAccess (k.transport.put (k.fullName pv) v o.wait k.defaultTimeout)
  k.settle (o.settle.getD k.settleAfterPut)

def process (k : Checker σ) (pv : String) : Assertion σ Unit :=
  .ofAccess (k.transport.put (Field.process.of (k.fullName pv)) (.int 1) false k.defaultTimeout)

def assertProcessed (k : Checker σ) (pv : String) (v : Value) (o : AssertOptions) :
    Assertion σ Unit := do
  k.process pv
  k.assertValue pv (.equals v) o

def setpointOf (readback : String) : String :=
  readback ++ ":SP"

def assertReadback (k : Checker σ) (v : Value) (readback : String) (o : SetpointOptions) :
    Assertion σ Unit := do
  k.write (o.setpoint.getD (setpointOf readback)) v {}
  k.assertValue readback (.equals (o.expected.getD v)) { timeout := o.timeout }
  match o.alarm with
  | some severity => k.assertAlarm readback severity { timeout := o.timeout }
  | none => pure ()

end Checker
end Readback
