import Readback.Access.Monitor
import Readback.Alarm.Field
import Readback.Assertion.Checker
import Readback.Assertion.Condition
import Readback.Poll.Poller

namespace Readback

structure AssertOptions where
  timeout : Option Span := none
  message : Option String := none

inductive Source where
  | reading
  | monitor (m : Monitor)

namespace Checker

variable {σ : Type}

def observe (k : Checker σ) (full : String) : Source → StateM σ (Except AccessError (Option Value))
  | .reading => do return (← k.transport.get full).map some
  | .monitor m => do return .ok (← m.value? k.transport)

def judge (c : Condition) (expectation : String) (observed : Option Value) : Outcome :=
  if observed.any c.holds then .success else .failure ⟨expectation, observed⟩

def look (k : Checker σ) (full : String) (source : Source) (c : Condition) (expectation : String) :
    StateM σ Evaluation := do
  return (← k.observe full source).map (judge c expectation)

def conclude (full : String) (timeout : Span) : Evaluation → Except AssertError Unit
  | .ok .success => .ok ()
  | .ok (.failure f) => .error (.failed f)
  | .error e => .error (.ofAccess full timeout e)

def timeoutOf (k : Checker σ) (o : AssertOptions) : Span :=
  o.timeout.getD k.defaultTimeout

def poll (k : Checker σ) (pv : String) (source : Source) (c : Condition) (o : AssertOptions) :
    StateM σ Poll :=
  let full := k.fullName pv
  k.transport.waitUntil k.pollInterval (k.timeoutOf o)
    (k.look full source c (o.message.getD (c.expectation full)))

def check (k : Checker σ) (pv : String) (source : Source) (c : Condition) (o : AssertOptions) :
    Assertion σ Unit :=
  ExceptT.mk do
    let p ← k.poll pv source c o
    return conclude (k.fullName pv) (k.timeoutOf o) p.verdict

def assertValue (k : Checker σ) (pv : String) (c : Condition) (o : AssertOptions) :
    Assertion σ Unit :=
  k.check pv .reading c o

def assertPosted (k : Checker σ) (pv : String) (c : Condition) (o : AssertOptions) :
    Assertion σ Unit := do
  let m ← Assertion.ofAccess (Monitor.start k.transport (k.fullName pv))
  (k.check pv (.monitor m) c o).thenAlways (m.stop k.transport)

def assertAlarm (k : Checker σ) (pv : String) (severity : Severity) (o : AssertOptions) :
    Assertion σ Unit :=
  k.assertValue (Field.severity.of pv) (.equals severity.toValue) o

def assertNotAlarm (k : Checker σ) (pv : String) (severity : Severity) (o : AssertOptions) :
    Assertion σ Unit :=
  k.assertValue (Field.severity.of pv) (.differs severity.toValue) o

-- Asserts that a value moves in some way while one waits. It is read twice, and not polled.
def assertTrend (k : Checker σ) (pv : String) (wait : Span) (trend : Trend) :
    Assertion σ Unit := do
  let full := k.fullName pv
  let initial ← ExceptT.mk do
    return (← k.transport.get full).mapError (AssertError.ofAccess full 0)
  modify (k.transport.sleep wait)
  k.assertValue pv (.moved trend initial) { timeout := some 0 }

end Checker
end Readback
