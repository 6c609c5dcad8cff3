import Readback.Access.Transport

namespace Readback

structure Monitor where
  pv : String
  id : SubscriptionId

namespace Monitor

variable {σ : Type}

def start (t : Transport σ) (pv : String) : StateM σ (Except AccessError Monitor) := do
  return (← t.subscribe pv).map fun id => ⟨pv, id⟩

-- The last event, after what is queued has been delivered. There is none before something has been
-- posted: what can be read does not count.
def event? (m : Monitor) (t : Transport σ) : StateM σ (Option Event) := do
  t.drain
  return t.latest m.id (← get)

def value? (m : Monitor) (t : Transport σ) : StateM σ (Option Value) := do
  return (← m.event? t).map Event.value

def severity? (m : Monitor) (t : Transport σ) : StateM σ (Option Severity) := do
  return (← m.event? t).map Event.severity

def status? (m : Monitor) (t : Transport σ) : StateM σ (Option String) := do
  return (← m.event? t).map Event.status

def stop (m : Monitor) (t : Transport σ) : StateM σ Unit :=
  t.unsubscribe m.id

end Monitor
end Readback
