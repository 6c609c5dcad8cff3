import Readback.Access.Transport
import Readback.Alarm.Field

namespace Readback

structure Record where
  value : Value
  -- The value that a reset restores.
  initial : Value
  severity : Severity
  status : String
  -- The moment from which on the record can be reached; none if it always can.
  reachableFrom : Option Nat
  -- How often the record has been processed.
  processed : Nat

namespace Record

def simulatedStatus : String := "SIMM"

def new (v : Value) : Record where
  value := v
  initial := v
  severity := .noAlarm
  status := Severity.noAlarm.state
  reachableFrom := none
  processed := 0

def isReachable (r : Record) (now : Nat) : Bool :=
  match r.reachableFrom with
  | none => true
  | some t => t ≤ now

def delay (r : Record) (now : Nat) : Nat :=
  match r.reachableFrom with
  | none => 0
  | some t => t - now

theorem isReachable_iff (r : Record) (now : Nat) : r.isReachable now ↔ r.delay now = 0 := by
  unfold isReachable delay
  cases r.reachableFrom with
  | none => simp
  | some t => simp; omega

def read (r : Record) : Option Field → Value
  | none => r.value
  | some .severity | some .simulatedSeverity => r.severity.toValue
  | some .status => .text r.status
  | some .process => .int 0

def event (r : Record) : Event := ⟨r.value, r.severity, r.status⟩

def simulate (r : Record) (severity : Severity) : Record :=
  { r with
    severity
    status := if severity = .noAlarm then Severity.noAlarm.state else simulatedStatus }

def process (r : Record) : Record := { r with processed := r.processed + 1 }

-- The record as it was made, apart from what is counted.
def reset (r : Record) : Record :=
  { r with value := r.initial, severity := .noAlarm, status := Severity.noAlarm.state }

end Record
end Readback
