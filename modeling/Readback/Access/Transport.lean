import Readback.Alarm.Severity

namespace Readback

inductive AccessError where
  | unreachable (pv : String)
  | putFailed (pv reason : String)
  | subscribeFailed (pv reason : String)
  | transport (reason : String)
deriving DecidableEq

namespace AccessError

-- What cannot be reached may yet come up; nothing else is worth another attempt.
def isRetryable : AccessError → Bool
  | unreachable _ => true
  | _ => false

def message : AccessError → String
  | unreachable pv => "Unable to connect to PV " ++ pv
  | putFailed pv reason => "Write to PV " ++ pv ++ " failed: " ++ reason
  | subscribeFailed pv reason => "Monitor on PV " ++ pv ++ " could not be created: " ++ reason
  | transport reason => "Transport error: " ++ reason

theorem isRetryable_iff {e : AccessError} : e.isRetryable ↔ ∃ pv, e = .unreachable pv := by
  cases e <;> simp [isRetryable]

end AccessError

structure Event where
  value : Value
  severity : Severity
  status : String

def Event.quiet (v : Value) : Event :=
  ⟨v, .noAlarm, Severity.noAlarm.state⟩

abbrev SubscriptionId := Nat

structure Clock (σ : Type) where
  -- Nanoseconds since some moment.
  now : σ → Nat
  sleep : Nat → σ → σ

-- Access to process variables by their full names, over a state that it changes. Subscribers are
-- represented by what has been delivered to them last.
structure Transport (σ : Type) extends Clock σ where
  get : String → StateM σ (Except AccessError Value)
  -- Writes a value, and possibly waits for completion.
  put : String → Value → Bool → Nat → StateM σ (Except AccessError Unit)
  -- Whether a process variable can be connected within a span.
  probe : String → Nat → StateM σ Bool
  subscribe : String → StateM σ (Except AccessError SubscriptionId)
  unsubscribe : SubscriptionId → StateM σ Unit
  -- Delivers what has been queued so far.
  drain : StateM σ Unit
  latest : SubscriptionId → σ → Option Event

end Readback
