import Readback.Access.Transport

namespace Readback

inductive Call where
  | get (pv : String)
  | put (pv : String) (v : Value) (wait : Bool) (timeout : Nat)
  | probe (pv : String) (timeout : Nat)
  | subscribe (pv : String)
  | unsubscribe (id : SubscriptionId)
  | drain

-- A state, and the calls that led to it, last first.
structure Recorded (σ : Type) where
  state : σ
  reversed : List Call

namespace Recorded

def calls (r : Recorded σ) : List Call := r.reversed.reverse

def callsSince (r : Recorded σ) (n : Nat) : List Call :=
  (r.reversed.take (r.reversed.length - n)).reverse

def log (call : Call) (run : StateM σ α) : StateM (Recorded σ) α :=
  fun r =>
    let (a, s) := run r.state
    (a, ⟨s, call :: r.reversed⟩)

end Recorded

def Transport.recorded (t : Transport σ) : Transport (Recorded σ) where
  now r := t.now r.state
  sleep d r := { r with state := t.sleep d r.state }
  get pv := Recorded.log (.get pv) (t.get pv)
  put pv v wait timeout := Recorded.log (.put pv v wait timeout) (t.put pv v wait timeout)
  probe pv timeout := Recorded.log (.probe pv timeout) (t.probe pv timeout)
  subscribe pv := Recorded.log (.subscribe pv) (t.subscribe pv)
  unsubscribe id := Recorded.log (.unsubscribe id) (t.unsubscribe id)
  drain := Recorded.log .drain t.drain
  latest id r := t.latest id r.state

end Readback
