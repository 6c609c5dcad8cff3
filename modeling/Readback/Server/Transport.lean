import Readback.Access.Transport
import Readback.Server.Drain
import Readback.Server.Emulator

namespace Readback.Server

def Operation.perform : Operation → Server → Server
  | .insert pv v, s => s.insert pv v
  | .insertUnreachable pv v delay, s => s.insertUnreachable pv v delay
  | .remove pv, s => s.remove pv
  | .set pv v, s => s.set pv v
  | .setSilently pv v, s => s.setSilently pv v
  | .setAlarm pv severity status, s => s.setAlarm pv severity status
  | .link setpoint readback, s => s.link setpoint readback
  | .bind property pv, s => s.bind property pv
  | .put pv v, s => (s.put pv v).2
  | .setOnDevice property v, s => (s.setOnDevice property v).2
  | .runFunction name, s => (s.runFunction name).2
  | .subscribe pv handle script, s => (s.subscribe pv handle script).2
  | .unsubscribe id, s => s.unsubscribe id
  | .drain, s => s.drain

def run (ops : List Operation) (s : Server) : Server :=
  ops.foldl (fun s op => op.perform s) s

def Task.upTo (moment : Nat) : Task → List (Nat × Operation) × Option Task
  | .once due op => if due ≤ moment then ([(due, op)], none) else ([], some (.once due op))
  | .stream due period pv values =>
    if due ≤ moment then
      let pause := max period 1
      let n := (moment - due) / pause + 1
      ((values.take n).mapIdx fun i v => (due + i * pause, .set pv v),
        some (.stream (due + n * pause) period pv (values.drop n)))
    else ([], some (.stream due period pv values))

-- Lets time pass up to some moment, and everything happen that is due by then.
def advance (s : Server) (moment : Nat) : Server :=
  let parts := s.agenda.map (Task.upTo moment)
  let due := (parts.flatMap Prod.fst).mergeSort fun a b => a.1 ≤ b.1
  let s : Server := { s with agenda := parts.filterMap Prod.snd }
  let s := due.foldl (fun s op => op.2.perform { s with clock := max s.clock op.1 }) s
  { s with clock := max s.clock moment }

def sleep (d : Nat) (s : Server) : Server :=
  s.advance (s.clock + d)

-- Whether a name can be reached within a span. If so the delay is over afterwards; otherwise the
-- answer comes at once.
def probe (s : Server) (name : String) (timeout : Nat) : Bool × Server :=
  match s.delay? name with
  | none => (false, s)
  | some delay => if delay ≤ timeout then (true, s.sleep delay) else (false, s)

def stream (s : Server) (pv : String) (period : Nat) (values : Series) : Server :=
  ({ s with agenda := s.agenda ++ [.stream s.clock period pv values] } : Server).advance s.clock

-- Access to the records of a server. Nothing but sleeping takes time.
def transport : Transport Server where
  now s := s.clock
  sleep d s := s.sleep d
  get name := fun s => (s.get name, s)
  put name v _ _ := fun s => s.put name v
  probe name timeout := fun s => s.probe name timeout
  subscribe pv := fun s =>
    let (id, s) := s.subscribe pv none []
    (.ok id, s)
  unsubscribe id := fun s => ((), s.unsubscribe id)
  drain := fun s => ((), s.drain)
  latest := latest

end Readback.Server
