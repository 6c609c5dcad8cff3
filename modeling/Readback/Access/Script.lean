import Readback.Access.Transport

namespace Readback

structure Script.Notice where
  pv : String
  event : Event

structure Script.Listener where
  id : SubscriptionId
  pv : String
  latest : Option Event

-- A transport that gives answers written down beforehand. Each call takes the next answer for its
-- process variable, and the last one stays.
structure Script where
  clock : Nat
  gets : List (String × List (Except AccessError Value))
  puts : List (String × List (Except AccessError Unit))
  probes : List (String × List Bool)
  subscribeError : Option AccessError
  batches : List (List Script.Notice)
  listeners : List Script.Listener
  nextId : SubscriptionId

namespace Script

def answer? (pv : String) : List (String × List α) → Option α × List (String × List α)
  | [] => (none, [])
  | (name, answers) :: rest =>
    if name == pv then
      match answers with
      | [] => (none, (name, []) :: rest)
      | [a] => (some a, (name, [a]) :: rest)
      | a :: as => (some a, (name, as) :: rest)
    else
      let (a, rest) := answer? pv rest
      (a, (name, answers) :: rest)

def get (pv : String) : StateM Script (Except AccessError Value) := fun s =>
  let (a, gets) := answer? pv s.gets
  (a.getD (.error (.unreachable pv)), { s with gets })

def put (pv : String) : StateM Script (Except AccessError Unit) := fun s =>
  let (a, puts) := answer? pv s.puts
  (a.getD (.ok ()), { s with puts })

def probe (pv : String) : StateM Script Bool := fun s =>
  let (a, probes) := answer? pv s.probes
  (a.getD true, { s with probes })

def subscribe (pv : String) : StateM Script (Except AccessError SubscriptionId) := fun s =>
  match s.subscribeError with
  | some e => (.error e, s)
  | none =>
    (.ok s.nextId,
      { s with listeners := s.listeners ++ [⟨s.nextId, pv, none⟩], nextId := s.nextId + 1 })

def unsubscribe (id : SubscriptionId) : StateM Script Unit := fun s =>
  ((), { s with listeners := s.listeners.filter fun l => l.id != id })

def hear (listeners : List Listener) (n : Notice) : List Listener :=
  listeners.map fun l => if l.pv == n.pv then { l with latest := some n.event } else l

def drain : StateM Script Unit := fun s =>
  match s.batches with
  | [] => ((), s)
  | batch :: batches => ((), { s with batches, listeners := batch.foldl hear s.listeners })

def latest (id : SubscriptionId) (s : Script) : Option Event :=
  (s.listeners.find? fun l => l.id == id).bind Listener.latest

-- Time passes only in sleeps.
def transport : Transport Script where
  now s := s.clock
  sleep d s := { s with clock := s.clock + d }
  get := get
  put pv _ _ _ := put pv
  probe pv _ := probe pv
  subscribe := subscribe
  unsubscribe := unsubscribe
  drain := drain
  latest := latest

end Script
end Readback
