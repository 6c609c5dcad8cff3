import Readback.Access.Transport
import Readback.Value.Series

namespace Readback.Server

-- What a subscriber does when it is told of an event. Where no value is given it is that of the
-- event. Other subscribers are known by their handles; one that is made here does nothing itself.
inductive Action where
  | set (pv : String) (v : Option Value)
  | put (pv : String) (v : Option Value)
  | get (pv : String)
  | drain
  | subscribe (pv handle : String)
  | unsubscribe (handle : String)

structure Subscriber where
  id : SubscriptionId
  pv : String
  handle : Option String
  script : List Action

-- An event for a subscriber. Serial numbers grow in the order in which events are posted.
structure Notification where
  serial : Nat
  subscriber : SubscriptionId
  event : Event

-- What the journal of a server tells about its subscribers. A drain takes what is queued, and puts
-- back at its end what it had to put off.
inductive Entry where
  | subscribed (s : Subscriber)
  | cancelled (id : SubscriptionId)
  | posted (pv : String) (n : Notification)
  | taken (ns : List Notification)
  | started (n : Notification)
  | got (id : SubscriptionId) (result : Except AccessError Value)
  | finished (id : SubscriptionId)
  | putBack (ns : List Notification)

inductive Operation where
  | insert (pv : String) (v : Value)
  | insertUnreachable (pv : String) (v : Value) (delay : Nat)
  | remove (pv : String)
  | set (pv : String) (v : Value)
  | setSilently (pv : String) (v : Value)
  | setAlarm (pv : String) (severity : Severity) (status : String)
  | link (setpoint readback : String)
  | bind (property pv : String)
  | put (pv : String) (v : Value)
  | setOnDevice (property : String) (v : Value)
  | runFunction (name : String)
  | subscribe (pv : String) (handle : Option String) (script : List Action)
  | unsubscribe (id : SubscriptionId)
  | drain

-- Something that happens by itself: once, or at intervals to a record that is given values.
inductive Task where
  | once (due : Nat) (op : Operation)
  | stream (due period : Nat) (pv : String) (values : Series)

end Readback.Server
