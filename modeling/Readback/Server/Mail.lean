import Readback.Server.Operation
import Readback.Server.Registry

namespace Readback.Server

structure Mail where
  -- Live subscribers, the oldest first.
  subscribers : List Subscriber
  -- The latest subscription under each handle.
  handles : Registry SubscriptionId
  -- What has been posted and not been delivered yet.
  pending : List Notification
  nextId : SubscriptionId
  nextSerial : Nat
  -- What happened to subscribers, last first.
  journal : List Entry

namespace Mail

def empty : Mail where
  subscribers := []
  handles := .empty
  pending := []
  nextId := 1
  nextSerial := 0
  journal := []

def note (m : Mail) (e : Entry) : Mail :=
  { m with journal := e :: m.journal }

def subscriber? (m : Mail) (id : SubscriptionId) : Option Subscriber :=
  m.subscribers.find? fun b => b.id == id

def listeners (m : Mail) (pv : String) : List SubscriptionId :=
  (m.subscribers.filter fun b => b.pv == pv).map Subscriber.id

def post (m : Mail) (pv : String) (event : Event) (id : SubscriptionId) : Mail :=
  let n : Notification := ⟨m.nextSerial, id, event⟩
  { m with
    pending := m.pending ++ [n]
    nextSerial := m.nextSerial + 1
    journal := .posted pv n :: m.journal }

def announce (m : Mail) (pv : String) (event : Event) : Mail :=
  (m.listeners pv).foldl (fun m id => m.post pv event id) m

def subscribe (m : Mail) (pv : String) (handle : Option String) (script : List Action) : Mail :=
  let b : Subscriber := ⟨m.nextId, pv, handle, script⟩
  { m with
    subscribers := m.subscribers ++ [b]
    handles := match handle with
      | some h => m.handles.put h m.nextId
      | none => m.handles
    nextId := m.nextId + 1
    journal := .subscribed b :: m.journal }

def unsubscribe (m : Mail) (id : SubscriptionId) : Mail :=
  { m with
    subscribers := m.subscribers.filter fun b => b.id != id
    pending := m.pending.filter fun n => n.subscriber != id
    journal := .cancelled id :: m.journal }

def take (m : Mail) : Mail :=
  { m with pending := [], journal := .taken m.pending :: m.journal }

-- Queues what a drain had to put off, before what has been posted meanwhile.
def putBack (m : Mail) (deferred : List Notification) : Mail :=
  { m with pending := deferred ++ m.pending, journal := .putBack deferred :: m.journal }

end Mail
end Readback.Server
