import Readback.Server.Access

namespace Readback.Server

-- Does what a subscriber does about an event. Draining from within is left to `inner`.
def act (inner : Server → Server) (id : SubscriptionId) (event : Event) (s : Server) :
    Action → Server
  | .set pv v => s.set pv (v.getD event.value)
  | .put pv v => (s.put pv (v.getD event.value)).2
  | .get pv => s.note (.got id (s.get pv))
  | .drain => inner s
  | .subscribe pv handle => (s.subscribe pv (some handle) []).2
  | .unsubscribe handle =>
    match s.handles.find? handle with
    | some id => s.unsubscribe id
    | none => s

def call (inner : Server → Server) (b : Subscriber) (n : Notification) (s : Server) : Server :=
  (b.script.foldl (act inner b.id n.event) (s.note (.started n))).note (.finished b.id)

-- Delivers one notification. It is dropped if its subscription has ended, and put off if its
-- subscriber is running.
def deliver (inner : List SubscriptionId → Server → Server) (running : List SubscriptionId) :
    List Notification × Server → Notification → List Notification × Server
  | (deferred, s), n =>
    match s.subscriber? n.subscriber with
    | none => (deferred, s)
    | some b =>
      if b.id ∈ running then (deferred ++ [n], s)
      else (deferred, call (inner (b.id :: running)) b n s)

-- Delivers what is queued now. What is posted meanwhile stays in the queue, after what had to be
-- put off. The first argument bounds how deep drains go in drains.
def drainWithin : Nat → List SubscriptionId → Server → Server
  | 0, _, s => s
  | depth + 1, running, s =>
    let (deferred, t) := s.pending.foldl (deliver (drainWithin depth) running) ([], s.take)
    t.putBack deferred

-- Delivers what is queued now. A drain inside a drain is run by a subscriber, and none runs twice
-- at a time; those who subscribe meanwhile run nothing. So drains go no deeper than there are
-- subscribers now.
def drain (s : Server) : Server :=
  drainWithin (s.subscribers.length + 1) [] s

def latest (id : SubscriptionId) (s : Server) : Option Event :=
  s.journal.findSome? fun
    | .started n => if n.subscriber = id then some n.event else none
    | _ => none

end Readback.Server
