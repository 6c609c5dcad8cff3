import Readback.Server.Mail
import Readback.Server.Record

namespace Readback

structure Server extends Server.Mail where
  -- Nanoseconds since some moment.
  clock : Nat
  records : Registry Record
  -- Readbacks, by the setpoints that they follow.
  links : Registry String
  -- Records, by the properties of the device that they stand for.
  bindings : Registry String
  -- All writes of clients.
  writes : List (String × Value)
  -- The functions of the device that have been called.
  functions : List String
  agenda : List Server.Task

namespace Server

def empty : Server where
  toMail := .empty
  clock := 0
  records := .empty
  links := .empty
  bindings := .empty
  writes := []
  functions := []
  agenda := []

def note (s : Server) (e : Entry) : Server :=
  { s with toMail := s.toMail.note e }

def notify (s : Server) (pv : String) : Server :=
  match s.records.find? pv with
  | none => s
  | some r => { s with toMail := s.announce pv r.event }

-- Gives a record a value. A record that is missing is made.
def assign (s : Server) (pv : String) (v : Value) : Server :=
  let r := match s.records.find? pv with
    | some r => { r with value := v }
    | none => .new v
  { s with records := s.records.put pv r }

def insert (s : Server) (pv : String) (v : Value) : Server :=
  { s with records := s.records.put pv (.new v) }

def insertUnreachable (s : Server) (pv : String) (v : Value) (delay : Nat) : Server :=
  { s with
    records := s.records.put pv { Record.new v with reachableFrom := some (s.clock + delay) } }

def remove (s : Server) (pv : String) : Server :=
  { s with records := s.records.erase pv }

def set (s : Server) (pv : String) (v : Value) : Server :=
  (s.assign pv v).notify pv

def setSilently (s : Server) (pv : String) (v : Value) : Server :=
  s.assign pv v

def amend (s : Server) (pv : String) (f : Record → Record) : Server :=
  ({ s with records := s.records.modify pv f } : Server).notify pv

def setAlarm (s : Server) (pv : String) (severity : Severity) (status : String) : Server :=
  s.amend pv fun r => { r with severity, status }

def link (s : Server) (setpoint readback : String) : Server :=
  { s with links := s.links.put setpoint readback }

def bind (s : Server) (property pv : String) : Server :=
  { s with bindings := s.bindings.put property pv }

def processed (s : Server) (pv : String) : Nat :=
  ((s.records.find? pv).map Record.processed).getD 0

def subscribe (s : Server) (pv : String) (handle : Option String) (script : List Action) :
    SubscriptionId × Server :=
  (s.nextId, { s with toMail := s.toMail.subscribe pv handle script })

def unsubscribe (s : Server) (id : SubscriptionId) : Server :=
  { s with toMail := s.toMail.unsubscribe id }

def take (s : Server) : Server :=
  { s with toMail := s.toMail.take }

def putBack (s : Server) (deferred : List Notification) : Server :=
  { s with toMail := s.toMail.putBack deferred }

end Server
end Readback
