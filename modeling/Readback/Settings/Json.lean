import Readback.Settings.Basic
import Readback.Tree.Json.Reader
import Readback.Tree.Json.Writer

namespace Readback.Settings

def keys : List String :=
  ["prefix", "device_prefix", "default_timeout", "poll_interval", "settle_after_put",
    "absence_timeout", "put_existence_timeout", "log_level"]

def toTree (s : Settings) : Tree :=
  .object [
    ("prefix", .text s.instrument),
    ("device_prefix", (s.device.map Tree.text).getD .null),
    ("default_timeout", Span.toTree s.defaultTimeout),
    ("poll_interval", Span.toTree s.pollInterval),
    ("settle_after_put", Span.toTree s.settleAfterPut),
    ("absence_timeout", Span.toTree s.absenceTimeout),
    ("put_existence_timeout", Span.toTree s.putExistenceTimeout),
    ("log_level", .text s.logLevel)]

def textOrNull? : Tree → Option (Option String)
  | .null => some none
  | t => t.text?.map some

def field (read : Tree → Option α) (absent : α) : Option Tree → Option α
  | none => some absent
  | some t => read t

-- Settings from a tree; missing ones have their defaults.
def ofTree? (t : Tree) : Option Settings := do
  match ← t.fields? keys with
  | [instrument, device, defaultTimeout, pollInterval, settle, absence, putExistence, logLevel] =>
    return {
      instrument := ← field Tree.text? default.instrument instrument
      device := ← field textOrNull? default.device device
      defaultTimeout := ← field Span.ofTree? default.defaultTimeout defaultTimeout
      pollInterval := ← field Span.ofTree? default.pollInterval pollInterval
      settleAfterPut := ← field Span.ofTree? default.settleAfterPut settle
      absenceTimeout := ← field Span.ofTree? default.absenceTimeout absence
      putExistenceTimeout := ← field Span.ofTree? default.putExistenceTimeout putExistence
      logLevel := ← field Tree.text? default.logLevel logLevel }
  | _ => none

def toJson (s : Settings) : String :=
  Tree.Json.compactText s.toTree

def ofJson? (text : String) : Option Settings :=
  (Tree.Json.read? text).bind ofTree?

end Readback.Settings
