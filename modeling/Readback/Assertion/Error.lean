import Readback.Poll.Outcome
import Readback.Settings.Basic

namespace Readback

inductive AssertError where
  | failed (f : Failure)
  | missing (pv : String)
  | present (pv : String)
  | neverReachable (pv : String) (timeout : Span) (source : AccessError)
  | access (e : AccessError)
  | config (e : ConfigError)

namespace AssertError

def message : AssertError → String
  | failed f => f.message
  | missing pv => "PV " ++ pv ++ " does not exist"
  | present pv => "PV " ++ pv ++ " exists"
  | neverReachable pv timeout _ =>
    "PV " ++ pv ++ " never became reachable within " ++ String.ofList timeout.brief
  | access e => e.message
  | config e => e.message

def source? : AssertError → Option AccessError
  | neverReachable _ _ source => some source
  | _ => none

def causes (e : AssertError) : List String :=
  e.message :: (e.source?.map AccessError.message).toList

def isAssertionFailure : AssertError → Bool
  | failed _ | missing _ | present _ => true
  | _ => false

-- The error for an access that did not succeed within a timeout: what could not be reached has
-- never been reachable, and anything else stays what it is.
def ofAccess (pv : String) (timeout : Span) (e : AccessError) : AssertError :=
  if e.isRetryable then neverReachable pv timeout e else access e

end AssertError
end Readback
