import Readback.Access.Transport
import Readback.Assertion.Error

namespace Readback

structure Checker (σ : Type) where
  transport : Transport σ
  -- What stands in front of every local name.
  stem : String
  pollInterval : Span
  defaultTimeout : Span
  settleAfterPut : Span
  absenceTimeout : Span
  putExistenceTimeout : Span

abbrev Assertion (σ α : Type) := ExceptT AssertError (StateM σ) α

namespace Assertion

variable {σ α : Type}

def ofAccess (a : StateM σ (Except AccessError α)) : Assertion σ α :=
  ExceptT.mk do return (← a).mapError AssertError.access

def thenAlways (a : Assertion σ α) (last : StateM σ Unit) : Assertion σ α :=
  ExceptT.mk do
    let result ← a.run
    last
    return result

def orElseDo (a : Assertion σ α) (last : StateM σ Unit) : Assertion σ α :=
  ExceptT.mk do
    match ← a.run with
    | .ok x => return .ok x
    | .error e =>
      last
      return .error e

end Assertion

namespace Checker

variable {σ : Type}

def ofSettings (transport : Transport σ) (s : Settings) : Checker σ where
  transport
  stem := s.stem
  pollInterval := s.pollInterval
  defaultTimeout := s.defaultTimeout
  settleAfterPut := s.settleAfterPut
  absenceTimeout := s.absenceTimeout
  putExistenceTimeout := s.putExistenceTimeout

def onDevice (k : Checker σ) (device : String) : Checker σ :=
  { k with stem := k.stem ++ device ++ ":" }

def fullName (k : Checker σ) (pv : String) : String :=
  k.stem ++ pv

end Checker
end Readback
