import Readback.Assertion.Checker
import Readback.Device.Emulator

namespace Readback

structure Context (σ : Type) where
  checker : Checker σ
  mode : Mode
  emulator : Option (Emulator σ)

namespace Context

variable {σ : Type}

def device (c : Context σ) : Except DeviceError (Emulator σ) :=
  match c.emulator with
  | some e => .ok e
  | none => .error (.notAttached c.mode)

def simulatesRecords (c : Context σ) : Bool := c.mode == .records

def leavesOut (c : Context σ) : Bool := c.simulatesRecords

def setOnDevice (c : Context σ) (property : String) (v : Value) :
    StateM σ (Except DeviceError Unit) :=
  match c.device with
  | .ok e => e.set property v
  | .error e => return .error e

def runFunction (c : Context σ) (name : String) : StateM σ (Except DeviceError Unit) :=
  match c.device with
  | .ok e => e.run name
  | .error e => return .error e

end Context
end Readback
