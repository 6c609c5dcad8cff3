import Readback.Value.Basic

namespace Readback

-- How the records under test are simulated: inside the controller, or by a device that is emulated
-- outside of it.
inductive Mode where
  | records
  | device
deriving DecidableEq

namespace Mode

def name : Mode → String
  | records => "recsim"
  | device => "devsim"

def ofName? (s : String) : Option Mode :=
  [records, device].find? fun m => m.name == s

end Mode

inductive DeviceError where
  | noProperty (name : String)
  | noFunction (name : String)
  | notAttached (mode : Mode)
deriving DecidableEq

def DeviceError.message : DeviceError → String
  | noProperty name => "device has no property '" ++ name ++ "'"
  | noFunction name => "device has no function '" ++ name ++ "'"
  | notAttached mode => "no device emulator attached in " ++ mode.name ++ " mode"

structure Emulator (σ : Type) where
  set : String → Value → StateM σ (Except DeviceError Unit)
  run : String → StateM σ (Except DeviceError Unit)

end Readback
