import Readback.Device.Emulator
import Readback.Server.State

namespace Readback.Server

def setOnDevice (s : Server) (property : String) (v : Value) : Except DeviceError Unit × Server :=
  match s.bindings.find? property with
  | some pv => (.ok (), s.set pv v)
  | none => (.error (.noProperty property), s)

def resetAll (s : Server) (names : List String) : Server :=
  names.foldl (fun s pv => s.amend pv Record.reset) s

def reset (s : Server) : Server :=
  s.resetAll s.records.keys

-- Runs a function of the device. The attempt is listed even if there is no such function.
def runFunction (s : Server) (name : String) : Except DeviceError Unit × Server :=
  let s : Server := { s with functions := s.functions ++ [name] }
  if name = "reset" then (.ok (), s.reset) else (.error (.noFunction name), s)

def emulator : Emulator Server where
  set property v := fun s => s.setOnDevice property v
  run name := fun s => s.runFunction name

end Readback.Server
