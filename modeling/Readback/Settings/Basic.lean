import Readback.Tree.Meaning

namespace Readback

inductive ConfigError where
  | load
  | validation (reason : String)
deriving DecidableEq

def ConfigError.message : ConfigError → String
  | load => "Configuration load error"
  | validation reason => "Configuration validation error: " ++ reason

structure Settings where
  -- Starts the name of every process variable of the instrument.
  instrument : String
  -- The device on the instrument, if the assertions are about one.
  device : Option String
  defaultTimeout : Span
  pollInterval : Span
  -- How long to wait after each write.
  settleAfterPut : Span
  -- How long a process variable has to stay away before it counts as absent.
  absenceTimeout : Span
  -- How long to wait before each write for what is to be written.
  putExistenceTimeout : Span
  logLevel : String
deriving DecidableEq

namespace Settings

def default : Settings where
  instrument := ""
  device := none
  defaultTimeout := Span.ofSeconds 5
  pollInterval := Span.ofMillis 500
  settleAfterPut := Span.ofSeconds 1
  absenceTimeout := Span.ofSeconds 2
  putExistenceTimeout := Span.ofSeconds 5
  logLevel := "info"

def logLevels : List String := ["trace", "debug", "info", "warn", "error"]

inductive Fault where
  | logLevel (s : String)
  | noPollInterval
  | noDefaultTimeout
  | device (s : String)
deriving DecidableEq

def Fault.reason : Fault → String
  | logLevel s =>
    "Invalid log_level '" ++ s ++ "'. Must be one of: " ++ Text.joinWith ", " logLevels
  | noPollInterval => "poll_interval must be greater than zero"
  | noDefaultTimeout => "default_timeout must be greater than zero"
  | device s => "Invalid device_prefix '" ++ s ++ "'"

def isDeviceName (s : String) : Bool :=
  !s.toList.isEmpty && !s.toList.any Text.isBlank

def fault? (s : Settings) : Option Fault :=
  if s.logLevel ∉ logLevels then some (.logLevel s.logLevel)
  else if s.pollInterval = 0 then some .noPollInterval
  else if s.defaultTimeout = 0 then some .noDefaultTimeout
  else s.device.bind fun d => if isDeviceName d then none else some (.device d)

def validate (s : Settings) : Except ConfigError Unit :=
  match s.fault? with
  | some fault => .error (.validation fault.reason)
  | none => .ok ()

-- An instrument's part of a name: it ends in a colon unless it is empty.
def closed (instrument : String) : String :=
  if instrument.toList.isEmpty || instrument.toList.getLast? == some ':' then instrument
  else instrument ++ ":"

def stem (s : Settings) : String :=
  closed s.instrument ++ (match s.device with | some d => d ++ ":" | none => "")

def forDevice (s : Settings) (device : String) : Settings :=
  { s with device := some device }

end Settings
end Readback
