import Readback.Settings.Files
import Readback.Settings.Json
import Readback.Settings.Variable
import Readback.Tree.Toml.Reader

namespace Readback.Settings

def defaultFile : String := "ioc_tests.toml"

structure Sources where
  files : Files
  environment : List (String × String)

-- Members under keys; a later member takes the place of an earlier one.
def overlay (members : List (String × Tree)) (key : String) (t : Tree) : List (String × Tree) :=
  members.filter (fun m => m.1 != key) ++ [(key, t)]

def overlayAll (members layer : List (String × Tree)) : List (String × Tree) :=
  layer.foldl (fun ms m => overlay ms m.1 m.2) members

def nested : List String → Tree → Tree
  | [], t => t
  | s :: rest, t => .object [(s, nested rest t)]

def trimmed (s : String) : String :=
  String.ofList (Text.trim s.toList)

-- The setting that an environment variable gives under the common beginning of their names. A
-- variable of which a part of the name is empty gives none.
def ofVariable? (name text : String) : Option (String × Tree) := do
  let key := trimmed (← Text.stripStart? "IOC_TEST_" (trimmed name))
  let parts := Text.parts '.' (String.ofList (key.toList.map Char.toLower))
  if parts.any fun s => s.toList.isEmpty then none
  else match parts with
    | [] => none
    | k :: rest => some (k, nested rest (Variable.read text))

def instrument? (name text : String) : Option (String × Tree) :=
  if Text.sameLetters (trimmed name) "testing_prefix" then some ("prefix", Variable.read text)
  else none

-- The settings of the environment: the instrument that the tests are started with comes last, and
-- so before all others.
def ofEnvironment (environment : List (String × String)) : List (String × Tree) :=
  environment.filterMap (fun v => ofVariable? v.1 v.2) ++
    environment.filterMap fun v => instrument? v.1 v.2

def ofFile? : Option String → Option (List (String × Tree))
  | none => some []
  | some text =>
    match Tree.Toml.read? text with
    | some (.object members) => some members
    | _ => none

-- Settings from a file and the environment, each setting from the one that is nearest to the
-- tests. Only the settings that count have to be well formed.
def ofSources (file : Option String) (environment : List (String × String)) :
    Except ConfigError Settings :=
  match ofFile? file with
  | none => .error .load
  | some members =>
    match ofTree? (.object (overlayAll (overlayAll [] members) (ofEnvironment environment))) with
    | none => .error .load
    | some settings => settings.validate.map fun _ => settings

def load (sources : Sources) (path : String) : Except ConfigError Settings :=
  ofSources (sources.files.find? path) sources.environment

end Readback.Settings
