import Gatehouse.Json.Record
import Gatehouse.Text.Digits

/-!
# Settings

Where the collaborators of the service are, and how it talks to them.  Settings come from a document,
in which everything has a default, or from the variables of an environment.  A variable that is not
set, or does not hold a count where one is needed, leaves the default.
-/

namespace Gatehouse

open Json Gatehouse.Text

/-- The greatest count of seconds is below this. -/
def timeoutLimit : Nat := UInt64.size

/-- Values of environment variables. -/
abbrev Environment := String → Option String

namespace Environment

/-- A count of seconds. -/
def seconds (env : Environment) (name : String) : Nat :=
  ((env name).bind fun text => readCount? timeoutLimit text.toList).getD 30

/-- A switch: on if it is `1` or `true`, in any case. -/
def switch (env : Environment) (name : String) : Bool :=
  match env name with
  | some text => text = "1" || text.toList.map Char.toLower = "true".toList
  | none => false

end Environment

/-- Where the occurrence store is. -/
structure OccurrenceSettings where
  url : String := "http://localhost:8080"
  timeoutSeconds : Nat := 30
  deriving DecidableEq, Repr

/-- Where the rule engine is, and whether it shall explain itself. -/
structure EngineSettings where
  url : String := "http://localhost:8181"
  explain : Bool := false
  timeoutSeconds : Nat := 30
  deriving DecidableEq, Repr

/-- All settings. -/
structure Settings where
  occurrences : OccurrenceSettings := {}
  engine : EngineSettings := {}
  /-- Logs are lines of JSON. -/
  logsJson : Bool := false
  deriving DecidableEq, Repr

/-- An address without slashes at its end. -/
def baseUrl (url : String) : String :=
  String.ofList (url.toList.reverse.dropWhile (· = '/')).reverse

namespace OccurrenceSettings

/-- Settings as a value. -/
def toJson (s : OccurrenceSettings) : Json :=
  .object [("url", .string s.url), ("timeout_secs", .ofNat s.timeoutSeconds)]

/-- The settings that a value is. -/
def ofJson? (value : Json) : Option OccurrenceSettings := do
  let r ← Record.ofJson? ["url", "timeout_secs"] value
  let default : OccurrenceSettings := {}
  return {
    url := ← r.defaulted "url" string? default.url
    timeoutSeconds := ← r.defaulted "timeout_secs" (count? timeoutLimit) default.timeoutSeconds }

/-- The settings of an environment. -/
def ofEnvironment (env : Environment) : OccurrenceSettings where
  url := (env "RODE_GRAFEAS_URL").getD ({} : OccurrenceSettings).url
  timeoutSeconds := env.seconds "RODE_GRAFEAS_TIMEOUT"

end OccurrenceSettings

namespace EngineSettings

/-- Settings as a value. -/
def toJson (s : EngineSettings) : Json :=
  .object [("url", .string s.url), ("explain", .bool s.explain),
    ("timeout_secs", .ofNat s.timeoutSeconds)]

/-- The settings that a value is. -/
def ofJson? (value : Json) : Option EngineSettings := do
  let r ← Record.ofJson? ["url", "explain", "timeout_secs"] value
  let default : EngineSettings := {}
  return {
    url := ← r.defaulted "url" string? default.url
    explain := ← r.defaulted "explain" bool? default.explain
    timeoutSeconds := ← r.defaulted "timeout_secs" (count? timeoutLimit) default.timeoutSeconds }

/-- The settings of an environment. -/
def ofEnvironment (env : Environment) : EngineSettings where
  url := (env "RODE_OPA_URL").getD ({} : EngineSettings).url
  explain := env.switch "RODE_OPA_EXPLAIN"
  timeoutSeconds := env.seconds "RODE_OPA_TIMEOUT"

end EngineSettings

namespace Settings

/-- Settings as a value. -/
def toJson (s : Settings) : Json :=
  .object [("grafeas", s.occurrences.toJson), ("opa", s.engine.toJson),
    ("log_json", .bool s.logsJson)]

/-- The settings that a value is. -/
def ofJson? (value : Json) : Option Settings := do
  let r ← Record.ofJson? ["grafeas", "opa", "log_json"] value
  return {
    occurrences := ← r.defaulted "grafeas" OccurrenceSettings.ofJson? {}
    engine := ← r.defaulted "opa" EngineSettings.ofJson? {}
    logsJson := ← r.defaulted "log_json" bool? false }

/-- The settings of an environment. -/
def ofEnvironment (env : Environment) : Settings where
  occurrences := .ofEnvironment env
  engine := .ofEnvironment env
  logsJson := env.switch "RODE_LOG_JSON"

end Settings
end Gatehouse
