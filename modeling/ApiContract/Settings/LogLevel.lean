import ApiContract.Settings.Load

/-!
# Log levels

The level from which on messages are shown. Debugging, by choice or by the environment, prevails over a
level that is asked for; a name that is no level stands for the standard one.
-/

namespace ApiContract.LogLevel

/-- The level that applies if no other is asked for. -/
def standard : String := "WARNING"

/-- The level of a name, in capitals. Some levels have two names. -/
def ofName? : String → Option String
  | "NOTSET" => some "NOTSET"
  | "DEBUG" => some "DEBUG"
  | "INFO" => some "INFO"
  | "WARN" | "WARNING" => some "WARNING"
  | "ERROR" => some "ERROR"
  | "FATAL" | "CRITICAL" => some "CRITICAL"
  | _ => none

/-- The level that applies. -/
def effective (env : Environment) (debug : Bool) (level : Option String) : String :=
  if debug || env.flag "SCHEMAROUTE_DEBUG" false then "DEBUG"
  else ((level.map Text.toUpper).bind ofName?).getD standard

end ApiContract.LogLevel
