/-! Log lines: what the engine tells its operators. -/
namespace MessageDispatch

inductive LogLevel where
  | info
  | warn
  | error
deriving DecidableEq, Inhabited

def LogLevel.name : LogLevel → String
  | .info => "INFO"
  | .warn => "WARN"
  | .error => "ERROR"

structure LogLine where
  level : LogLevel
  text : String
deriving DecidableEq, Inhabited

def LogLine.render (l : LogLine) : String :=
  l.level.name ++ " " ++ l.text

end MessageDispatch
