/-!
# Log lines

A run reports what it does as lines of two levels. The lines are part of its result, in the
order in which they arose.
-/

namespace Endpoints

inductive LogLevel where
  | info
  | warn
  deriving DecidableEq, Repr

def LogLevel.name : LogLevel → String
  | .info => "INFO"
  | .warn => "WARN"

structure LogLine where
  level : LogLevel
  text : String
  deriving DecidableEq, Repr

abbrev Log := List LogLine

namespace Log

def info (text : String) : Log := [⟨.info, text⟩]

def warn (text : String) : Log := [⟨.warn, text⟩]

def warnings (log : Log) : List String :=
  (log.filter fun line => line.level = .warn).map LogLine.text

end Log

end Endpoints
