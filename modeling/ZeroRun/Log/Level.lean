/-!
Log lines with a level, and the set-up of the place they go to. The first set-up counts; a later
one finds a handler in place and changes nothing.
-/
namespace ZeroRun

/-- How much a log line matters. -/
inductive LogLevel where
  | debug
  | info
  | warning
deriving DecidableEq, Repr

namespace LogLevel

/-- The name of a level. -/
def name : LogLevel → String
  | .debug => "DEBUG"
  | .info => "INFO"
  | .warning => "WARNING"

/-- The rank of a level. -/
def rank : LogLevel → Nat
  | .debug => 0
  | .info => 1
  | .warning => 2

/-- The level with a name. -/
def ofName? : String → Option LogLevel
  | "DEBUG" => some .debug
  | "INFO" => some .info
  | "WARNING" => some .warning
  | _ => none

end LogLevel

/-- A line of a log. -/
structure LogLine where
  level : LogLevel
  message : String
deriving DecidableEq, Repr

namespace LogLine

/-- A line with its level in front. -/
def toText (line : LogLine) : String :=
  line.level.name ++ ": " ++ line.message

/-- The lines at or above a level. -/
def atLeast (threshold : LogLevel) (lines : List LogLine) : List LogLine :=
  lines.filter fun line => threshold.rank ≤ line.level.rank

end LogLine

/-- Where log lines go: the least level that is shown, and the format of each handler. -/
structure LogSetup where
  threshold : LogLevel := .warning
  formats : List String := []
deriving DecidableEq, Repr

namespace LogSetup

/-- The format of a line with its level and message. -/
def briefFormat : String := "%(levelname)s: %(message)s"

/-- The format that also names the source of a line. -/
def fullFormat : String := "%(levelname)s:%(name)s:%(message)s"

/-- Sets up the log, unless a handler is in place: everything when verbose, else warnings. -/
def configure (setup : LogSetup) (verbose : Bool := false) : LogSetup :=
  if setup.formats ≠ [] then setup
  else if verbose then ⟨.debug, [briefFormat]⟩
  else ⟨.warning, [fullFormat]⟩

end LogSetup
end ZeroRun
