/-! # Messages of a run

    Every part of the program reports under its own name.  What is shown is decided by a
    level, what it looks like by the place it goes to. -/

namespace EmmyStubs

namespace Log

inductive Level where
  | debug
  | info
  | warning
  | error
  deriving DecidableEq, Repr

def Level.rank : Level → Nat
  | .debug => 10
  | .info => 20
  | .warning => 30
  | .error => 40

def Level.name : Level → String
  | .debug => "DEBUG"
  | .info => "INFO"
  | .warning => "WARNING"
  | .error => "ERROR"

/-- The part of the program that reports. -/
inductive Source where
  | loader
  | mapper
  | collect
  | selection
  | synthesis
  | context
  | writer
  | orchestrator
  deriving DecidableEq, Repr

/-- The full name under which a part reports. -/
def Source.name : Source → String
  | .loader => "luastubgen.loader"
  | .mapper => "luastubgen.mapper"
  | .collect => "luastubgen.collect"
  | .selection => "luastubgen.selection"
  | .synthesis => "luastubgen.synthesis"
  | .context => "luastubgen.context"
  | .writer => "luastubgen.writer"
  | .orchestrator => "luastubgen.orchestrator"

structure Entry where
  level : Level
  source : Source
  message : String
  deriving DecidableEq, Repr

/-- Whether an entry is at or above a level. -/
def Entry.atLeast (least : Level) (e : Entry) : Bool :=
  least.rank ≤ e.level.rank

/-- The line shown on a terminal. -/
def Entry.consoleLine (e : Entry) : String :=
  "[luastubgen] " ++ e.level.name ++ " " ++ e.message ++ "\n"

/-- The line kept in a log file, without its time. -/
def Entry.fileLine (e : Entry) : String :=
  e.level.name ++ " " ++ e.source.name ++ " [MainThread]: " ++ e.message ++ "\n"

/-- The messages at or above a level, as shown on a terminal. -/
def consoleText (level : Level) (log : List Entry) : String :=
  String.join ((log.filter (Entry.atLeast level)).map Entry.consoleLine)

/-- The messages as kept in a log file. -/
def fileText (log : List Entry) : String :=
  String.join (log.map Entry.fileLine)

end Log

end EmmyStubs
