/-! The log: what happened on the way, for whoever follows along.

A record has a level, a fixed message and named details. Nothing in the library reads the log
back. -/

namespace FactLift

/-- How severe a log record is. -/
inductive LogLevel
  | critical | error | warning | info | debug | trace
deriving DecidableEq, Repr

namespace LogLevel

/-- Position in the order of severity, most severe first. -/
def rank : LogLevel → Nat
  | critical => 0
  | error => 1
  | warning => 2
  | info => 3
  | debug => 4
  | trace => 5

def name : LogLevel → String
  | critical => "CRIT"
  | error => "ERRO"
  | warning => "WARN"
  | info => "INFO"
  | debug => "DEBG"
  | trace => "TRCE"

def ofName? (name : String) : Option LogLevel :=
  [critical, error, warning, info, debug, trace].find? fun level => level.name == name

/-- The least severe level that is still shown when details are asked for `n` times. -/
def ofVerbosity : Nat → LogLevel
  | 0 => warning
  | 1 => info
  | 2 => debug
  | _ => trace

end LogLevel

/-- One record of the log. -/
structure LogRecord where
  level : LogLevel
  message : String
  details : List (String × String) := []
deriving DecidableEq, Repr

/-- A log, oldest record first. -/
abbrev Log := Array LogRecord

/-- The records that are at least as severe as a level. -/
def Log.atLeast (log : Log) (level : LogLevel) : List LogRecord :=
  log.toList.filter fun record => record.level.rank ≤ level.rank

end FactLift
