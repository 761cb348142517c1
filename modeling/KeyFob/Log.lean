import KeyFob.Text.Plain

/-!
Log lines. A line knows its level and which part of the program wrote it; the console shows both in front of the
message.
-/

namespace KeyFob

inductive Level
  | error
  | warn
  | info
  | debug
deriving DecidableEq, Repr

def Level.name : Level → String
  | .error => "ERROR"
  | .warn => "WARN"
  | .info => "INFO"
  | .debug => "DEBUG"

inductive Part
  | boot
  | reader
  | connectivity
  | coordinator
  | diagnostics
  | gate
  | provisioning
  | restart
  | session
  | eventLog
  | store
  | radio
  | volume
  | token
  | reexec
  | button
  | peripherals
  | tasks
deriving DecidableEq, Repr

def Part.path : Part → String
  | .boot => "netkey"
  | .reader => "netkey::apdu::parser"
  | .connectivity => "netkey::connectivity"
  | .coordinator => "netkey::coordinator"
  | .diagnostics => "netkey::diagnostics"
  | .gate => "netkey::gate"
  | .provisioning => "netkey::provisioning"
  | .restart => "netkey::restart"
  | .session => "netkey::session"
  | .eventLog => "netkey::adapters::log_sink"
  | .store => "netkey::adapters::nvs"
  | .radio => "netkey::adapters::wifi"
  | .volume => "netkey::adapters::volume"
  | .token => "netkey::adapters::sim_token"
  | .reexec => "netkey::adapters::system"
  | .button => "netkey::drivers::button"
  | .peripherals => "netkey::drivers::hw_init"
  | .tasks => "netkey::drivers::task_pin"

structure Line where
  level : Level
  source : Part
  message : String
deriving DecidableEq, Repr

namespace Line

/-- The line as a log collector keeps it: level and message. -/
def brief (l : Line) : String := l.level.name ++ " " ++ l.message

/-- What stands in front of the message, with the level padded to five characters. -/
def head (l : Line) : String :=
  let level := l.level.name
  "[" ++ level ++ String.ofList (List.replicate (5 - level.length) ' ') ++ " " ++ l.source.path ++ "] "

def indented (message : String) : String :=
  String.ofList (message.toList.flatMap fun c => if c = '\n' then '\n' :: List.replicate 4 ' ' else [c])

/-- The line as the console shows it, with its line break. The console gets plain text, so a message that leaves an
escape sequence open swallows the line break. -/
def console (l : Line) : String := Text.plain (l.head ++ indented l.message ++ "\n")

end Line

def consoleText (ls : List Line) : String := String.join (ls.map Line.console)

end KeyFob
