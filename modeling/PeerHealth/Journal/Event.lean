import PeerHealth.Journal.Entry
import PeerHealth.Text.Quoted

/-! Events that a node reports, and the log line that is kept of one. -/

namespace PeerHealth.Journal

/-- How grave an event is. -/
inductive Level where
  | error
  | warn
  | info
  | debug
  | trace
deriving DecidableEq, Repr

def Level.name : Level → String
  | .error => "ERROR"
  | .warn => "WARN"
  | .info => "INFO"
  | .debug => "DEBUG"
  | .trace => "TRACE"

def Level.all : List Level := [.error, .warn, .info, .debug, .trace]

def Level.ofName? (s : String) : Option Level := Level.all.find? (·.name = s)

/-- Events of these levels are kept. -/
def Level.isKept : Level → Bool
  | .error | .warn | .info => true
  | .debug | .trace => false

/-- A value that goes with an event. -/
inductive Value where
  | text (s : String)
  /-- A text that is shown in quotes. -/
  | quoted (s : String)
  | number (n : Int)
  | flag (b : Bool)
deriving DecidableEq, Repr

def Value.render : Value → String
  | .text s => s
  | .quoted s => Text.quoted s
  | .number n => toString n
  | .flag b => if b then "true" else "false"

/-- A named value. The one named `message` says what happened. -/
structure Field where
  name : String
  value : Value
deriving DecidableEq, Repr

structure Event where
  level : Level
  target : String
  fields : List Field
deriving DecidableEq, Repr

/-- The target of the log's own events, which must not be logged: a failure to write would lead to
another one. -/
def ownTarget : String := "meshwatch::logging"

def Event.isKept (e : Event) : Bool := e.level.isKept && e.target ≠ ownTarget

/-- The line with one more field: the message goes to the front, anything else to the end. -/
def addField (line : String) (f : Field) : String :=
  if f.name = "message" then f.value.render ++ line
  else line ++ " " ++ f.name ++ "=" ++ f.value.render

/-- The message of an event followed by its other values by name. -/
def Event.line (e : Event) : String := e.fields.foldl addField ""

def Event.entry (e : Event) (now : Time.Instant) : Entry :=
  { level := e.level.name, target := e.target, message := e.line, createdAt := now }

end PeerHealth.Journal
