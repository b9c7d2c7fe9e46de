import OfdmBurst.Fault
import OfdmBurst.Text.Numeral
import OfdmBurst.Text.Shortest

/-!
# Settings

Settings are values under names. Two names are known, the limit of new message queues and the log
level. Their values are read from the text of what is set, and a text that cannot be read leaves the
old value in force. All other names keep the value they are given, and it can be asked for as any
kind that its text can be read as.

## Main definitions

* `Setting`: a value as it was given, and its text
* `Settings.set`, `Settings.find?`: changing and asking
* `Setting.readAs`: a value read as a kind
* `LogLevel.read`: the texts of the log levels
-/

namespace OfdmBurst

/-- A value as it was given. -/
inductive Setting where
  | flag (b : Bool)
  | integer (n : Int)
  | real (x : Float)
  | text (s : String)

/-- The text of a value. -/
def Setting.written : Setting → String
  | .flag b => if b then "true" else "false"
  | .integer n => toString n
  | .real x => Text.ofFloat x
  | .text s => s

/-- What a value can be asked for as. -/
inductive Setting.Kind where
  | byte
  | word
  | integer
  | real
  | flag
  | text

/-- A value read as a kind, from its text. -/
def Setting.readAs (kind : Setting.Kind) (s : Setting) : Option Setting :=
  match kind with
  | .byte => (Text.readNatural 256 s.written).map fun n => .integer n
  | .word => (Text.readNatural 4294967296 s.written).map fun n => .integer n
  | .integer =>
    (Text.readInteger Int64.minValue.toInt (Int64.maxValue.toInt + 1) s.written).map .integer
  | .real => (Text.readReal s.written).map .real
  | .flag => (Text.readFlag s.written).map .flag
  | .text => some (.text s.written)

/-! ### Log levels -/

/-- How much is logged, from nothing to everything. -/
inductive LogLevel where
  | off
  | error
  | warn
  | info
  | debug
  | trace
deriving DecidableEq, Repr

namespace LogLevel

/-- The levels in order. -/
def all : List LogLevel := [off, error, warn, info, debug, trace]

/-- The name of a level. -/
def name : LogLevel → String
  | off => "off"
  | error => "error"
  | warn => "warn"
  | info => "info"
  | debug => "debug"
  | trace => "trace"

/-- A level is read from its place in the order or from its name in any case. The empty text stands
for errors only. -/
def read (text : String) : Option LogLevel :=
  match (Text.readNatural wordLimit text).bind (all[·]?) with
  | some level => some level
  | none =>
    if text = "" then some error
    else all.find? fun level => level.name.toList == text.toList.map Char.toLower

end LogLevel

/-! ### The store -/

/-- The settings in force. -/
structure Settings where
  queueLimit : Nat := 0
  logLevel : LogLevel := .info
  others : List (String × Setting) := []

namespace Settings

/-- Set the value of a name. -/
def set (s : Settings) (name : String) (value : Setting) : Settings :=
  if name = "msg_queue_limit" then
    { s with queueLimit := (Text.readNatural wordLimit value.written).getD s.queueLimit }
  else if name = "log_level" then
    { s with logLevel := (LogLevel.read value.written).getD s.logLevel }
  else { s with others := (name, value) :: s.others.filter (·.1 != name) }

/-- The value of a name that is not one of the two known ones. -/
def find? (s : Settings) (name : String) : Option Setting := s.others.lookup name

/-- The value of a name, read as a kind. -/
def readAs (s : Settings) (kind : Setting.Kind) (name : String) : Option Setting :=
  (s.find? name).bind (Setting.readAs kind)

end Settings

end OfdmBurst
