/-!
# Log lines

What a step of an audit tells its user besides its result. Steps that log return their lines
beside their value, so that the value can be studied without them.
-/

namespace MockAudit

/-- Severity of a log line, least severe first. -/
inductive Severity
  | debug
  | info
  | warn
  | error
deriving DecidableEq

namespace Severity

/-- The rank of a level in the order of severity. -/
def rank : Severity → Nat
  | debug => 0
  | info => 1
  | warn => 2
  | error => 3

/-- The name of a level in configuration files. -/
def name : Severity → String
  | debug => "debug"
  | info => "info"
  | warn => "warn"
  | error => "error"

/-- All levels. -/
def all : List Severity := [debug, info, warn, error]

/-- The name of a level in log lines. -/
def label : Severity → String
  | debug => "DEBUG"
  | info => "INFO"
  | warn => "WARN"
  | error => "ERROR"

end Severity

/-- A line of the log. A line may cite how a reader of data or of patterns explains that it refuses
a text. Such an explanation is in the words of the reader, which stand behind the message. -/
structure LogLine where
  level : Severity
  message : String
  /-- What follows the words of the reader, if the line cites them. -/
  ending : String := ""
deriving DecidableEq

namespace LogLine

/-- A line for those who look for a fault. -/
def debug (message : String) : LogLine := { level := .debug, message }

/-- A line on the progress of an audit. -/
def info (message : String) : LogLine := { level := .info, message }

/-- A line on what may be a mistake. -/
def warn (message : String) : LogLine := { level := .warn, message }

/-- A line on what is wrong. -/
def error (message : String) : LogLine := { level := .error, message }

/-- The text of a log line, up to the words that it cites. -/
def text (line : LogLine) : String :=
  "[DOUBLECHECK " ++ line.level.label ++ "] " ++ line.message

/-- The whole text of a log line that cites the words of a reader. -/
def textCiting (line : LogLine) (words : String) : String :=
  line.text ++ words ++ line.ending

end LogLine

/-- A value with the lines logged on the way to it. -/
structure Logged (α : Type) where
  value : α
  lines : List LogLine

namespace Logged

variable {α β : Type}

instance : Monad Logged where
  pure a := ⟨a, []⟩
  bind x f := ⟨(f x.value).value, x.lines ++ (f x.value).lines⟩

/-- Writes one line. -/
def line (l : LogLine) : Logged Unit := ⟨(), [l]⟩

/-- Writes several lines. -/
def write (ls : List LogLine) : Logged Unit := ⟨(), ls⟩

@[simp] theorem value_pure (a : α) : (pure a : Logged α).value = a := rfl

@[simp] theorem lines_pure (a : α) : (pure a : Logged α).lines = [] := rfl

@[simp] theorem value_bind (x : Logged α) (f : α → Logged β) :
    (x >>= f).value = (f x.value).value := rfl

@[simp] theorem lines_bind (x : Logged α) (f : α → Logged β) :
    (x >>= f).lines = x.lines ++ (f x.value).lines := rfl

end Logged

end MockAudit
