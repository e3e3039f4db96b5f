import TagFilter.CommandLine.Outcome
import TagFilter.Log

/-!
# Libraries

What the command line leaves to libraries: to read the arguments and the text of a configuration,
to print JSON, to show what is logged, and to write scripts for shells.
-/

namespace TagFilter

namespace CommandLine

/-- The libraries. -/
structure Libraries where
  /-- What arguments ask for.  Otherwise what is left at once: a text of help, or a report of what
  is wrong with the arguments. -/
  readArguments : Environment → List String → Except Outcome Request
  /-- The configuration that a text holds, in its own version of the layout, or the reason why there
  is none. -/
  readConfig : String → Except String Config
  /-- A JSON value on lines with indentation, or the reason why it cannot be printed. -/
  printJson : Json → Except String String
  /-- The line that shows a message, if it is shown.  The level is the one from which on messages
  are shown, unless the logger is told otherwise by its own settings. -/
  logLine : LogLevel → LogMessage → Option String
  /-- The script with which a shell completes commands. -/
  completions : Shell → String

/-- The level from which on messages are shown. -/
def Options.logLevel (o : Options) : LogLevel :=
  if o.verbose then .debug else if o.quiet then .error else .warn

namespace Libraries

variable (libs : Libraries)

/-- The configuration that stands at a place, in the latest layout; nothing stands for the one with
all defaults. -/
def configOf : FileState → Except ConfigError Config
  | .absent => .ok {}
  | .directory => .error (.unreadable .isDirectory)
  | .unreadable cause => .error (.unreadable cause)
  | .text content => do
    let c ← (libs.readConfig content).mapError .malformed
    c.updated

/-- A JSON value that is printed. -/
def tellJson (j : Json) : Except Failure Told := do
  let text ← (libs.printJson j).mapError .json
  return .ofLines [text]

/-- The report of a failure, as JSON or not.  Where the JSON cannot be printed there is the line of
text. -/
def report (json : Bool) (e : Failure) : String :=
  if json then
    match libs.printJson e.describe with
    | .ok text => text
    | .error _ => e.line
  else e.line

end Libraries

end CommandLine

end TagFilter
