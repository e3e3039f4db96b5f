/-!
# Requests

What is asked for on the command line: a command, and options that every command takes.
-/

namespace TagFilter

namespace CommandLine

/-- The options that every command takes. -/
structure Options where
  /-- Whether more is shown. -/
  verbose : Bool := false
  /-- Whether less is shown. -/
  quiet : Bool := false
  /-- Whether results are shown as JSON. -/
  json : Bool := false
  /-- Whether colors are left out. -/
  noColor : Bool := false
  /-- The path of the configuration. -/
  config : Option String := none
  deriving DecidableEq, Repr

/-- A command on a filter. -/
inductive FilterCommand where
  /-- Whether it can be read. -/
  | check
  /-- Its canonical text. -/
  | format
  /-- Its tree. -/
  | outline
  /-- Its lowered text. -/
  | lower
  /-- Its text with implied tags. -/
  | expand
  deriving DecidableEq, Repr

/-- A command on the configuration. -/
inductive ConfigCommand where
  /-- What it says. -/
  | show
  /-- Where it is. -/
  | path
  /-- Make one to begin with, in place of one that is there if forced to. -/
  | init (force : Bool)
  deriving DecidableEq, Repr

/-- A shell that can complete commands. -/
inductive Shell where
  | bash
  | zsh
  | fish
  | powershell
  deriving DecidableEq, Repr

/-- A command. -/
inductive Command where
  /-- A command on the filter of a text. -/
  | filter (command : FilterCommand) (text : String)
  /-- A command on the configuration. -/
  | config (command : ConfigCommand)
  /-- The script with which a shell completes commands. -/
  | completions (shell : Shell)
  deriving DecidableEq, Repr

/-- What is asked for. -/
structure Request where
  /-- The options. -/
  options : Options
  /-- The command. -/
  command : Command
  deriving DecidableEq, Repr

end CommandLine

end TagFilter
