import TagFilter.CommandLine.Environment
import TagFilter.Json
import TagFilter.SyntaxError

/-!
# Outcomes

What a command leaves: its status, what it prints, what it reports, and the changes that it makes to
the files.  A `Display` says how results are shown.
-/

namespace TagFilter

namespace CommandLine

/-- A failure of a command. -/
inductive Failure where
  /-- A text that is no filter. -/
  | filter (cause : SyntaxError)
  /-- A configuration that cannot be used. -/
  | config (cause : ConfigError)
  /-- A failure of the system. -/
  | io (reason : String)
  /-- A JSON value that cannot be printed. -/
  | json (reason : String)
  deriving DecidableEq

namespace Failure

/-- The wording of a failure. -/
def message : Failure → String
  | .filter cause => "filter error: " ++ cause.message
  | .config cause => "configuration error: " ++ cause.message
  | .io reason => "I/O error: " ++ reason
  | .json reason => "serialization error: " ++ reason

/-- The name of the kind of a failure. -/
def code : Failure → String
  | .filter _ => "FILTER_ERROR"
  | .config _ => "CONFIG_ERROR"
  | .io _ => "IO_ERROR"
  | .json _ => "JSON_ERROR"

/-- The status of a command that failed. -/
def status : Failure → Nat
  | .filter _ => 1
  | .config _ => 5
  | .io _ => 3
  | .json _ => 1

/-- The JSON description of a failure. -/
def describe (e : Failure) : Json :=
  .ofFields [("error", .ofFields [("code", .text e.code), ("message", .text e.message)])]

/-- The description of a failure as a line of text. -/
def line (e : Failure) : String :=
  "Error: " ++ e.message

end Failure

/-- What a command leaves. -/
structure Outcome where
  /-- The status. -/
  status : Nat
  /-- What is printed. -/
  output : String
  /-- What is logged, and what is reported apart from the results. -/
  errors : String
  /-- The changes to the files. -/
  changes : List FileChange := []
  deriving DecidableEq, Repr

/-- The files after an outcome. -/
def Outcome.after (o : Outcome) (files : FileSystem) : FileSystem :=
  files.applyAll o.changes

/-- Lines, each with its break. -/
def unlines (lines : List String) : String :=
  String.join (lines.map (· ++ "\n"))

/-- What a command that does not fail tells. -/
structure Told where
  /-- What is printed. -/
  output : String
  /-- The lines that are reported apart from the results. -/
  reports : List String := []
  deriving DecidableEq, Repr

/-- Lines that are printed, and lines that are reported. -/
def Told.ofLines (lines : List String) (reports : List String := []) : Told :=
  ⟨unlines lines, reports⟩

/-- How results are shown. -/
structure Display where
  /-- As JSON. -/
  json : Bool
  /-- With colors. -/
  colors : Bool
  /-- Without what is not asked for. -/
  quiet : Bool
  deriving DecidableEq, Repr

namespace Display

/-- The display that options and environment ask for. -/
def ofOptions (env : Environment) (o : Options) : Display :=
  ⟨o.json, !o.noColor && !env.noColor, o.quiet⟩

/-- The display with what a configuration asks for besides. -/
def configured (d : Display) (c : Config) : Display :=
  { d with json := d.json || c.json == some true, colors := d.colors && c.color != some false }

/-- A text in the color of a number. -/
def colored (d : Display) (number text : String) : String :=
  if d.colors then "\x1b[" ++ number ++ "m" ++ text ++ "\x1b[39m" else text

/-- A text in bold. -/
def bold (d : Display) (text : String) : String :=
  if d.colors then "\x1b[1m" ++ text ++ "\x1b[0m" else text

/-- A heading. -/
def heading (d : Display) (text : String) : String :=
  d.bold (d.colored "32" text)

/-- The word before a warning. -/
def caution (d : Display) (text : String) : String :=
  d.bold (d.colored "33" text)

/-- The name of a kind of nodes. -/
def kindName (d : Display) (text : String) : String :=
  d.colored "36" text

/-- Lines that are left out where less is to be shown. -/
def unlessQuiet (d : Display) (lines : List String) : List String :=
  if d.quiet then [] else lines

end Display

end CommandLine

end TagFilter
