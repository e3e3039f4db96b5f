import TagFilter.CommandLine.Libraries
import TagFilter.CommandLine.Warnings
import TagFilter.Config.Creation
import TagFilter.Filter.Outline
import TagFilter.Namespace.Related

/-!
# Running commands

The outcome of a command, given the libraries, its environment and the files.  A command on a filter
reads the configuration before the filter, and the defs of the configuration only where it needs
them.

A run logs messages and may fail.  It need not end, since the expansion of implied tags need not.
-/

namespace TagFilter

namespace CommandLine

/-- A run of a command: what it comes to and the messages that are logged until then, if it ends. -/
abbrev Run := ExceptT Failure (StateT (List LogMessage) Option)

namespace Run

/-- The run that logs messages. -/
def log (messages : List LogMessage) : Run Unit :=
  modify (· ++ messages)

/-- The run that comes to a result or a failure at once. -/
def ofExcept {α : Type} (x : Except Failure α) : Run α :=
  ExceptT.mk (pure x)

/-- The run that takes a value, if there ever is one. -/
def await {α : Type} (value : Option α) : Run α :=
  liftM value

end Run

/-! ### Reading -/

/-- A message about the configuration. -/
def configMessage (text : String) : LogMessage :=
  ⟨.debug, "hfilter::commands::config", text⟩

/-- The filter of a text. -/
def readFilter (text : String) : Run Filter := do
  Run.log (readingLog text)
  Run.ofExcept ((Filter.ofText? text).mapError .filter)

/-- The namespace of a configuration. -/
def readTypes (c : Config) : Run Namespace := do
  let types ← Run.ofExcept (c.toNamespace.mapError .config)
  Run.log [configMessage ("loaded " ++ toString types.defs.size ++ " def(s) from config")]
  return types

/-- The configuration at a path. -/
def Libraries.loadConfig (libs : Libraries) (path : String) (files : FileSystem) : Run Config := do
  let state := files.stateAt path
  unless state.isPresent do
    Run.log [configMessage ("no config at " ++ path ++ ", using defaults")]
  Run.ofExcept ((libs.configOf state).mapError .config)

/-! ### Commands on filters -/

section FilterCommands

variable (libs : Libraries) (d : Display)

/-- What is told of a filter that can be read. -/
def checked (f : Filter) : Except Failure Told :=
  if d.json then
    libs.tellJson (.ofFields [("valid", .bool true), ("filter", .text (Filter.toText f))])
  else .ok (.ofLines (d.unlessQuiet [d.heading "ok" ++ " " ++ Filter.toText f]))

/-- The canonical text of a filter. -/
def formatted (f : Filter) : Except Failure Told :=
  if d.json then libs.tellJson (.ofFields [("filter", .text (Filter.toText f))])
  else .ok (.ofLines [Filter.toText f])

/-- The line of a node in the tree of a filter. -/
def outlineLine (v : Visit) : String :=
  String.ofList (List.replicate (2 * v.depth) ' ') ++ d.kindName v.kind
    ++ (if v.isComposite then "" else " " ++ v.text)

/-- The tree of a filter. -/
def outlined (f : Filter) : Except Failure Told :=
  if d.json then libs.tellJson (Node.filter f).describe
  else .ok (.ofLines ((Filter.visits f).map (outlineLine d)))

/-- The lines of warnings. -/
def warningLines (warnings : List String) : List String :=
  d.unlessQuiet (warnings.map fun warning => d.caution "warning:" ++ " " ++ warning)

/-- The line that says that results have to be filtered again. -/
def requeryNote : String :=
  "note: v3 results must be filtered again with the original filter"

/-- The lowered text of a filter. -/
def lowered (ns : Namespace) (f : Filter) : Except Failure Told :=
  let result := (Node.filter f).lower ns
  let warnings := Filter.warnings ns f
  if d.json then
    libs.tellJson (.ofFields [("filter", .text result.text), ("requery", .bool result.requery),
      ("warnings", .texts warnings)])
  else
    .ok (.ofLines [result.text]
      (warningLines d warnings ++ d.unlessQuiet (if result.requery then [requeryNote] else [])))

/-- The text of a filter with implied tags. -/
def expanded (ns : Namespace) (f : Filter) (text : String) : Except Failure Told :=
  let warnings := Filter.warnings ns f
  if d.json then
    libs.tellJson (.ofFields [("filter", .text text), ("warnings", .texts warnings)])
  else .ok (.ofLines [text] (warningLines d warnings))

/-- The run of a command on the filter of a text. -/
def FilterCommand.run (command : FilterCommand) (c : Config) (text : String) : Run Told :=
  match command with
  | .check => do
    let f ← readFilter text
    Run.ofExcept (checked libs d f)
  | .format => do
    let f ← readFilter text
    Run.ofExcept (formatted libs d f)
  | .outline => do
    let f ← readFilter text
    Run.ofExcept (outlined libs d f)
  | .lower => do
    let types ← readTypes c
    let f ← readFilter text
    Run.log ((Node.filter f).loweringLog types)
    Run.ofExcept (lowered libs d types f)
  | .expand => do
    let types ← readTypes c
    let f ← readFilter text
    let text ← Run.await ((Node.filter f).expand types)
    Run.log (← Run.await ((Node.filter f).expansionLog types))
    Run.ofExcept (expanded libs d types f text)

end FilterCommands

/-! ### Commands on the configuration -/

section ConfigCommands

variable (libs : Libraries) (d : Display) (path : String)

/-- The place of the configuration. -/
def located (state : FileState) : Except Failure Told :=
  if d.json then
    libs.tellJson (.ofFields [("path", .text path), ("exists", .bool state.isPresent)])
  else .ok (.ofLines [path])

/-- The lines that say what is in a configuration. -/
def shownLines (state : FileState) (c : Config) : List String :=
  if state.isPresent then c.lines
  else ["(No config file exists. Run 'hfilter config init' to create one.)"]

/-- What a configuration says. -/
def shown (state : FileState) (c : Config) : Except Failure Told :=
  if d.json then
    libs.tellJson (.ofFields [("path", .text path), ("exists", .bool state.isPresent),
      ("config", c.toJson)])
  else
    .ok (.ofLines (d.unlessQuiet ([d.heading "Configuration", "", "File: " ++ path,
      "Exists: " ++ Config.boolText state.isPresent, ""] ++ shownLines state c)))

/-- The place of a configuration that was created. -/
def created : Except Failure Told :=
  if d.json then libs.tellJson (.ofFields [("status", .text "success"), ("path", .text path)])
  else .ok (.ofLines (d.unlessQuiet ["Created config at: " ++ path]))

/-- The run of a command on the configuration at a path. -/
def ConfigCommand.run (command : ConfigCommand) (files : FileSystem) : Run Told :=
  let state := files.stateAt path
  match command with
  | .path => Run.ofExcept (located libs d path state)
  | .show => do
    let c ← libs.loadConfig path files
    Run.ofExcept (shown libs d path state c)
  | .init force =>
    match (Config.create files path force).failure with
    | some e => throw (.config e)
    | none => Run.ofExcept (created libs d path)

/-- The changes that a command on the configuration at a path makes, also if it fails. -/
def ConfigCommand.changes (command : ConfigCommand) (files : FileSystem) : List FileChange :=
  match command with
  | .init force => (Config.create files path force).changes
  | _ => []

end ConfigCommands

/-! ### Requests -/

namespace Request

variable (libs : Libraries) (r : Request) (env : Environment) (files : FileSystem)

/-- The run of a request.  Scripts are there without a configuration. -/
def run : Run Told := do
  let d := Display.ofOptions env r.options
  match r.command with
  | .completions shell => return ⟨libs.completions shell, []⟩
  | .config command =>
    let path ← Run.ofExcept ((env.configPath r.options).mapError .config)
    command.run libs d path files
  | .filter command text =>
    let path ← Run.ofExcept ((env.configPath r.options).mapError .config)
    let c ← libs.loadConfig path files
    command.run libs (d.configured c) c text

/-- The changes that a request makes, also if it fails. -/
def changes : List FileChange :=
  match r.command, env.configPath r.options with
  | .config command, .ok path => command.changes path files
  | _, _ => []

/-- The outcome of a run that told something or failed, with what was logged. -/
def outcomeOf (changes : List FileChange) : Except Failure Told × List LogMessage → Outcome
  | (.ok told, log) => ⟨0, told.output,
      unlines (log.filterMap (libs.logLine r.options.logLevel) ++ told.reports), changes⟩
  | (.error e, log) => ⟨e.status, "",
      unlines (log.filterMap (libs.logLine r.options.logLevel)
        ++ [libs.report r.options.json e]), changes⟩

/-- What a request leaves, if it ends. -/
def outcome : Option Outcome :=
  ((r.run libs env files).run.run []).map (r.outcomeOf libs (r.changes env files))

end Request

/-- What the command line leaves, if it ends. -/
def outcome (libs : Libraries) (env : Environment) (files : FileSystem) (arguments : List String) :
    Option Outcome :=
  match libs.readArguments env arguments with
  | .ok r => r.outcome libs env files
  | .error left => some left

end CommandLine

end TagFilter
