import TagFilter.CommandLine.Request
import TagFilter.Config.Basic

/-!
# The environment of a command

What the command line takes from its environment, and where the configuration is: at a path that is
given, or else in the directory for configurations of the user.
-/

namespace TagFilter

namespace CommandLine

/-- What a command finds around it. -/
structure Environment where
  /-- The path of the configuration. -/
  config : Option String := none
  /-- The directory for configurations. -/
  configHome : Option String := none
  /-- The directory of the user, as the system knows it. -/
  home : Option String := none
  /-- Whether colors are not wanted. -/
  noColor : Bool := false
  deriving DecidableEq, Repr

/-- The path of a name in a directory. -/
def joinPath (directory name : String) : String :=
  if directory.isEmpty ∨ directory.toList.getLast? = some '/' then directory ++ name
  else directory ++ "/" ++ name

/-- The directory of the configuration. -/
def Environment.directory? (env : Environment) : Option String :=
  match env.configHome, env.home with
  | some directory, _ => some (joinPath directory "hfilter")
  | none, some home => some (joinPath (joinPath home ".config") "hfilter")
  | none, none => none

/-- The path of the configuration. -/
def Environment.configPath (env : Environment) (o : Options) : Except ConfigError String :=
  match o.config <|> env.config, env.directory? with
  | some path, _ => .ok path
  | none, some directory => .ok (joinPath directory "config.toml")
  | none, none => .error .noDirectory

end CommandLine

end TagFilter
