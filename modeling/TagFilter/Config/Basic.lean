import TagFilter.FileTree.Basic
import TagFilter.Namespace.Basic

/-!
# Configurations

A configuration says how results are shown and which defs there are.  `Config.toNamespace` is the
namespace that its defs describe, in which each def is the record `DefConfig.record` of its table.
-/

namespace TagFilter

/-- What a configuration says about a def. -/
structure DefConfig where
  /-- The names of the defs that it is a subtype of. -/
  supertypes : List String := []
  /-- The names of the tags that imply it. -/
  impliedBy : List String := []
  /-- Whether it is a relationship that leads on through records. -/
  transitive : Bool := false
  /-- The term that it stands for in each of the relationships of which it is a ref tag. -/
  relationships : NameMap String := NameMap.empty
  /-- The names of the relationships are in order. -/
  sorted : relationships.Sorted := by decide

/-- A configuration. -/
structure Config where
  /-- The version of the layout. -/
  version : Nat := 1
  /-- Whether colors may be shown. -/
  color : Option Bool := none
  /-- Whether results are always shown as JSON. -/
  json : Option Bool := none
  /-- The defs by name. -/
  defs : NameMap DefConfig := NameMap.empty
  /-- The names of the defs are in order. -/
  sorted : defs.Sorted := by decide

/-- A failure to find, read, use or write a configuration. -/
inductive ConfigError where
  /-- There is no directory for the file. -/
  | noDirectory
  /-- The file cannot be read. -/
  | unreadable (cause : FileError)
  /-- The text of the file is no configuration. -/
  | malformed (reason : String)
  /-- The layout of the file is of a version to come. -/
  | newer (version : Nat)
  /-- A name in the file is no symbol. -/
  | invalidSymbol (name : String) (cause : ModelError)
  /-- A def of the file makes no def of a namespace. -/
  | invalidDef (name : String) (cause : ModelError)
  /-- The file to be written is there before. -/
  | alreadyExists (path : String)
  /-- The directory for the file cannot be made. -/
  | noDirectoryMade (cause : FileError)
  /-- The file cannot be written. -/
  | unwritable (cause : FileError)
  deriving DecidableEq, Repr

/-- The latest version of the layout. -/
def Config.latestVersion : Nat := 1

/-- The wording of a failure. -/
def ConfigError.message : ConfigError → String
  | .noDirectory => "Could not determine config directory"
  | .unreadable cause => "Failed to read config: " ++ cause.message
  | .malformed reason => "Failed to parse config: " ++ reason
  | .newer version =>
    "Config version " ++ toString version ++ " is newer than supported version "
      ++ toString Config.latestVersion
  | .invalidSymbol name cause => "Invalid symbol '" ++ name ++ "': " ++ cause.message
  | .invalidDef name cause => "Invalid def '" ++ name ++ "': " ++ cause.message
  | .alreadyExists path => "Config already exists at " ++ path ++ " (use --force to overwrite)"
  | .noDirectoryMade cause => "Failed to create config directory: " ++ cause.message
  | .unwritable cause => "Failed to write config: " ++ cause.message

/-- The symbol of a name in a configuration. -/
def configSymbol (name : String) : Except ConfigError Symbol :=
  (Symbol.ofText? name).mapError (.invalidSymbol name)

/-- A tag with a list of symbols, unless the list is empty. -/
def symbolsTag (tag : String) (symbols : List Symbol) : List (String × Value) :=
  if symbols.isEmpty then [] else [(tag, .list (symbols.map .symbol))]

/-- The record of a def.  A relationship sets the tag of its own name, whatever that is. -/
def DefConfig.record (d : DefConfig) (name : String) : Except ConfigError Record := do
  let symbol ← configSymbol name
  let supertypes ← d.supertypes.mapM configSymbol
  let impliedBy ← d.impliedBy.mapM configSymbol
  let terms ← d.relationships.entries.mapM fun entry => do
    pure (entry.1, Value.symbol (← configSymbol entry.2))
  pure (NameMap.ofList ([("def", .symbol symbol)] ++ symbolsTag "is" supertypes
    ++ symbolsTag "impliedBy" impliedBy ++ (if d.transitive then [("transitive", .marker)] else [])
    ++ terms))

namespace Config

/-- A namespace with the def of an entry of a configuration. -/
def insertDef (ns : Namespace) (entry : String × DefConfig) : Except ConfigError Namespace := do
  (ns.insert (← entry.2.record entry.1)).mapError (.invalidDef entry.1)

/-- The namespace of the defs of a configuration. -/
def toNamespace (c : Config) : Except ConfigError Namespace :=
  c.defs.entries.foldlM insertDef Namespace.empty

/-- A configuration of the latest layout, if it is not of a version to come. -/
def updated (c : Config) : Except ConfigError Config :=
  if latestVersion < c.version then .error (.newer c.version)
  else .ok { c with version := latestVersion }

end Config

end TagFilter
