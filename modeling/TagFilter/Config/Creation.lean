import TagFilter.Config.Basic
import TagFilter.Config.Report
import TagFilter.FileTree.Making

/-!
# Creating configurations

The file of the configuration to begin with is written at a path, in a directory that is made if it
is missing.  What stands at the path is only replaced on demand.
-/

namespace TagFilter

/-- What is done to a file tree: the changes that are made and, if it fails, the failure after
them. -/
structure Attempt where
  /-- The changes. -/
  changes : List FileChange := []
  /-- The failure. -/
  failure : Option ConfigError := none
  deriving DecidableEq, Repr

/-- The attempt to create the configuration at a path. -/
def Config.create (files : FileSystem) (path : String) (force : Bool) : Attempt :=
  if (files.stateAt path).isPresent ∧ ¬ force then ⟨[], some (.alreadyExists path)⟩
  else
    let making := files.makeDirectories (Route.ofText (directoryPath path))
    let changes := making.made.reverse.map .makeDirectory
    match making.reached with
    | .error e => ⟨changes, some (.noDirectoryMade e)⟩
    | .ok _ =>
      match FileSystem.writable ⟨files.start, making.tree⟩ (Route.ofText path) with
      | .ok place => ⟨changes ++ [.write place Config.initialText], none⟩
      | .error e => ⟨changes, some (.unwritable e)⟩

end TagFilter
