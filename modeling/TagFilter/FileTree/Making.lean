import TagFilter.FileTree.Route

/-!
# Making directories and files

The changes by which directories and files come to be at the end of a path.  Directories that are
missing on the way are made from the outermost on, and those that are made before a failure remain.
-/

namespace TagFilter

/-- How far directories are made along steps. -/
structure Making where
  /-- The files and directories there are. -/
  tree : FileTree
  /-- The directories made, the last of them first. -/
  made : List Place
  /-- The directory that is reached, or the reason why none is. -/
  reached : Except FileError Place

namespace Making

/-- The making that goes no further. -/
def fail (m : Making) (e : FileError) : Making :=
  { m with reached := .error e }

/-- The making with the directory at a place, which is made if nothing is there. -/
def enter (m : Making) (place : Place) : Making :=
  match m.tree.state place with
  | .absent => ⟨m.tree.put place .directory, place :: m.made, .ok place⟩
  | .directory => { m with reached := .ok place }
  | _ => m.fail .alreadyThere

/-- The making after one more step.  A file in the way of a step is no directory to go on from;
once directories are made on the way, the file is where one more had to be made. -/
def step (m : Making) (s : PathStep) : Making :=
  match m.reached with
  | .ok place => if s.isTooLong then m.fail .nameTooLong else m.enter (s.move place)
  | .error .alreadyThere => if m.made.isEmpty then m.fail .notDirectory else m
  | .error _ => m

end Making

namespace FileSystem

/-- The making of all directories along a route. -/
def makeDirectories (files : FileSystem) (r : Route) : Making :=
  let begun : Making := ⟨files.tree, [], .ok (r.origin files.start)⟩
  if Route.maxSize < r.size then begun.fail .nameTooLong
  else r.steps.foldr (fun s m => m.step s) begun

/-- The place of the file at the end of a route, if it can be written there.  A route that ends in a
slash is that of a directory, whatever its last step is. -/
def writable (files : FileSystem) (r : Route) : Except FileError Place := do
  if r.endsInSlash then
    let _ ← files.find { r with steps := .stay :: r.steps.tail }
    .error .isDirectory
  else
    let place ← files.find r
    if files.state place = .directory then .error .isDirectory else .ok place

end FileSystem

end TagFilter
