import TagFilter.NameMap

/-!
# File trees

What stands at each place of a tree of files and directories, and the changes that a tree can
undergo.  `below?` is the view of a tree, and `below?_alter` says what a change does to it.
-/

namespace TagFilter

/-- A place in a file tree: the names that lead to it from the top, the last name first. -/
abbrev Place := List String

/-- The path that leads from the top to a place. -/
def Place.path (place : Place) : String :=
  "/" ++ "/".intercalate place.reverse

/-- A reason why something cannot be done at a place. -/
inductive FileError where
  /-- Nothing is there. -/
  | notFound
  /-- Something is there. -/
  | alreadyThere
  /-- What is on the way there is no directory. -/
  | notDirectory
  /-- What is there is a directory. -/
  | isDirectory
  /-- A name on the way there is too long. -/
  | nameTooLong
  /-- What is there is no text. -/
  | notText
  /-- The system does not allow it. -/
  | refused (reason : String)
  deriving DecidableEq, Repr

/-- The wording of a reason. -/
def FileError.message : FileError → String
  | .notFound => "No such file or directory (os error 2)"
  | .alreadyThere => "File exists (os error 17)"
  | .notDirectory => "Not a directory (os error 20)"
  | .isDirectory => "Is a directory (os error 21)"
  | .nameTooLong => "File name too long (os error 36)"
  | .notText => "stream did not contain valid UTF-8"
  | .refused reason => reason

/-- What stands at a place. -/
inductive FileState where
  /-- Nothing. -/
  | absent
  /-- A directory. -/
  | directory
  /-- A file that cannot be read. -/
  | unreadable (cause : FileError)
  /-- A file with a text. -/
  | text (content : String)
  deriving DecidableEq, Repr

/-- Whether something stands there. -/
def FileState.isPresent : FileState → Bool
  | .absent => false
  | _ => true

/-- A change of a file tree. -/
inductive FileChange where
  /-- A directory is made. -/
  | makeDirectory (place : Place)
  /-- A text is written to a file, which is made unless it is there. -/
  | write (place : Place) (content : String)
  deriving DecidableEq, Repr

namespace FileChange

/-- The place that a change concerns. -/
def place : FileChange → Place
  | .makeDirectory place => place
  | .write place _ => place

/-- What stands there after a change. -/
def result : FileChange → FileState
  | .makeDirectory _ => .directory
  | .write _ content => .text content

end FileChange

/-- A tree of files and directories. -/
inductive FileTree where
  /-- A file that cannot be read. -/
  | unreadable (cause : FileError)
  /-- A file with a text. -/
  | text (content : String)
  /-- A directory with what is in it. -/
  | directory (entries : NameMap FileTree)

namespace FileTree

/-- The directory with nothing in it. -/
def empty : FileTree := .directory NameMap.empty

/-- What stands at the top of a tree. -/
def top : FileTree → FileState
  | .unreadable cause => .unreadable cause
  | .text content => .text content
  | .directory _ => .directory

/-- The tree below names, the outermost of which is given first. -/
def below? : FileTree → List String → Option FileTree
  | t, [] => some t
  | .directory entries, name :: names => (entries.find? name).bind fun t => t.below? names
  | _, _ :: _ => none

/-- The tree with a change of what is below names.  Directories that are missing around it come to
be, and nothing comes to be below a file. -/
def alter (change : FileTree → FileTree) : FileTree → List String → FileTree
  | t, [] => change t
  | .directory entries, name :: names =>
    .directory (entries.insert name (alter change ((entries.find? name).getD empty) names))
  | t, _ :: _ => t

/-- What stands at a place. -/
def state (t : FileTree) (place : Place) : FileState :=
  ((t.below? place.reverse).map top).getD .absent

/-- The tree with a directory at its top, which keeps what is in it. -/
def asDirectory : FileTree → FileTree
  | .directory entries => .directory entries
  | _ => empty

/-- The tree in which something comes to stand at a place. -/
def put (t : FileTree) (place : Place) : FileState → FileTree
  | .absent => t
  | .directory => t.alter asDirectory place.reverse
  | .unreadable cause => t.alter (fun _ => .unreadable cause) place.reverse
  | .text content => t.alter (fun _ => .text content) place.reverse

/-- The tree in which nothing stands but what is listed. -/
def ofEntries (entries : List (Place × FileState)) : FileTree :=
  entries.foldl (fun t entry => t.put entry.1 entry.2) empty

/-- The tree after a change. -/
def apply (t : FileTree) (change : FileChange) : FileTree :=
  t.put change.place change.result

/-- The tree after changes, the first of which is made first. -/
def applyAll (t : FileTree) (changes : List FileChange) : FileTree :=
  changes.foldl apply t

theorem below?_alter {t s : FileTree} {names : List String} (change : FileTree → FileTree)
    (h : t.below? names = some s) : (t.alter change names).below? names = some (change s) := by
  induction names generalizing t with
  | nil => simp_all [below?, alter]
  | cons name names ih =>
    cases t with
    | directory entries =>
      simp only [below?, Option.bind_eq_some_iff] at h
      obtain ⟨u, hu, hs⟩ := h
      simp [alter, below?, NameMap.find?_insert_self, hu, ih hs]
    | unreadable cause => simp [below?] at h
    | text content => simp [below?] at h

end FileTree

/-- The files that a command works on. -/
structure FileSystem where
  /-- The place from which paths lead that do not lead from the top. -/
  start : Place
  /-- The files and directories. -/
  tree : FileTree

/-- The files after changes. -/
def FileSystem.applyAll (files : FileSystem) (changes : List FileChange) : FileSystem :=
  { files with tree := files.tree.applyAll changes }

end TagFilter
