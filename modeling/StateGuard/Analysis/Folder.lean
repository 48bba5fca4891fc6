import StateGuard.Analysis.Input

/-!
# Folders of files

A working directory as a value: files by path, where a directory exists as far as a file lies in
it. Paths are followed one part at a time, so a path that goes through a file is refused before one
that leads nowhere.
-/

namespace StateGuard

/-- The files below a working directory, by path. -/
structure Folder where
  files : List (String × String)
  deriving DecidableEq, Repr, Inhabited

namespace Folder

/-- Where a path can lead. -/
inductive Place where
  | directory (path : List String)
  | file (text : String)
  deriving DecidableEq, Repr, Inhabited

/-- The text of the file at a path. -/
def text? (folder : Folder) (path : List String) : Option String :=
  (folder.files.find? fun (name, _) => pathSegments name == path).map (·.2)

/-- Whether some file lies below a path. -/
def hasDirectory (folder : Folder) (path : List String) : Bool :=
  folder.files.any fun (name, _) => path.isPrefixOf (pathSegments name)

/-- What stands under a path. -/
def place (folder : Folder) (path : List String) : Except ReadFailure Place :=
  match folder.text? path with
  | some text => .ok (.file text)
  | none => if folder.hasDirectory path then .ok (.directory path) else .error .notFound

/-- Follow one part of a path. Nothing is known outside the folder. -/
def step (folder : Folder) : Place → String → Except ReadFailure Place
  | .file _, _ => .error .notDirectory
  | .directory path, part =>
    if part = "" || part = "." then .ok (.directory path)
    else if part = ".." then
      if path.isEmpty then .error .notFound else .ok (.directory path.dropLast)
    else folder.place (path ++ [part])

/-- Read a file of the folder. -/
def read (folder : Folder) : FileReader := fun path =>
  if path = "" || path.startsWith "/" then .error .notFound
  else
    match (path.splitOn "/").foldlM folder.step (.directory []) with
    | .error failure => .error failure
    | .ok (.directory _) => .error .isDirectory
    | .ok (.file text) => .ok text

end Folder

end StateGuard
