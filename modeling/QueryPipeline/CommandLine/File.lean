/-!
# Files

Why a file cannot be read, and folders held in memory, in which the program can be tried without a
file system.
-/

namespace QueryPipeline

/-- Why a file cannot be read. -/
inductive FileFault where
  | missing
  | denied
  | notDirectory
  | isDirectory
  | notText
  | other (description : String)
deriving Repr, DecidableEq

/-- The wording of the reason, with the system's error number where it has one. -/
def FileFault.message : FileFault → String
  | missing => "No such file or directory (os error 2)"
  | denied => "Permission denied (os error 13)"
  | notDirectory => "Not a directory (os error 20)"
  | isDirectory => "Is a directory (os error 21)"
  | notText => "stream did not contain valid UTF-8"
  | other description => description

/-- A folder of files without folders in it: names and texts. -/
structure Folder where
  files : List (String × String)
deriving Repr, DecidableEq

/-- The parts of a path that lead somewhere. -/
def pathParts (path : String) : List String :=
  (path.splitOn "/").filter fun part => !part.isEmpty && part != "."

/-- The text of a file, by its path from the folder. -/
def Folder.read (folder : Folder) (path : String) : Except FileFault String :=
  if path.isEmpty then .error .missing
  else
    match pathParts path with
    | [] => .error .isDirectory
    | name :: deeper =>
      match folder.files.lookup name with
      | none => .error .missing
      | some text =>
        if deeper.isEmpty && !path.endsWith "/" then .ok text else .error .notDirectory

end QueryPipeline
