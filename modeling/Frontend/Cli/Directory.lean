import Frontend.Text.Pieces

/-!
# Directories

A directory is a list of named files.  A path is followed from name to name; it may miss, it may end
at a directory, or it may go on where a file stands.
-/

namespace Frontend.Cli

/-- Why the text at a path cannot be had, which is what `read_to_string` fails with. -/
inductive ReadFault where
  | notFound | isDirectory | notDirectory | notText
  | refused (reason : String)

/-- The wording of such a fault, which for the files of a directory is that of the system. -/
def ReadFault.message : ReadFault → String
  | notFound => "No such file or directory (os error 2)"
  | isDirectory => "Is a directory (os error 21)"
  | notDirectory => "Not a directory (os error 20)"
  | notText => "stream did not contain valid UTF-8"
  | refused reason => reason

/-- The bytes of each file, by its path in the directory that a run is started in. -/
structure Directory where
  files : List (String × ByteArray)

/-- The names along a path.  Empty names and single dots stay where they are. -/
def pathNames (path : String) : List (List Char) :=
  (pieces '/' path.toList).filter fun name => name ≠ [] ∧ name ≠ ['.']

/-- Whether a path asks for a directory by the way it ends. -/
def endsAtDirectory (path : String) : Bool :=
  match (pieces '/' path.toList).getLast? with
  | some [] | some ['.'] | some ['.', '.'] => true
  | _ => false

namespace Directory

/-- The bytes of the file at a path.  Only the directory itself, and the root and the parents as
directories, are known. -/
def read? (directory : Directory) (path : String) : Except ReadFault ByteArray :=
  let names := pathNames path
  let files := directory.files.map fun (name, bytes) => (pathNames name, bytes)
  if names.all (· = ['.', '.']) then .error .isDirectory
  else if path.toList.head? = some '/' then .error .notFound
  else
    match files.find? fun (name, _) => name.isPrefixOf names with
    | some (name, bytes) =>
        if name = names ∧ ¬ endsAtDirectory path then .ok bytes else .error .notDirectory
    | none =>
        if files.any fun (name, _) => names.isPrefixOf name then .error .isDirectory
        else .error .notFound

end Directory

end Frontend.Cli
