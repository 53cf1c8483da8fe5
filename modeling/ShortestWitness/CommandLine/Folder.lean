/-!
# Files in a folder

A folder without subfolders, in which paths are looked up component by component, and the reasons
for which a file cannot be read as text.
-/

namespace ShortestWitness.CommandLine

/-- Why a file cannot be read as text: nothing has the path, the path goes on after a file, it ends at a
folder, the bytes of the file are no text, or something else. -/
inductive ReadError where
  | missing
  | notFolder
  | isFolder
  | notText
  | other (text : String)
deriving DecidableEq, Repr

def ReadError.message : ReadError → String
  | .missing => "No such file or directory (os error 2)"
  | .notFolder => "Not a directory (os error 20)"
  | .isFolder => "Is a directory (os error 21)"
  | .notText => "stream did not contain valid UTF-8"
  | .other text => text

/-- The text that bytes encode. -/
def decodeText (bytes : ByteArray) : Except ReadError String :=
  (String.fromUTF8? bytes).elim (.error .notText) .ok

/-- Files by name. -/
abbrev Folder := List (String × ByteArray)

namespace Folder

/-- Where a path has led so far. From a folder outside no name leads back. -/
inductive Place where
  | here
  | outside
  | file (bytes : ByteArray)

/-- Follows one component of a path; an empty one and a single dot stay in a folder. -/
def follow (folder : Folder) (place : Place) (component : String) : Except ReadError Place :=
  match place with
  | .file _ => .error .notFolder
  | .here =>
    if component = "" ∨ component = "." then .ok .here
    else if component = ".." then .ok .outside
    else (folder.lookup component).elim (.error .missing) fun bytes => .ok (.file bytes)
  | .outside =>
    if component = "" ∨ component = "." ∨ component = ".." then .ok .outside else .error .missing

/-- Where a path leads, component by component; a path from the root starts outside. -/
def locate (folder : Folder) (path : String) : Except ReadError Place :=
  if path = "" then .error .missing
  else
    let start := if path.startsWith "/" then Place.outside else Place.here
    ((path.toList.splitOn '/').map String.ofList).foldlM (follow folder) start

/-- The text of the file at a path. -/
def read (folder : Folder) (path : String) : Except ReadError String := do
  match ← locate folder path with
  | .file bytes => decodeText bytes
  | _ => throw .isFolder

end Folder

end ShortestWitness.CommandLine
