import Superstep.Text.Fields

/-!
# Files

The commands read and write whole files. `FileAccess` is what they need for that, in any monad: the
program uses the files of the machine, and `Folder` is a folder of files kept in memory, for trying
commands out. An access that fails says why, in words.

A `Folder` is the root of its paths: `/name` is its file of that name. What lies around it is only
known to be folders: other paths, and what `..` leads to, are outside of it. Nothing is found there,
and what is written there is lost.

A path is followed step by step, from folder to folder. A file is no folder, so that there is no
step from it, not even `.`; a slash at the end of a path says that it is to lead to a folder.

Main statement: `get?_put`, what is put into a folder is found in it.
-/

namespace Superstep.Cli

/-- Reading and writing of whole files. -/
structure FileAccess (m : Type → Type) where
  read : String → m (Except String (List UInt8))
  write : String → String → m (Except String Unit)

/-- A folder without subfolders: names of files and what is in them. -/
structure Folder where
  files : List (String × String)

namespace Folder

/-- The reason when there is no file or folder of that name. -/
def notFound : String := "No such file or directory (os error 2)"

/-- The reason when a file is treated as a folder. -/
def notAFolder : String := "Not a directory (os error 20)"

/-- The reason when a folder is treated as a file. -/
def isAFolder : String := "Is a directory (os error 21)"

/-- The reason when a name or a path is too long. -/
def nameTooLong : String := "File name too long (os error 36)"

/-- The number of bytes that a name may have. -/
def nameLimit : Nat := 255

/-- The number of bytes that a path may have. -/
def pathLimit : Nat := 4095

/-- What is in a file. -/
def get? (folder : Folder) (name : String) : Option String := folder.files.lookup name

/-- Replaces a file, or adds one. -/
def put (folder : Folder) (name content : String) : Folder :=
  ⟨(name, content) :: folder.files.filter (·.1 ≠ name)⟩

/-! ## Paths -/

/-- A path: where it starts, its steps, and whether a slash ends it. -/
structure Path where
  fromRoot : Bool
  steps : List String
  endsInSlash : Bool

/-- The path that a text stands for. Slashes in a row count as one. -/
def Path.ofString (text : String) : Path :=
  let pieces := Text.pieces (· == '/') text.toList
  { fromRoot := text.startsWith "/"
    steps := (pieces.filter fun step => !step.isEmpty).map String.ofList
    endsInSlash := text.endsWith "/" }

/-- Where a path has led so far. -/
inductive Place where
  /-- The folder. -/
  | inside
  /-- A folder around it. -/
  | outside
  | file (content : String)

/-- Whether a step leads to a folder from every folder. -/
def isDots (step : String) : Bool := step = "." || step = ".."

/-- Takes one step. -/
def follow (folder : Folder) (place : Place) (step : String) : Except String Place :=
  match place with
  | .file _ => .error notAFolder
  | place =>
    if step = "." then .ok place
    else if step = ".." then .ok .outside
    else if step.utf8ByteSize > nameLimit then .error nameTooLong
    else
      match place, folder.get? step with
      | .inside, some content => .ok (.file content)
      | _, _ => .error notFound

/-- Where the first step of a path is taken from. -/
def start (path : Path) : Place := if path.fromRoot then .inside else .outside

/-- Refuses a path that is too long, or empty. -/
def checkPath (path : String) : Except String Unit :=
  if path.utf8ByteSize > pathLimit then .error nameTooLong
  else if path.isEmpty then .error notFound
  else .ok ()

/-! ## Access -/

/-- Reads a file. -/
def read (folder : Folder) (path : String) : Except String (List UInt8) := do
  checkPath path
  let path := Path.ofString path
  let steps := if path.endsInSlash then path.steps ++ ["."] else path.steps
  match ← steps.foldlM folder.follow (start path) with
  | .file content => return content.toUTF8.toList
  | _ => throw isAFolder

/-- Writes a file. All steps but the last must lead to a folder. -/
def write (folder : Folder) (path content : String) : Except String Folder := do
  checkPath path
  let path := Path.ofString path
  match path.steps.getLast? with
  | none => throw isAFolder
  | some name =>
    match ← path.steps.dropLast.foldlM folder.follow (start path) with
    | .file _ => throw notAFolder
    | place =>
      if isDots name || path.endsInSlash then throw isAFolder
      else if name.utf8ByteSize > nameLimit then throw nameTooLong
      else
        match place with
        | .inside => return folder.put name content
        | _ => return folder

/-- Access to the files of a folder. -/
def access : FileAccess (StateM Folder) where
  read path := do return (← get).read path
  write path content := do
    match (← get).write path content with
    | .ok folder => set folder; return .ok ()
    | .error reason => return .error reason

/-- What is put into a folder is found in it. -/
theorem get?_put (folder : Folder) (name content : String) :
    (folder.put name content).get? name = some content := by
  simp [put, get?]

end Folder

end Superstep.Cli
