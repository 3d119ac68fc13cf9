namespace Sipl

/-! A directory holds files by name, and a path leads from it to a file or fails on the way.
Nothing is known of what stands outside the directory, except that it is made of directories. -/

/-- Why a file could not be read. -/
inductive ReadFailure where
  | notFound
  | permissionDenied
  | notDirectory
  | isDirectory
  | nameTooLong
  | notText
  | other (description : String)
  deriving DecidableEq, Inhabited

def ReadFailure.message : ReadFailure → String
  | notFound => "No such file or directory (os error 2)"
  | permissionDenied => "Permission denied (os error 13)"
  | notDirectory => "Not a directory (os error 20)"
  | isDirectory => "Is a directory (os error 21)"
  | nameTooLong => "File name too long (os error 36)"
  | notText => "stream did not contain valid UTF-8"
  | other description => description

/-- The text that the bytes of a file stand for. -/
def decodeFile (bytes : ByteArray) : Except ReadFailure String :=
  match String.fromUTF8? bytes with
  | some text => .ok text
  | none => .error .notText

/-- The files below a directory, by the names that lead to them. -/
structure Directory where
  files : List (List String × Except ReadFailure String)
  deriving Inhabited

/-- What a path leads to. -/
inductive Entry where
  | file (content : Except ReadFailure String)
  | directory
  deriving Inhabited

/-- A place on the way along a path. -/
inductive Location where
  /-- The names that lead there from the directory. -/
  | inside (names : List String)
  | outside
  deriving DecidableEq, Inhabited

namespace Directory

/-- Every directory on the way to a file exists, and so does the directory itself. -/
def entry? (directory : Directory) : Location → Option Entry
  | .outside => some .directory
  | .inside names =>
    match directory.files.lookup names with
    | some content => some (.file content)
    | none =>
      if names.isEmpty || directory.files.any fun file => names.isPrefixOf file.1 then
        some .directory
      else
        none

/-- The longest name of a file, in bytes. -/
def longestName : Nat := 255

/-- The longest path, in bytes. -/
def longestPath : Nat := 4095

/-- Take one step from a place that is a directory.  Outside, only directories above are known. -/
def step (place : Location) (name : String) : Except ReadFailure Location :=
  if name = "" ∨ name = "." then .ok place
  else if name = ".." then
    match place with
    | .outside | .inside [] => .ok .outside
    | .inside names => .ok (.inside names.dropLast)
  else if longestName < name.utf8ByteSize then .error .nameTooLong
  else
    match place with
    | .outside => .error .notFound
    | .inside names => .ok (.inside (names ++ [name]))

/-- Follow names from a place.  Whatever has a step behind it must be a directory. -/
def walk (directory : Directory) (place : Location) : List String → Except ReadFailure Entry
  | [] =>
    match directory.entry? place with
    | some entry => .ok entry
    | none => .error .notFound
  | name :: rest =>
    match directory.entry? place with
    | none => .error .notFound
    | some (.file _) => .error .notDirectory
    | some .directory =>
      match step place name with
      | .ok next => directory.walk next rest
      | .error failure => .error failure

/-- The parts of a path between its slashes. -/
def parts (path : String) : List String := (path.toList.splitOn '/').map String.ofList

/-- Read the file at a path.  A path that starts with a slash starts outside. -/
def read (directory : Directory) (path : String) : Except ReadFailure String :=
  if path.isEmpty then .error .notFound
  else if longestPath < path.utf8ByteSize then .error .nameTooLong
  else
    let start := if path.toList.head? = some '/' then Location.outside else .inside []
    match directory.walk start (parts path) with
    | .ok (.file content) => content
    | .ok .directory => .error .isDirectory
    | .error failure => .error failure

end Directory

end Sipl
