import RegionGuard.Command.Run

/-!
# A folder with files

The smallest file system that the command can run in: a folder that holds files
and no folders, in a system of which only the folders at the root are known and
the device that is always empty.  A path is followed one component at a time.
-/

namespace RegionGuard.Command

/-- A folder that holds files. -/
structure Folder where
  /-- The names and contents of the files. -/
  files : List (String × ByteArray)

/-- Where the components of a path have led to. -/
inductive Place
  /-- To the folder with the files. -/
  | folder
  /-- To the root of the system. -/
  | root
  /-- To the folder of the devices. -/
  | devices
  /-- To another folder at the root, of whose content nothing is known. -/
  | standard
  /-- To a folder of which nothing is known. -/
  | elsewhere
  /-- To a file. -/
  | file (content : ByteArray)

/-- The names of the folders at the root of every system. -/
def standardFolders : List String :=
  ["bin", "dev", "etc", "home", "lib", "media", "mnt", "opt", "proc", "root", "run", "sbin",
    "srv", "sys", "tmp", "usr", "var"]

/-- How many bytes the name of a file may have. -/
abbrev nameLimit : Nat := 255

/-- How many bytes a path may have. -/
abbrev pathLimit : Nat := 4095

namespace Folder

/-- The content of a file in the folder. -/
def file? (folder : Folder) (name : String) : Option ByteArray :=
  (folder.files.find? (·.1 == name)).map (·.2)

/-- The folder that holds a folder. -/
def parent : Place → Place
  | .root | .devices | .standard => .root
  | _ => .elsewhere

/-- What has a given name in a folder. -/
def named? (folder : Folder) (place : Place) (name : String) : Option Place :=
  match place with
  | .folder => (folder.file? name).map Place.file
  | .root =>
    if name = "dev" then some .devices
    else if name ∈ standardFolders then some .standard
    else none
  | .devices => if name = "null" then some (.file ByteArray.empty) else none
  | _ => none

/-- Follows one component.  An empty component and a dot stay where they are and
two dots lead to the parent, but all of them ask for a folder. -/
def enter (folder : Folder) (place : Place) (component : List Char) : Except ReadError Place :=
  let name := String.ofList component
  match place with
  | .file _ => .error .notFolder
  | place =>
    if name = "" ∨ name = "." then .ok place
    else if name = ".." then .ok (parent place)
    else if nameLimit < name.utf8ByteSize then .error .nameTooLong
    else
      match folder.named? place name with
      | some found => .ok found
      | none => .error .notFound

/-- Follows components in order. -/
def follow (folder : Folder) (place : Place) : List (List Char) → Except ReadError Place
  | [] => .ok place
  | component :: rest =>
    match folder.enter place component with
    | .error e => .error e
    | .ok place => follow folder place rest

/-- Where a path leads to: from the root if it starts with a slash, and else from the
folder. -/
def resolve (folder : Folder) (path : String) : Except ReadError Place :=
  match path.toList with
  | [] => .error .notFound
  | first :: rest =>
    if pathLimit < path.utf8ByteSize then .error .nameTooLong
    else
      let start := if first = '/' then Place.root else Place.folder
      folder.follow start (Text.fields (· == '/') (first :: rest))

/-- The content of the file at a path. -/
def read (folder : Folder) (path : String) : Except ReadError ByteArray :=
  match folder.resolve path with
  | .error e => .error e
  | .ok (.file content) => .ok content
  | .ok _ => .error .isFolder

end Folder

end RegionGuard.Command
