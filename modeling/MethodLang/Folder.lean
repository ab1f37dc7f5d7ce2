/-!
# Folders

A folder of files as a value, and what a path leads to when it is followed from there. Nothing
is known of the folders outside but that they are folders. Paths and the names in them have a
greatest length, in bytes.
-/

namespace MethodLang

/-- Why a file cannot be read. -/
inductive FileError
  | notFound
  | notADirectory
  | isADirectory
  | nameTooLong
  /-- The path has a null character, which no path has. -/
  | nullInPath
  | undecodable
  /-- Any other reason, in the words of the system. -/
  | other (reason : String)
  deriving DecidableEq

def FileError.message : FileError → String
  | notFound => "No such file or directory (os error 2)"
  | notADirectory => "Not a directory (os error 20)"
  | isADirectory => "Is a directory (os error 21)"
  | nameTooLong => "File name too long (os error 36)"
  | nullInPath => "file name contained an unexpected NUL byte"
  | undecodable => "stream did not contain valid UTF-8"
  | other reason => reason

/-- The longest name that a file may have. -/
def maxNameSize : Nat := 255

/-- The longest path that is followed. -/
def maxPathSize : Nat := 4095

/-- Files by name, without subfolders. -/
structure Folder where
  files : List (String × ByteArray)

namespace Folder

/-- Where a path has led so far. -/
inductive Place
  | here
  /-- Some folder that is not this one. -/
  | outside
  | file (bytes : ByteArray)
  | missing
  /-- The path goes on after a file. -/
  | beyondFile
  /-- A folder was asked for a name longer than any that it holds. -/
  | overlong

/-- One more part of a path. An empty part, like a single dot, stays in a folder. A path that has
failed fails for good, so that its first fault is the one that counts. -/
def step (folder : Folder) : Place → String → Place
  | .missing, _ => .missing
  | .overlong, _ => .overlong
  | .beyondFile, _ | .file _, _ => .beyondFile
  | .here, part =>
    if part = "" ∨ part = "." then .here
    else if part = ".." then .outside
    else if maxNameSize < part.utf8ByteSize then .overlong
    else match folder.files.lookup part with
      | some bytes => .file bytes
      | none => .missing
  | .outside, part =>
    if part = "" ∨ part = "." ∨ part = ".." then .outside
    else if maxNameSize < part.utf8ByteSize then .overlong
    else .missing

/-- Where a path leads. It starts outside if it starts with a slash; the empty path leads
nowhere. -/
def follow (folder : Folder) (path : String) : Place :=
  match path.splitOn "/" with
  | [""] => .missing
  | "" :: parts => parts.foldl folder.step .outside
  | parts => parts.foldl folder.step .here

/-- The contents of the file to which a path leads. A path is followed only if it has no null
character and is not too long. -/
def read (folder : Folder) (path : String) : Except FileError ByteArray :=
  if path.toList.contains '\x00' then .error .nullInPath
  else if maxPathSize < path.utf8ByteSize then .error .nameTooLong
  else match folder.follow path with
    | .file bytes => .ok bytes
    | .here | .outside => .error .isADirectory
    | .missing => .error .notFound
    | .beyondFile => .error .notADirectory
    | .overlong => .error .nameTooLong

end Folder

end MethodLang
