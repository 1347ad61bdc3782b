/-!
Files by their paths, and why one cannot be read.
-/

set_option autoImplicit false

namespace Cellscript.CommandLine

/-- Why a file cannot be read: there is none, the path leads through a file or to a folder, a name
is too long, it may not be read, or it holds no text. -/
inductive ReadError
  | missing
  | throughFile
  | isFolder
  | nameTooLong
  | denied
  | notText
deriving DecidableEq

namespace ReadError

/-- The number that the system gives to a cause. -/
def code : ReadError → Option Nat
  | .missing => some 2
  | .throughFile => some 20
  | .isFolder => some 21
  | .nameTooLong => some 36
  | .denied => some 13
  | .notText => none

def summary : ReadError → String
  | .missing => "No such file or directory"
  | .throughFile => "Not a directory"
  | .isFolder => "Is a directory"
  | .nameTooLong => "File name too long"
  | .denied => "Permission denied"
  | .notText => "stream did not contain valid UTF-8"

def message (e : ReadError) : String :=
  match e.code with
  | some code => e.summary ++ " (os error " ++ code.repr ++ ")"
  | none => e.summary

def ofCode? (code : Nat) : Option ReadError :=
  [missing, throughFile, isFolder, nameTooLong, denied].find? (·.code == some code)

/-- Whether nothing is found at a path that cannot be read for this cause. -/
def isAbsence : ReadError → Bool
  | .missing | .throughFile | .nameTooLong => true
  | .isFolder | .denied | .notText => false

end ReadError

def fileText (bytes : ByteArray) : Except ReadError String :=
  match String.fromUTF8? bytes with
  | some text => .ok text
  | none => .error .notText

/-- A file with its bytes, or a folder with what is in it by name. -/
inductive FileTree
  | file (bytes : ByteArray)
  | folder (entries : List (String × FileTree))

namespace FileTree

/-- The most bytes in the name of a file. -/
def nameLimit : Nat := 255

def pathLimit : Nat := 4095

/-- Follows names from `here`, with the folders above it, the nearest first. -/
def follow (above : List FileTree) (here : FileTree) : List String → Except ReadError FileTree
  | [] => .ok here
  | name :: names =>
    match here with
    | .file _ => .error .throughFile
    | .folder entries =>
      if name.isEmpty || name == "." then follow above here names
      else if name == ".." then
        match above with
        | [] => follow [] here names
        | parent :: above => follow above parent names
      else if nameLimit < name.utf8ByteSize then .error .nameTooLong
      else
        match entries.lookup name with
        | some inner => follow (here :: above) inner names
        | none => .error .missing

/-- Finds what a path leads to from the folder with the names `working`, or from the root if it
starts with a slash. -/
def find (root : FileTree) (working : List String) (path : String) : Except ReadError FileTree :=
  if path.isEmpty then .error .missing
  else if pathLimit < path.utf8ByteSize then .error .nameTooLong
  else if path.startsWith "/" then root.follow [] (path.splitOn "/")
  else root.follow [] (working ++ path.splitOn "/")

def read (root : FileTree) (working : List String) (path : String) : Except ReadError String :=
  match root.find working path with
  | .error e => .error e
  | .ok (.folder _) => .error .isFolder
  | .ok (.file bytes) => fileText bytes

end FileTree

end Cellscript.CommandLine
