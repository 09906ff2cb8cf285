import ConfigScript.Error

set_option autoImplicit false

/-!
# Sources

Where the text of a script comes from: it is given with a name, or it is in a file. A directory in
memory stands for the files of a process.
-/

namespace ConfigScript

inductive FileState where
  | missing
  | directory
  | contents (bytes : ByteArray)
  | unreadable (message : String)

inductive Source where
  | text (name : String) (code : String)
  | file (name : String) (state : FileState)

namespace Source

def label : Source → String
  | .text name _ => name
  | .file name _ => name

def isMissing : Source → Bool
  | .file _ .missing => true
  | _ => false

def code : Source → Except Error String
  | .text _ code => .ok code
  | .file name .missing => .error (.fileNotFound name)
  | .file _ .directory => .error (.io .directory)
  | .file _ (.unreadable message) => .error (.io (.other message))
  | .file _ (.contents bytes) =>
    match String.fromUTF8? bytes with
    | some code => .ok code
    | none => .error (.io .notText)

end Source

/-- Files in memory by their names, which may lead through directories. A name without contents is
a directory. -/
structure Directory where
  files : List (String × Option ByteArray)

namespace Directory

def parts (name : String) : List String :=
  (name.splitOn "/").filter fun part => part ≠ "" && part ≠ "."

def place (directory : Directory) (wanted : List String) : FileState :=
  match directory.files.find? fun file => parts file.1 = wanted with
  | some (_, some bytes) => .contents bytes
  | some (_, none) => .directory
  | none =>
    let leadsToFile := directory.files.any fun file => wanted.isPrefixOf (parts file.1)
    if leadsToFile ∨ wanted.all (· = "..") then .directory else .missing

def follow? (directory : Directory) (origin : List String) (part : String) :
    Option (List String) :=
  match directory.place origin with
  | .directory =>
    if part = "" ∨ part = "." then some origin
    else if part = ".." then
      some (if origin.all (· = "..") then origin ++ [".."] else origin.dropLast)
    else some (origin ++ [part])
  | _ => none

/-- What is found under a name, which is followed part by part. No name is empty, and nothing is
known about names that begin with a slash. -/
def state (directory : Directory) (name : String) : FileState :=
  if name = "" ∨ name.startsWith "/" then .missing
  else
    match (name.splitOn "/").foldlM directory.follow? [] with
    | some wanted => directory.place wanted
    | none => .missing

end Directory

end ConfigScript
