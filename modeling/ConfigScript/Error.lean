import ConfigScript.Decode.Cause
import ConfigScript.Path
import ConfigScript.Value.Fault

set_option autoImplicit false

/-!
# Errors

All the ways in which loading a configuration fails.
-/

namespace ConfigScript

inductive FileFault where
  | notText
  | directory
  | other (message : String)
  deriving DecidableEq, Repr

namespace FileFault

def message : FileFault → String
  | .notText => "stream did not contain valid UTF-8"
  | .directory => "Is a directory (os error 21)"
  | .other message => message

end FileFault

inductive Error where
  | fileNotFound (name : String)
  | invalidStream (path : Path) (fault : Fault)
  | script
  | deserialize (path : Path) (cause : Cause)
  /-- A tag that belongs to two bases, or that one base declares twice. -/
  | duplicateTag (name : String) (first : String) (second : String)
  | notPolymorphic
  | io (fault : FileFault)
  deriving DecidableEq

namespace Error

def message : Error → String
  | .fileNotFound name => "File not found: " ++ name
  | .invalidStream path fault => "Invalid stream at " ++ path.place ++ ": " ++ fault.message
  | .script => "Lua error"
  | .deserialize path cause => "Deserialization error at " ++ path.place ++ ": " ++ cause.message
  | .duplicateTag name first second =>
    "Tag `" ++ name ++ "` is declared by both `" ++ first ++ "` and `" ++ second ++ "`"
  | .notPolymorphic => "Type is not a polymorphic enum"
  | .io fault => "IO error: " ++ fault.message

theorem message_deserialize (path : Path) (cause : Cause) :
    (deserialize path cause).message =
      "Deserialization error at " ++ path.place ++ ": " ++ cause.message :=
  rfl

end Error

end ConfigScript
