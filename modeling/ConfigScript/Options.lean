import ConfigScript.Number.Integer
import ConfigScript.Text.Space

set_option autoImplicit false

/-!
# Options

How configurations are loaded, and how the environment of a process sets it. A variable that is
missing or cannot be read leaves the default.
-/

namespace ConfigScript

structure Options where
  chunkName : String := "text"
  /-- How many containers may be open at once. -/
  maxDepth : Nat := 128
  /-- Whether floats that may not hold their integer exactly are refused. -/
  strictIntegers : Bool := false
  deriving DecidableEq, Repr, Inhabited

namespace Options

/-- Reads a switch: a common word for on or off, in any case and with white space around it. -/
def readFlag? (text : String) : Option Bool :=
  let word := String.ofList ((Text.trim text.toList).map Char.toLower)
  if word = "1" ∨ word = "true" ∨ word = "yes" ∨ word = "on" then some true
  else if word = "0" ∨ word = "false" ∨ word = "no" ∨ word = "off" then some false
  else none

/-- Reads a depth: a positive integer of 64 bits without a sign. -/
def readDepth? (text : String) : Option Nat :=
  ((Number.IntegerKind.u64.read? text).map Int.toNat).filter (0 < ·)

def ofEnvironment (valueOf : String → Option String) : Options :=
  let defaults : Options := {}
  { chunkName := (valueOf "LUACONF_CHUNK_NAME").getD defaults.chunkName
    maxDepth := ((valueOf "LUACONF_MAX_DEPTH").bind readDepth?).getD defaults.maxDepth
    strictIntegers :=
      ((valueOf "LUACONF_STRICT_INTEGERS").bind readFlag?).getD defaults.strictIntegers }

end Options

end ConfigScript
