import ConfigScript.Number.Layout

set_option autoImplicit false

/-!
# Script values

The values that a configuration script computes. Strings are bytes and need not be text. Tables are
named by their place in a heap, so that one table can occur in several places and inside itself.
-/

namespace ConfigScript

/-- A table's place in the heap. -/
abbrev TableId := Nat

inductive ForeignKind where
  | thread
  | userdata
  | lightuserdata
  | error
  deriving DecidableEq, Repr

inductive Callable where
  | library (name : String)
  | tagger (tag : String)
  | constant (text : String)
  deriving DecidableEq, Repr

instance instDecidableEqBytes : DecidableEq ByteArray :=
  ByteArray.instDecidableEq

inductive Value where
  | nil
  | boolean (value : Bool)
  | integer (value : Int64)
  | float (value : Number.Double)
  | string (bytes : ByteArray)
  | table (id : TableId)
  | function (callable : Callable)
  | foreign (kind : ForeignKind)
  deriving DecidableEq, Inhabited

inductive Kind where
  | nil
  | boolean
  | integer
  | number
  | string
  | table
  | function
  | foreign (kind : ForeignKind)
  deriving DecidableEq, Repr

namespace Kind

def name : Kind → String
  | .nil => "nil"
  | .boolean => "boolean"
  | .integer => "integer"
  | .number => "number"
  | .string => "string"
  | .table => "table"
  | .function => "function"
  | .foreign .thread => "thread"
  | .foreign .userdata => "userdata"
  | .foreign .lightuserdata => "lightuserdata"
  | .foreign .error => "error"

end Kind

namespace Value

def kind : Value → Kind
  | .nil => .nil
  | .boolean _ => .boolean
  | .integer _ => .integer
  | .float _ => .number
  | .string _ => .string
  | .table _ => .table
  | .function _ => .function
  | .foreign kind => .foreign kind

def ofText (text : String) : Value :=
  .string text.toByteArray

/-- The form in which a value serves as a table key. A float that is an integer of 64 bits becomes
that integer. Neither nil nor what is no number can be a key. -/
def asKey? : Value → Option Value
  | .nil => none
  | .float x =>
    if x.isNaN then none
    else
      match x.integral? with
      | some n => some (if Number.inSignedRange n then .integer (Int64.ofInt n) else .float x)
      | none => some (.float x)
  | value => some value

end Value

end ConfigScript
