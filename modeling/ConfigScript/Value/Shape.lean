import ConfigScript.Value.Fault
import ConfigScript.Value.Heap
import ConfigScript.Value.Scalar

set_option autoImplicit false

/-!
# The shape of a value

How a value is presented: as a scalar, as a tagged payload, as a sequence or as a map. Only the
value itself is looked at. Its parts are found, but none of them is examined.
-/

namespace ConfigScript

inductive Shape where
  | scalar (scalar : Scalar)
  | tagged (name : String) (payload : Value)
  | sequence (elements : List Value)
  | map (entries : List (Value × Value))

/-- The text of a string. Bytes that are not UTF-8 have none. -/
def textOf (bytes : ByteArray) : Except Fault String :=
  match String.fromUTF8? bytes with
  | some text => .ok text
  | none => .error .notText

namespace Value

def scalar : Value → Except Fault Scalar
  | .nil => .ok .nil
  | .boolean b => .ok (.boolean b)
  | .integer n => .ok (.integer n)
  | .float x => .ok (.float x)
  | .string bytes => (textOf bytes).map .text
  | .table _ => .error .tableKey
  | value => .error (.unknownKind value.kind)

/-- The text of a key. A float key is written like a value, however large it is. -/
def keyText (key : Value) : Except Fault String :=
  key.scalar.map Scalar.render

end Value

namespace Table

/-- The presentation of a table. A tag comes before everything else, a value for the key 1 makes a
sequence, and all other tables are maps, the empty one included. -/
def shape (table : Table) : Except Fault Shape :=
  match table.get typeKey with
  | .nil =>
    if table.get (.integer 1) = .nil then .ok (.map table.entries)
    else .ok (.sequence table.elements)
  | .string bytes => (textOf bytes).map fun name => .tagged name (table.get payloadKey)
  | value => .error (.tagKind value.kind)

end Table

/-- The presentation of a value in a heap. When `strict`, floats that may not hold their integer
exactly are refused. -/
def Value.shape (heap : Heap) (strict : Bool) : Value → Except Fault Shape
  | .table id => (heap.table id).shape
  | .float x =>
    if strict && x.isImpreciseInteger then .error (.imprecise x) else .ok (.scalar (.float x))
  | value => value.scalar.map .scalar

end ConfigScript
