import ConfigScript.Datum
import ConfigScript.Decode.Decoder
import ConfigScript.Schema

set_option autoImplicit false

/-!
# Reading containers

Readers of sequences, maps, records and tagged values, given readers of their parts. Each loop takes
at least one event in every round.
-/

namespace ConfigScript.Reader

variable {ε α κ : Type}

def nextElement (element : Reader ε α) : Reader ε (Option α) := do
  if (← peek) = .arrayClose then return none
  else return some (← element)

def elements (element : Reader ε α) : Reader ε (List α) :=
  collect (nextElement element)

def nextKey : Reader ε (Option String) := do
  if (← peek) = .objectClose then return none
  else
    match ← next with
    | .key text => return some text
    | event => fail (.mismatch "a key" event)

def nextEntry (key : String → Except Cause κ) (value : Reader ε α) : Reader ε (Option (κ × α)) := do
  match ← nextKey with
  | none => return none
  | some text =>
    let name ← ofExcept (key text)
    return some (name, ← value)

def entries (key : String → Except Cause κ) (value : Reader ε α) : Reader ε (List (κ × α)) :=
  collect (nextEntry key value)

/-- A sequence. The empty table is presented as a map and stands for the empty sequence. -/
def sequence (elements : Reader ε α) (empty : Except Cause α) : Reader ε α := do
  match ← next with
  | .arrayOpen =>
    let value ← elements
    expect .arrayClose
    return value
  | .objectOpen =>
    expect .objectClose
    ofExcept empty
  | event => fail (.mismatch "a sequence" event)

def object (entries : Reader ε α) : Reader ε α := do
  match ← next with
  | .objectOpen =>
    let value ← entries
    expect .objectClose
    return value
  | event => fail (.mismatch "a map" event)

/-- As many elements as there are readers, from a position on. More elements are left alone. -/
def places (expected : String) : List (Reader ε α) → Nat → Reader ε (List α)
  | [], _ => return []
  | element :: rest, position => do
    match ← nextElement element with
    | none => fail (.invalidLength position expected)
    | some value => return value :: (← places expected rest (position + 1))

def tuple (expected : String) (items : List (Reader ε Datum)) : Reader ε Datum :=
  sequence (do return .list (← places expected items 0))
    (if items.isEmpty then .ok (.list []) else .error (.invalidLength 0 expected))

end Reader

structure FieldReader (ε : Type) where
  name : String
  read : Reader ε Datum
  absent : Except Cause Datum

/-- What stands for a missing field: its default, or the absence of an option. -/
def Field.absent (field : Field Schema) : Except Cause Datum :=
  if field.hasDefault then .ok .default
  else if field.schema.isOption then .ok .none
  else .error (.missingField field.name)

namespace Reader

variable {ε : Type}

/-- The value of an entry of a record, put in front of the fields found so far. Unless the record is
closed, the value of an unknown entry is skipped. -/
def fieldValue (fields : List (FieldReader ε)) (closed : Bool) (found : List (String × Datum))
    (name : String) : Reader ε (List (String × Datum)) :=
  match fields.find? (·.name = name) with
  | some field =>
    if (found.lookup name).isSome then fail (.duplicateField name)
    else do return (name, ← field.read) :: found
  | none =>
    if closed then fail (.unknownField name (fields.map (·.name)))
    else do
      skip
      return found

def nextField (fields : List (FieldReader ε)) (closed : Bool)
    (found : List (String × Datum)) : Reader ε (Option (List (String × Datum))) := do
  match ← nextKey with
  | none => return none
  | some name => return some (← fieldValue fields closed found name)

/-- The fields in declared order, given those found. The first missing one decides. -/
def assemble (found : List (String × Datum)) :
    List (FieldReader ε) → Except Cause (List (String × Datum))
  | [] => .ok []
  | field :: rest =>
    match (found.lookup field.name).elim field.absent .ok with
    | .error cause => .error cause
    | .ok value => (assemble found rest).map ((field.name, value) :: ·)

def record (fields : List (FieldReader ε)) (closed : Bool) : Reader ε Datum :=
  object do
    let found ← iterate (nextField fields closed) []
    return .record (← ofExcept (assemble found fields))

def variant (payloads : List (String × Reader ε Datum)) (name : String) : Reader ε Datum :=
  match payloads.lookup name with
  | none => fail (.unknownVariant name (payloads.map (·.1)))
  | some payload => do return .variant name (← payload)

/-- A tagged value: a tag with its payload, a map of one entry, or a bare name. -/
def enumeration (payloads : List (String × Reader ε Datum))
    (bare : String → Except Cause Datum) : Reader ε Datum := do
  match ← next with
  | .typeTag name => variant payloads name
  | .primitive name => ofExcept (bare name)
  | .objectOpen =>
    match ← next with
    | .key name =>
      let value ← variant payloads name
      expect .objectClose
      return value
    | event => fail (.mismatch "a variant" event)
  | event => fail (.mismatch "a variant" event)

def option (value : Reader ε Datum) : Reader ε Datum := do
  if (← peek) = .primitive "null" then
    consume
    return .none
  else return .some (← value)

def untypedAfter (part : Reader ε Untyped) : Event → Reader ε Untyped
  | .primitive text => return .infer text
  | .objectOpen => do
    let found ← entries .ok part
    expect .objectClose
    return .map found
  | .arrayOpen => do
    let items ← elements part
    expect .arrayClose
    return .list items
  | .typeTag name => do return .map [(name, ← part)]
  | event => fail (.mismatch "a value" event)

def untypedWithin : Nat → Reader ε Untyped
  | 0 => fail .endOfInput
  | depth + 1 => do untypedAfter (untypedWithin depth) (← next)

/-- A value of any form. A tagged value reads as a map of one entry. -/
def untyped : Reader ε Untyped :=
  bounded untypedWithin

end Reader

end ConfigScript
