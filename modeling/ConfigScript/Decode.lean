import ConfigScript.Decode.Container
import ConfigScript.Decode.Text

set_option autoImplicit false

/-!
# Reading events as a schema

`Schema.read` takes exactly one value of a schema from a decoder. `decode` reads a whole stream:
one value with nothing after it. Its errors carry the path of the last event that was pulled, while
errors of the stream pass through unchanged.
-/

namespace ConfigScript

namespace Schema

mutual

def read {ε : Type} : Schema → Reader ε Datum
  | .option of => Reader.option (read of)
  | .seq of =>
    Reader.sequence (do return .list (← Reader.elements (read of))) (.ok (.list []))
  | .tuple items => Reader.tuple (Schema.tuple items).expected (readItems items)
  | .namedTuple name items =>
    Reader.tuple ("tuple struct " ++ name ++ " with " ++ elementCount items.length)
      (readItems items)
  | .map key value =>
    Reader.object (do return .map (← Reader.entries key.readText (read value)))
  | .unit | .namedUnit _ => do
    Reader.empty
    return .unit
  | .wrapper _ of => do return .wrapped (← read of)
  | .record _ fields closed => Reader.record (readFields fields) closed
  | .enumeration name variants =>
    Reader.enumeration (readVariants name variants) (readVariantName variants)
  | .ignored => do
    Reader.skip
    return .ignored
  | .untyped => do return .untyped (← Reader.untyped)
  | .json => do return .json (← Reader.untyped).toJson
  | scalar => do
    let text ← Reader.primitive scalar.expectedEvent
    Reader.ofExcept (scalar.readText text)

def readItems {ε : Type} : List Schema → List (Reader ε Datum)
  | [] => []
  | schema :: rest => read schema :: readItems rest

def readFields {ε : Type} : List (Field Schema) → List (FieldReader ε)
  | [] => []
  | ⟨name, schema, hasDefault⟩ :: rest =>
    ⟨name, read schema, Field.absent ⟨name, schema, hasDefault⟩⟩ :: readFields rest

def readVariants {ε : Type} (enumeration : String) :
    List (Variant Schema) → List (String × Reader ε Datum)
  | [] => []
  | ⟨name, payload⟩ :: rest =>
    (name, readPayload (enumeration ++ "::" ++ name) payload) ::
      readVariants enumeration rest

def readPayload {ε : Type} (variant : String) : Payload Schema → Reader ε Datum
  | .unit => do
    Reader.empty
    return .unit
  | .value of => read of
  | .tuple items =>
    Reader.tuple ("tuple variant " ++ variant ++ " with " ++ elementCount items.length)
      (readItems items)
  | .record fields closed => Reader.record (readFields fields) closed

end

/-- The reader of one value of a schema with nothing after it. -/
def readWhole {ε : Type} (schema : Schema) : Reader ε Datum := do
  let value ← schema.read
  Reader.finish
  return value

end Schema

inductive DecodeError (ε : Type) where
  | stream (error : ε)
  | mismatch (path : Path) (cause : Cause)
  deriving Repr

def Failure.at {ε : Type} (decoder : Decoder ε) : Failure ε → DecodeError ε
  | .stream error => .stream error
  | .cause reason => .mismatch decoder.path reason

/-- Reads a stream that must be one value of the schema and nothing after it. -/
def decode {ε : Type} (schema : Schema) (items : List (Item ε)) : Except (DecodeError ε) Datum :=
  match schema.readWhole (.ofItems items) with
  | (.ok value, _) => .ok value
  | (.error failure, decoder) => .error (failure.at decoder)

/-- A call on a decoder: for a value of a schema, or for the end of the stream. -/
inductive Request where
  | value (schema : Schema)
  | finish

namespace Decoder

variable {ε : Type}

/-- What a call leaves behind, whether it fails or not. -/
def answer (decoder : Decoder ε) : Request → Decoder ε
  | .value schema => (schema.read decoder).2
  | .finish => (Reader.finish decoder).2

def answerAll (decoder : Decoder ε) (requests : List Request) : Decoder ε :=
  requests.foldl answer decoder

end Decoder

end ConfigScript
