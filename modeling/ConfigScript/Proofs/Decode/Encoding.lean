import ConfigScript.Proofs.Decode.Interpretation
import Mathlib.Data.List.Forall2

/-!
# Encodings

The trees that stand for a datum of a schema. A datum has several of them: null and the object
without entries are the same nothing, a record lists its entries in any order, and a variant is a
tag, an object of one entry or, without a payload, a bare name.
-/

set_option autoImplicit false

namespace ConfigScript

/-- A relation between the data of a type and the trees that stand for them. -/
abbrev Encoding :=
  Datum → Tree → Prop

namespace Encoding

inductive OfNothing : Datum → Tree → Prop
  | null : OfNothing .unit (.primitive "null")
  | object : OfNothing .unit (.object [])

/-- What is present must not look like what is absent. -/
inductive OfOption (of : Encoding) : Datum → Tree → Prop
  | none : OfOption of .none (.primitive "null")
  | some {datum : Datum} {tree : Tree} (present : of datum tree)
      (distinct : tree ≠ .primitive "null") : OfOption of (.some datum) tree

inductive OfWrapper (of : Encoding) : Datum → Tree → Prop
  | content {datum : Datum} {tree : Tree} (encoded : of datum tree) :
      OfWrapper of (.wrapped datum) tree

/-- One tree for each item; without items, also the object without entries. -/
inductive OfSequence (items : List Datum → List Tree → Prop) : Datum → Tree → Prop
  | array {data : List Datum} {trees : List Tree} (encoded : items data trees) :
      OfSequence items (.list data) (.array trees)
  | empty (encoded : items [] []) : OfSequence items (.list []) (.object [])

inductive OfPlaces : List Encoding → List Datum → List Tree → Prop
  | nil : OfPlaces [] [] []
  | cons {place : Encoding} {places : List Encoding} {datum : Datum} {data : List Datum}
      {tree : Tree} {trees : List Tree} (first : place datum tree)
      (rest : OfPlaces places data trees) :
      OfPlaces (place :: places) (datum :: data) (tree :: trees)

/-- Keys are encoded as the text of a primitive would be. -/
inductive OfMap (key value : Encoding) : Datum → Tree → Prop
  | object {data : List (Datum × Datum)} {entries : List (String × Tree)}
      (encoded : List.Forall₂ (fun datum entry =>
        key datum.1 (.primitive entry.1) ∧ value datum.2 entry.2) data entries) :
      OfMap key value (.map data) (.object entries)

inductive OfRecord (fields : List (String × Encoding)) : Datum → Tree → Prop
  | object {data : List Datum} {trees : List Tree} {entries : List (String × Tree)}
      (distinct : (fields.map (·.1)).Nodup) (encoded : OfPlaces (fields.map (·.2)) data trees)
      (order : entries.Perm ((fields.map (·.1)).zip trees)) :
      OfRecord fields (.record ((fields.map (·.1)).zip data)) (.object entries)

inductive OfEnumeration (variants : List (Variant Schema)) (payloads : List (String × Encoding)) :
    Datum → Tree → Prop
  | tagged {name : String} {payload : Encoding} {datum : Datum} {tree : Tree}
      (distinct : (variants.map (·.name)).Nodup) (known : (name, payload) ∈ payloads)
      (encoded : payload datum tree) :
      OfEnumeration variants payloads (.variant name datum) (.tagged name tree)
  | entry {name : String} {payload : Encoding} {datum : Datum} {tree : Tree}
      (distinct : (variants.map (·.name)).Nodup) (known : (name, payload) ∈ payloads)
      (encoded : payload datum tree) :
      OfEnumeration variants payloads (.variant name datum) (.object [(name, tree)])
  | bare {name : String} (distinct : (variants.map (·.name)).Nodup)
      (known : ⟨name, .unit⟩ ∈ variants) :
      OfEnumeration variants payloads (.variant name .unit) (.primitive name)

end Encoding

namespace Schema

/-- The text of a scalar. Integers are written in decimal, and bytes are those of the text. -/
inductive Spells : Schema → Datum → String → Prop
  | false : Spells .bool (.bool .false) "false"
  | true : Spells .bool (.bool .true) "true"
  | integer {kind : Number.IntegerKind} {n : Int} (within : kind.holds n) :
      Spells (.integer kind) (.integer n) (toString n)
  | char (c : Char) : Spells .char (.char c) (String.singleton c)
  | text (content : String) : Spells .text (.text content) content
  | bytes (content : String) : Spells .bytes (.bytes content.toByteArray) content

/-- The encoding of a scalar. -/
inductive Scalar (schema : Schema) : Datum → Tree → Prop
  | primitive {datum : Datum} {text : String} (spelled : schema.Spells datum text) :
      Scalar schema datum (.primitive text)

open Encoding

mutual

/-- Whether a tree is one of the encodings of a datum as a schema. -/
def Encodes : Schema → Encoding
  | .option of => OfOption (Encodes of)
  | .seq of => OfSequence (List.Forall₂ (Encodes of))
  | .tuple items => OfSequence (OfPlaces (encodings items))
  | .namedTuple _ items => OfSequence (OfPlaces (encodings items))
  | .map key value => OfMap (Encodes key) (Encodes value)
  | .unit => OfNothing
  | .namedUnit _ => OfNothing
  | .wrapper _ of => OfWrapper (Encodes of)
  | .record _ fields _ => OfRecord (fieldEncodings fields)
  | .enumeration _ variants => OfEnumeration variants (variantEncodings variants)
  | scalar => Scalar scalar

def encodings : List Schema → List Encoding
  | [] => []
  | schema :: rest => Encodes schema :: encodings rest

def fieldEncodings : List (Field Schema) → List (String × Encoding)
  | [] => []
  | ⟨name, schema, _⟩ :: rest => (name, Encodes schema) :: fieldEncodings rest

def variantEncodings : List (Variant Schema) → List (String × Encoding)
  | [] => []
  | ⟨name, payload⟩ :: rest => (name, payloadEncoding payload) :: variantEncodings rest

def payloadEncoding : Payload Schema → Encoding
  | .unit => OfNothing
  | .value of => Encodes of
  | .tuple items => OfSequence (OfPlaces (encodings items))
  | .record fields _ => OfRecord (fieldEncodings fields)

end

end Schema

end ConfigScript
