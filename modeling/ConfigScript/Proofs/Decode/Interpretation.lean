import ConfigScript.Decode
import ConfigScript.Proofs.Decode.Denotation

/-!
# What a schema makes of a tree

The meaning of a schema without a stream: the datum that a tree of events is, or the first reason
why it is none. Where a reader takes events one at a time and asks for the end of a container, the
parts of the tree are at hand, so an interpretation follows the tree and the schema alone.
-/

set_option autoImplicit false

namespace ConfigScript

abbrev Interpretation :=
  Tree → Except Cause Datum

namespace Tree

variable {α κ : Type}

def noEntries : List (String × Tree) → Except Cause Unit
  | [] => .ok ()
  | (key, _) :: _ => .error (.mismatch (Event.describe .objectClose) (.key key))

def noItems : List Tree → Except Cause Unit
  | [] => .ok ()
  | tree :: _ => .error (.mismatch (Event.describe .arrayClose) tree.opening)

def ofScalar (expected : String) (read : String → Except Cause α) : Tree → Except Cause α
  | .primitive text => read text
  | tree => .error (.mismatch expected tree.opening)

/-- Null and the object without entries are nothing. -/
def ofNothing : Tree → Except Cause Unit
  | .primitive text =>
    if text = "null" then .ok () else .error (.mismatch "unit" (.primitive text))
  | .object entries => noEntries entries
  | tree => .error (.mismatch "unit" tree.opening)

def ofSequence (items : List Tree → Except Cause α) (empty : Except Cause α) :
    Tree → Except Cause α
  | .array trees => items trees
  | .object entries => do
    noEntries entries
    empty
  | tree => .error (.mismatch "a sequence" tree.opening)

def ofObject (entries : List (String × Tree) → Except Cause α) : Tree → Except Cause α
  | .object trees => entries trees
  | tree => .error (.mismatch "a map" tree.opening)

def ofMap (key : String → Except Cause κ) (value : Tree → Except Cause α) :
    Tree → Except Cause (List (κ × α)) :=
  ofObject fun entries => entries.mapM fun entry => do
    return (← key entry.1, ← value entry.2)

/-- One tree for each place, in order. -/
def ofPlaces (expected : String) :
    List Interpretation → Nat → List Tree → Except Cause (List Datum)
  | [], _, trees => do
    noItems trees
    return []
  | _ :: _, position, [] => .error (.invalidLength position expected)
  | place :: places, position, tree :: trees => do
    let value ← place tree
    return value :: (← ofPlaces expected places (position + 1) trees)

def ofTuple (expected : String) (places : List Interpretation) : Interpretation :=
  ofSequence (fun trees => (ofPlaces expected places 0 trees).map .list)
    (if places.isEmpty then .ok (.list []) else .error (.invalidLength 0 expected))

/-- The fields found, after one more entry. -/
def ofField (fields : List (String × Interpretation)) (closed : Bool)
    (found : List (String × Datum)) (entry : String × Tree) :
    Except Cause (List (String × Datum)) :=
  match fields.lookup entry.1 with
  | some field =>
    if (found.lookup entry.1).isSome then .error (.duplicateField entry.1)
    else do return (entry.1, ← field entry.2) :: found
  | none => if closed then .error (.unknownField entry.1 (fields.map (·.1))) else .ok found

def ofVariant (payloads : List (String × Interpretation)) (name : String) : Interpretation :=
  match payloads.lookup name with
  | none => fun _ => .error (.unknownVariant name (payloads.map (·.1)))
  | some payload => fun tree => (payload tree).map (.variant name)

def ofEnumeration (payloads : List (String × Interpretation))
    (bare : String → Except Cause Datum) : Interpretation
  | .tagged name payload => ofVariant payloads name payload
  | .primitive name => bare name
  | .object ((name, payload) :: rest) => do
    let value ← ofVariant payloads name payload
    noEntries rest
    return value
  | .object [] => .error (.mismatch "a variant" .objectClose)
  | .array _ => .error (.mismatch "a variant" .arrayOpen)

end Tree

/-- The fields in declared order, given those found. -/
def Field.assemble (found : List (String × Datum)) :
    List (Field Schema) → Except Cause (List (String × Datum))
  | [] => .ok []
  | field :: rest => do
    let value ← (found.lookup field.name).elim field.absent .ok
    return (field.name, value) :: (← assemble found rest)

def Tree.ofRecord (fields : List (Field Schema)) (parts : List (String × Interpretation))
    (closed : Bool) : Interpretation :=
  ofObject fun entries => do
    let found ← entries.foldlM (ofField parts closed) []
    return .record (← Field.assemble found fields)

namespace Schema

mutual

def interpret : Schema → Interpretation
  | .option of, tree =>
    if tree.opening = .primitive "null" then .ok .none else (interpret of tree).map .some
  | .seq of, tree =>
    tree.ofSequence (fun trees => (trees.mapM (interpret of)).map .list) (.ok (.list []))
  | .tuple items, tree => tree.ofTuple (Schema.tuple items).expected (interpretItems items)
  | .namedTuple name items, tree =>
    tree.ofTuple ("tuple struct " ++ name ++ " with " ++ elementCount items.length)
      (interpretItems items)
  | .map key value, tree => (tree.ofMap (readText · key) (interpret value)).map .map
  | .unit, tree => tree.ofNothing.map fun _ => .unit
  | .namedUnit _, tree => tree.ofNothing.map fun _ => .unit
  | .wrapper _ of, tree => (interpret of tree).map .wrapped
  | .record _ fields closed, tree => tree.ofRecord fields (interpretFields fields) closed
  | .enumeration name variants, tree =>
    tree.ofEnumeration (interpretVariants name variants) (readVariantName variants)
  | .ignored, _ => .ok .ignored
  | .untyped, tree => .ok (.untyped tree.toUntyped)
  | .json, tree => .ok (.json tree.toUntyped.toJson)
  | scalar, tree => tree.ofScalar scalar.expectedEvent (readText · scalar)

def interpretItems : List Schema → List Interpretation
  | [] => []
  | schema :: rest => interpret schema :: interpretItems rest

def interpretFields : List (Field Schema) → List (String × Interpretation)
  | [] => []
  | ⟨name, schema, _⟩ :: rest => (name, interpret schema) :: interpretFields rest

def interpretVariants (enumeration : String) :
    List (Variant Schema) → List (String × Interpretation)
  | [] => []
  | ⟨name, payload⟩ :: rest =>
    (name, interpretPayload (enumeration ++ "::" ++ name) payload) ::
      interpretVariants enumeration rest

def interpretPayload (variant : String) : Payload Schema → Interpretation
  | .unit, tree => tree.ofNothing.map fun _ => .unit
  | .value of, tree => interpret of tree
  | .tuple items, tree =>
    tree.ofTuple ("tuple variant " ++ variant ++ " with " ++ elementCount items.length)
      (interpretItems items)
  | .record fields closed, tree => tree.ofRecord fields (interpretFields fields) closed

end

theorem map_interpretFields (fields : List (Field Schema)) :
    (interpretFields fields).map (·.1) = fields.map (·.name) := by
  induction fields with
  | nil => rfl
  | cons field rest ih =>
      obtain ⟨name, schema, hasDefault⟩ := field
      rw [interpretFields, List.map_cons, List.map_cons, ih]

end Schema

/-- What holds of an interpretation of each form when it holds of those of the parts. -/
structure Interpretation.Inductive (motive : Interpretation → Prop) : Prop where
  scalar (expected : String) (read : String → Except Cause Datum) :
    motive (Tree.ofScalar expected read)
  nothing : motive fun tree => tree.ofNothing.map fun _ => .unit
  ignored : motive fun _ => .ok .ignored
  untyped : motive fun tree => .ok (.untyped tree.toUntyped)
  json : motive fun tree => .ok (.json tree.toUntyped.toJson)
  option {value : Interpretation} : motive value → motive fun tree =>
    if tree.opening = .primitive "null" then .ok .none else (value tree).map .some
  seq {element : Interpretation} : motive element → motive
    (Tree.ofSequence (fun trees => (trees.mapM element).map .list) (.ok (.list [])))
  tuple (expected : String) {places : List Interpretation} :
    (∀ place ∈ places, motive place) → motive (Tree.ofTuple expected places)
  map (key : String → Except Cause Datum) {value : Interpretation} :
    motive value → motive fun tree => (tree.ofMap key value).map .map
  wrapper {value : Interpretation} : motive value → motive fun tree => (value tree).map .wrapped
  record (declared : List (Field Schema)) {fields : List (String × Interpretation)}
    (closed : Bool) : (∀ field ∈ fields, motive field.2) →
    motive (Tree.ofRecord declared fields closed)
  enumeration {payloads : List (String × Interpretation)} (bare : String → Except Cause Datum) :
    (∀ payload ∈ payloads, motive payload.2) → motive (Tree.ofEnumeration payloads bare)

namespace Interpretation.Inductive

open Schema

variable {motive : Interpretation → Prop}

mutual

/-- It holds of the interpretation of every schema. -/
theorem interpret (forms : Interpretation.Inductive motive) (schema : Schema) :
    motive schema.interpret := by
  match schema with
  | .bool | .integer _ | .single | .double | .char | .text | .identifier | .bytes =>
      simp only [Schema.interpret]
      exact forms.scalar _ _
  | .unit | .namedUnit _ =>
      simp only [Schema.interpret]
      exact forms.nothing
  | .ignored =>
      simp only [Schema.interpret]
      exact forms.ignored
  | .untyped =>
      simp only [Schema.interpret]
      exact forms.untyped
  | .json =>
      simp only [Schema.interpret]
      exact forms.json
  | .option of =>
      simp only [Schema.interpret]
      exact forms.option (forms.interpret of)
  | .seq of =>
      simp only [Schema.interpret]
      exact forms.seq (forms.interpret of)
  | .tuple items | .namedTuple _ items =>
      simp only [Schema.interpret]
      exact forms.tuple _ (forms.interpretItems items)
  | .map key value =>
      simp only [Schema.interpret]
      exact forms.map _ (forms.interpret value)
  | .wrapper _ of =>
      simp only [Schema.interpret]
      exact forms.wrapper (forms.interpret of)
  | .record _ fields closed =>
      simp only [Schema.interpret]
      exact forms.record _ closed (forms.interpretFields fields)
  | .enumeration name variants =>
      simp only [Schema.interpret]
      exact forms.enumeration _ (forms.interpretVariants name variants)

theorem interpretItems (forms : Interpretation.Inductive motive) (items : List Schema) :
    ∀ place ∈ Schema.interpretItems items, motive place := by
  match items with
  | [] => exact nofun
  | schema :: rest =>
      rw [Schema.interpretItems]
      exact List.forall_mem_cons.2 ⟨forms.interpret schema, forms.interpretItems rest⟩

theorem interpretFields (forms : Interpretation.Inductive motive) (fields : List (Field Schema)) :
    ∀ field ∈ Schema.interpretFields fields, motive field.2 := by
  match fields with
  | [] => exact nofun
  | ⟨_, schema, _⟩ :: rest =>
      rw [Schema.interpretFields]
      exact List.forall_mem_cons.2 ⟨forms.interpret schema, forms.interpretFields rest⟩

theorem interpretVariants (forms : Interpretation.Inductive motive) (enumeration : String)
    (variants : List (Variant Schema)) :
    ∀ variant ∈ Schema.interpretVariants enumeration variants, motive variant.2 := by
  match variants with
  | [] => exact nofun
  | ⟨_, payload⟩ :: rest =>
      rw [Schema.interpretVariants]
      exact List.forall_mem_cons.2
        ⟨forms.interpretPayload _ payload, forms.interpretVariants enumeration rest⟩

theorem interpretPayload (forms : Interpretation.Inductive motive) (variant : String)
    (payload : Payload Schema) : motive (Schema.interpretPayload variant payload) := by
  match payload with
  | .unit =>
      simp only [Schema.interpretPayload]
      exact forms.nothing
  | .value of =>
      simp only [Schema.interpretPayload]
      exact forms.interpret of
  | .tuple items =>
      simp only [Schema.interpretPayload]
      exact forms.tuple _ (forms.interpretItems items)
  | .record fields closed =>
      simp only [Schema.interpretPayload]
      exact forms.record _ closed (forms.interpretFields fields)

end

end Interpretation.Inductive

end ConfigScript
