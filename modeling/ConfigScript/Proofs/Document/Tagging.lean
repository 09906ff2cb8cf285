import ConfigScript.Proofs.Document.Presented
import ConfigScript.Proofs.Environment.Binding
import ConfigScript.Proofs.Value.Table

/-!
# Tags and the values that they make

Calling a tag makes a carrier, which is presented as its payload under that tag, and which is read
as the variant of that name exactly when its payload is read as the payload of the variant.
-/

set_option autoImplicit false

namespace ConfigScript

namespace Schema

/-- A schema inside any number of options and wrappers. -/
inductive Nests (inner : Schema) : Schema → Prop
  | refl : Nests inner inner
  | option {of : Schema} (nests : Nests inner of) : Nests inner (.option of)
  | wrapper {of : Schema} (name : String) (nests : Nests inner of) : Nests inner (.wrapper name of)

theorem Nests.ofSchema_eq {inner schema : Schema} (nests : Nests inner schema) :
    VariantSet.ofSchema schema = VariantSet.ofSchema inner := by
  induction nests with
  | refl => rfl
  | option _ ih => exact ih
  | wrapper name _ ih => exact ih

/-- Only enumerations have variants, through options and wrappers at most. -/
theorem ofSchema_of_not_nests (schema : Schema)
    (other : ∀ base variants, ¬ Nests (.enumeration base variants) schema) :
    VariantSet.ofSchema schema = .error .notPolymorphic := by
  cases schema with
  | option of =>
      refine ofSchema_of_not_nests of fun base variants nests => ?_
      exact other base variants (.option nests)
  | wrapper name of =>
      refine ofSchema_of_not_nests of fun base variants nests => ?_
      exact other base variants (.wrapper name nests)
  | enumeration base variants => exact absurd .refl (other base variants)
  | bool | integer | single | double | char | text | identifier | bytes | unit | ignored | untyped
    | json | seq | tuple | namedTuple | map | namedUnit | record => rfl

end Schema

/-- The schema of a payload on its own. -/
def Payload.schema (name : String) : Payload Schema → Schema
  | .unit => .unit
  | .value of => of
  | .tuple items => .tuple items
  | .record fields closed => .record name fields closed

namespace Tree

/-- The words for what is expected matter to failures only. -/
theorem ofPlaces_of_ok {expected : String} (other : String) {places : List Interpretation}
    {position : Nat} {trees : List Tree} {data : List Datum}
    (read : ofPlaces expected places position trees = .ok data) :
    ofPlaces other places position trees = .ok data := by
  induction places generalizing position trees data with
  | nil => exact read
  | cons place places ih =>
      cases trees with
      | nil => cases read
      | cons tree trees =>
          rw [ofPlaces] at read ⊢
          cases first : place tree with
          | error cause =>
              rw [first] at read
              cases read
          | ok value =>
              rw [first] at read
              cases rest : ofPlaces expected places (position + 1) trees with
              | error cause =>
                  rw [rest] at read
                  cases read
              | ok values =>
                  rw [rest] at read
                  rw [ih rest]
                  exact read

theorem ofTuple_of_ok {expected : String} (other : String) {places : List Interpretation}
    {tree : Tree} {datum : Datum} (read : ofTuple expected places tree = .ok datum) :
    ofTuple other places tree = .ok datum := by
  cases tree with
  | primitive | tagged => cases read
  | array trees =>
      rw [ofTuple, ofSequence] at read ⊢
      cases values : ofPlaces expected places 0 trees with
      | error cause =>
          rw [values] at read
          cases read
      | ok data =>
          rw [values] at read
          rw [ofPlaces_of_ok other values]
          exact read
  | object entries =>
      cases entries with
      | cons entry rest => cases read
      | nil =>
          cases places with
          | nil => exact read
          | cons place places => cases read

end Tree

namespace Schema

theorem interpretVariants_eq_map (base : String) (variants : List (Variant Schema)) :
    interpretVariants base variants = variants.map fun variant =>
      (variant.name, interpretPayload (base ++ "::" ++ variant.name) variant.payload) := by
  induction variants with
  | nil => rfl
  | cons variant rest ih => rw [interpretVariants, ih, List.map_cons]

theorem interpretPayload_eq_ok_iff (variant name : String) {payload : Payload Schema}
    {tree : Tree} {datum : Datum} : interpretPayload variant payload tree = .ok datum ↔
      (payload.schema name).interpret tree = .ok datum := by
  cases payload with
  | unit => rw [interpretPayload, Payload.schema, interpret]
  | value of => rw [interpretPayload, Payload.schema]
  | record fields closed => rw [interpretPayload, Payload.schema, interpret]
  | tuple items =>
      rw [interpretPayload, Payload.schema, interpret]
      exact ⟨Tree.ofTuple_of_ok _, Tree.ofTuple_of_ok _⟩

/-- A tree under the tag of a variant is that variant of what the payload makes of it. -/
theorem interpret_tagged_eq_ok_iff {base : String} {variants : List (Variant Schema)}
    (distinct : (variants.map (·.name)).Nodup) {variant : Variant Schema}
    (member : variant ∈ variants) {tree : Tree} {name : String} {datum : Datum} :
    (enumeration base variants).interpret (.tagged variant.name tree) =
        .ok (.variant name datum) ↔
      name = variant.name ∧
        (variant.payload.schema variant.name).interpret tree = .ok datum := by
  have known : (interpretVariants base variants).lookup variant.name =
      some (interpretPayload (base ++ "::" ++ variant.name) variant.payload) := by
    rw [interpretVariants_eq_map]
    refine lookup_of_mem ?_ (List.mem_map_of_mem member)
    rwa [List.map_map]
  rw [← interpretPayload_eq_ok_iff (base ++ "::" ++ variant.name), interpret,
    Tree.ofEnumeration, Tree.ofVariant, known]
  simp only []
  cases interpretPayload (base ++ "::" ++ variant.name) variant.payload tree with
  | error cause => simp [Except.map]
  | ok value => simp [Except.map, eq_comm]

end Schema

/-- A carrier that was made last is its tag, and what remains to be presented is its payload. -/
theorem Level.step?_carrier (heap : Heap) {options : Options} (room : 1 ≤ options.maxDepth)
    (name : String) (payload : Value) :
    step? (heap.push (carrier name payload)) options [.single (.table heap.next)] =
      some (.ok (.typeTag name, [.single payload])) := by
  have shaped : (Value.table heap.next).shape (heap.push (carrier name payload))
      options.strictIntegers = .ok (.tagged name payload) := by
    rw [Value.shape, Heap.table_push, if_pos rfl]
    exact Table.shape_of_carrier (.refl _)
  exact congrArg some (enter_eq_ok_iff.2 (.tagged name payload shaped room))

namespace Document

variable {heap : Heap} {options : Options} {root payload : Value} {source name : String}

/-- What begins with a tag presents the tree of the payload under that tag. -/
theorem presents_tagged_iff (stepped : Level.step? heap options [.single root] =
      some (.ok (.typeTag name, [.single payload]))) {tree : Tree} :
    Presents ⟨heap, root, source, options⟩ tree ↔
      ∃ inner, tree = .tagged name inner ∧ Presents ⟨heap, payload, source, options⟩ inner := by
  constructor
  · rintro ⟨last, walks, ends⟩
    obtain ⟨event, rest, shape, -⟩ := tree.events_eq_cons
    have walks : Level.Walks heap options [.single root] tree.events last := walks
    rw [shape] at walks
    cases walks with
    | step first walks =>
        cases stepped.symm.trans first
        cases tree with
        | primitive | object | array => cases shape
        | tagged name inner =>
            cases shape
            exact ⟨inner, rfl, last, walks, ends⟩
  · rintro ⟨inner, rfl, last, walks, ends⟩
    exact ⟨last, .step stepped walks, ends⟩

/-- A carrier is read as a variant exactly when its payload is read as that of the variant. -/
theorem read?_tagged_eq_ok_iff (stepped : Level.step? heap options [.single root] =
      some (.ok (.typeTag name, [.single payload]))) {base : String}
    {variants : List (Variant Schema)} (distinct : (variants.map (·.name)).Nodup)
    {variant : Variant Schema} (member : variant ∈ variants) (named : variant.name = name)
    {chosen : String} {datum : Datum} :
    read? ⟨heap, root, source, options⟩ (.enumeration base variants) =
        some (.ok (.variant chosen datum)) ↔
      chosen = name ∧
        read? ⟨heap, payload, source, options⟩ (variant.payload.schema name) =
          some (.ok datum) := by
  subst named
  rw [read?_eq_ok_iff, read?_eq_ok_iff]
  constructor
  · rintro ⟨tree, presents, meant⟩
    obtain ⟨inner, rfl, presentsInner⟩ := (presents_tagged_iff stepped).1 presents
    obtain ⟨same, meantInner⟩ := (Schema.interpret_tagged_eq_ok_iff distinct member).1 meant
    exact ⟨same, inner, presentsInner, meantInner⟩
  · rintro ⟨same, inner, presents, meant⟩
    exact ⟨.tagged variant.name inner, (presents_tagged_iff stepped).2 ⟨inner, rfl, presents⟩,
      (Schema.interpret_tagged_eq_ok_iff distinct member).2 ⟨same, meant⟩⟩

end Document

namespace Loader

/-- The variants of a schema are those of the enumeration inside. Every variant that a loader knows
is a tag in the environment of each script, whatever globals there are: what it makes of a value, nil
when there is none, is presented as the value under that tag, and is read as this variant, and no
other, exactly when the value alone is read as the payload. -/
theorem read?_of_tag :
    (∀ base variants schema, Schema.Nests (.enumeration base variants) schema →
      VariantSet.ofSchema schema = .ok ⟨base, variants.map (·.name)⟩) ∧
    (∀ schema, (∀ base variants, ¬ Schema.Nests (.enumeration base variants) schema) →
      VariantSet.ofSchema schema = .error .notPolymorphic) ∧
    ∀ loader : Loader, loader.Reachable → ∀ base (variants : List (Variant Schema)),
      (variants.map (·.name)).Nodup → ⟨base, variants.map (·.name)⟩ ∈ loader.sets →
      ∀ heap globals, ∃ environment,
        (Environment.untagged heap globals).bindAll loader.sets = .ok environment ∧
        ∀ variant ∈ variants, ∀ (arguments : List Value) (scope : Scope),
          let value := arguments.headD .nil
          ∃ result after,
            (environment.global variant.name).call? value scope = some (result, after) ∧
            ∀ options : Options, 1 ≤ options.maxDepth →
              (∀ path pulls, (Walker.start after.heap options result path).items (pulls + 1) =
                .ok (.typeTag variant.name, path.push (.typeTag variant.name)) ::
                  (Walker.start after.heap options value
                    (path.push (.typeTag variant.name))).items pulls) ∧
              ∀ source name datum,
                (Document.mk after.heap result source options).read?
                    (.enumeration base variants) = some (.ok (.variant name datum)) ↔
                  name = variant.name ∧
                    (Document.mk after.heap value source options).read?
                      (variant.payload.schema variant.name) = some (.ok datum) := by
  refine ⟨fun base variants schema nests => nests.ofSchema_eq, Schema.ofSchema_of_not_nests, ?_⟩
  intro loader reachable base variants distinct registered heap globals
  have consistent : VariantSet.Consistent ([] ++ loader.sets) := reachable.consistent
  obtain ⟨environment, bound, binds⟩ :=
    (Environment.binds_untagged heap globals).exists_bindAll consistent
  refine ⟨environment, bound, ?_⟩
  intro variant member arguments scope value
  have owned : environment.owner? variant.name = some base :=
    (binds.owned variant.name base).2 ⟨_, registered, rfl, List.mem_map_of_mem member⟩
  have tagger := binds.tagged variant.name base owned
  refine ⟨_, _, by rw [tagger]; rfl, ?_⟩
  intro options room
  have stepped := Level.step?_carrier scope.heap room variant.name value
  constructor
  · intro path pulls
    exact Walker.items_succ_of_next pulls (Walker.next?_of_ok stepped)
  · intro source name datum
    exact Document.read?_tagged_eq_ok_iff stepped distinct member rfl

/-- A level that is fixed at a number. -/
theorem read?_of_fixed_level :
    let variants : List (Variant Schema) := [⟨"off", .unit⟩, ⟨"fixed", .value (.integer .i64)⟩]
    let loader : Loader := ⟨[⟨"Level", ["off", "fixed"]⟩], {}⟩
    loader.Reachable ∧
      ∃ environment, Environment.initial.bindAll loader.sets = .ok environment ∧
        ∃ result after, (environment.global "fixed").call? (.integer 7) (.ofEnvironment environment) =
            some (result, after) ∧
          (Document.mk after.heap result "text" {}).read? (.enumeration "Level" variants) =
            some (.ok (.variant "fixed" (.integer 7))) := by
  intro variants loader
  have accepted : Loader.initial.register ⟨"Level", ["off", "fixed"]⟩ = .ok loader := rfl
  have reachable : loader.Reachable := .register .initial accepted
  obtain ⟨environment, bound, makes⟩ := read?_of_tag.2.2 loader reachable "Level" variants
    (by decide) (.head _) Environment.initial.heap Environment.initial.globals
  obtain ⟨result, after, called, agrees⟩ := makes ⟨"fixed", .value (.integer .i64)⟩
    (.tail _ (.head _)) [.integer 7] (.ofEnvironment environment)
  have alone : (Document.mk after.heap (.integer 7) "text" {}).read? (.integer .i64) =
      some (.ok (.integer 7)) :=
    Document.read?_eq_ok_iff.2 ⟨.primitive "7", ⟨[], .single rfl, rfl⟩, rfl⟩
  have room : 1 ≤ ({} : Options).maxDepth := by decide
  exact ⟨reachable, environment, bound, result, after, called,
    ((agrees {} room).2 "text" "fixed" (.integer 7)).2 ⟨rfl, alone⟩⟩

end Loader

end ConfigScript
