import ConfigScript.Proofs.Decode.Agreement
import ConfigScript.Proofs.Decode.Outcome
import ConfigScript.Proofs.Event.Untagging

/-!
# Tags may be keys instead

What is read from a tree is read from it still when some of its tags have become keys of objects of
one entry. Only a variant and a value of any form can begin with a tag, and both are told from such
an object as well. The converse does not hold, since a record is not told from a tag.
-/

set_option autoImplicit false

namespace ConfigScript

namespace Tree.Untagged

variable {tree other : Tree}

theorem opening_eq_primitive_iff (untagged : tree.Untagged other) (text : String) :
    tree.opening = .primitive text ↔ other.opening = .primitive text := by
  cases untagged with
  | primitive | tagged | object | array => rfl
  | replaced => exact iff_of_false nofun nofun

/-- Read without a schema, the trees are the same. -/
theorem toUntyped_eq (untagged : tree.Untagged other) : tree.toUntyped = other.toUntyped := by
  induction tree generalizing other with
  | primitive text =>
      cases untagged
      rfl
  | tagged name payload ih =>
      cases untagged with
      | tagged _ inside => rw [Tree.toUntyped, Tree.toUntyped, ih inside]
      | replaced _ inside =>
          rw [Tree.toUntyped, ih inside]
          rfl
  | object entries ih =>
      cases untagged with
      | @object _ others keys values =>
          have alike : Keyed Untagged entries others := .of_map keys values
          have same : Keyed (fun value other => value.toUntyped = other.toUntyped) entries others :=
            alike.imp_of_mem fun entry member _ inside => ih entry member inside
          rw [Tree.toUntyped, Tree.toUntyped, entriesToUntyped_eq_map, entriesToUntyped_eq_map,
            (same.map fun _ _ equal => equal).eq]
  | array items ih =>
      cases untagged with
      | @array _ others each =>
          have same : items.map Tree.toUntyped = others.map Tree.toUntyped :=
            forall₂_eq_iff_map_eq_map.1
              (forall₂_imp_of_mem each fun item member _ _ inside => ih item member inside)
          rw [Tree.toUntyped, Tree.toUntyped, itemsToUntyped_eq_map, itemsToUntyped_eq_map, same]

end Tree.Untagged

theorem Tree.noEntries_congr {entries others : List (String × Tree)}
    (keys : entries.map (·.1) = others.map (·.1)) : noEntries entries = noEntries others := by
  cases entries with
  | nil =>
      obtain rfl := List.map_eq_nil_iff.1 keys.symm
      rfl
  | cons entry entries =>
      cases others with
      | nil => cases keys
      | cons other others =>
          have same : entry.1 = other.1 := (List.cons.inj keys).1
          rw [noEntries, noEntries, same]

/-- What is made of a tree is made of it when tags have become keys. -/
def Lenient {α : Type} (interpret : Tree → Except Cause α) : Prop :=
  ∀ ⦃tree other : Tree⦄, tree.Untagged other → Kept (interpret tree) (interpret other)

namespace Lenient

variable {α κ : Type} {interpret : Tree → Except Cause α} {places : List Interpretation}
  {fields : List (String × Interpretation)}

theorem map {β : Type} (lenient : Lenient interpret) (function : α → β) :
    Lenient fun tree => (interpret tree).map function :=
  fun _ _ untagged => (lenient untagged).map function

/-- What is made of the value of any form that a tree presents. -/
theorem of_toUntyped (make : Untyped → Except Cause α) :
    Lenient fun tree => make tree.toUntyped := by
  intro tree other untagged
  simp only [untagged.toUntyped_eq]
  exact .refl _

theorem ofScalar (expected : String) (read : String → Except Cause α) :
    Lenient (Tree.ofScalar expected read) := by
  intro tree other untagged
  cases untagged with
  | primitive text => exact .refl _
  | tagged | replaced | object | array => exact .of_error _ _

theorem ofNothing : Lenient Tree.ofNothing := by
  intro tree other untagged
  cases untagged with
  | primitive text => exact .refl _
  | @object entries others keys values =>
      change Kept (Tree.noEntries entries) (Tree.noEntries others)
      rw [Tree.noEntries_congr keys]
      exact .refl _
  | tagged | replaced | array => exact .of_error _ _

theorem ofSequence {items : List Tree → Except Cause α} {empty : Except Cause α}
    (each : ∀ trees others, List.Forall₂ Tree.Untagged trees others →
      Kept (items trees) (items others)) : Lenient (Tree.ofSequence items empty) := by
  intro tree other untagged
  cases untagged with
  | array alike => exact each _ _ alike
  | object keys values =>
      rw [Tree.ofSequence, Tree.ofSequence, Tree.noEntries_congr keys]
      exact .refl _
  | primitive | tagged | replaced => exact .of_error _ _

theorem ofPlaces (expected : String) (lenient : ∀ place ∈ places, Lenient place) (position : Nat)
    {trees others : List Tree} (alike : List.Forall₂ Tree.Untagged trees others) :
    Kept (Tree.ofPlaces expected places position trees)
      (Tree.ofPlaces expected places position others) := by
  induction places generalizing position trees others with
  | nil =>
      cases alike with
      | nil => exact .refl _
      | cons => exact .of_error _ _
  | cons place places ih =>
      obtain ⟨here, later⟩ := List.forall_mem_cons.1 lenient
      cases alike with
      | nil => exact .of_error _ _
      | cons untagged alike =>
          apply (here untagged).bind
          intro value _
          apply (ih later (position + 1) alike).bind
          intro values _
          exact .refl _

theorem ofTuple (expected : String) (lenient : ∀ place ∈ places, Lenient place) :
    Lenient (Tree.ofTuple expected places) :=
  ofSequence fun _ _ alike => (ofPlaces expected lenient 0 alike).map Datum.list

theorem ofMap (key : String → Except Cause κ) (lenient : Lenient interpret) :
    Lenient (Tree.ofMap key interpret) := by
  intro tree other untagged
  cases untagged with
  | object keys values =>
      apply Kept.mapM
      apply (Keyed.of_map keys values).imp
      intro entry other pair
      obtain ⟨same, inside⟩ := pair
      rw [same]
      apply (Kept.refl (key other.1)).bind
      intro name _
      apply (lenient inside).bind
      intro value _
      exact .refl _
  | primitive | tagged | replaced | array => exact .of_error _ _

theorem ofField (lenient : ∀ field ∈ fields, Lenient field.2) (closed : Bool)
    (found : List (String × Datum)) {entry other : String × Tree} (same : entry.1 = other.1)
    (untagged : entry.2.Untagged other.2) :
    Kept (Tree.ofField fields closed found entry) (Tree.ofField fields closed found other) := by
  unfold Tree.ofField
  rw [same]
  cases known : fields.lookup other.1 with
  | none => exact .refl _
  | some field =>
      have kept := lenient (other.1, field) (mem_of_lookup known) untagged
      cases (found.lookup other.1).isSome with
      | true => exact .refl _
      | false => exact kept.bind fun _ _ => .refl _

theorem ofRecord (declared : List (Field Schema)) (lenient : ∀ field ∈ fields, Lenient field.2)
    (closed : Bool) : Lenient (Tree.ofRecord declared fields closed) := by
  intro tree other untagged
  cases untagged with
  | object keys values =>
      have each := (Keyed.of_map keys values).imp fun entry other pair found =>
        ofField lenient closed found pair.1 pair.2
      exact (Kept.foldlM each []).bind fun _ _ => .refl _
  | primitive | tagged | replaced | array => exact .of_error _ _

theorem ofVariant (lenient : ∀ field ∈ fields, Lenient field.2) (name : String) :
    Lenient (Tree.ofVariant fields name) := by
  unfold Tree.ofVariant
  cases known : fields.lookup name with
  | none => exact fun _ _ _ => .of_error _ _
  | some payload => exact (lenient (name, payload) (mem_of_lookup known)).map (Datum.variant name)

/-- A variant is told from the only key of an object as it is from a tag. -/
theorem ofEnumeration (lenient : ∀ field ∈ fields, Lenient field.2)
    (bare : String → Except Cause Datum) : Lenient (Tree.ofEnumeration fields bare) := by
  intro tree other untagged
  cases untagged with
  | primitive name => exact .refl _
  | tagged name inside => exact ofVariant lenient name inside
  | @replaced name payload other inside =>
      have same : Tree.ofEnumeration fields bare (.object [(name, other)]) =
          Tree.ofVariant fields name other := bind_pure _
      rw [same]
      exact ofVariant lenient name inside
  | array each => exact .of_error _ _
  | @object entries others keys values =>
      cases (Keyed.of_map keys values : Keyed Tree.Untagged entries others) with
      | nil => exact .refl _
      | @cons entry other entries others pair keyed =>
          obtain ⟨name, payload⟩ := entry
          obtain ⟨_, other⟩ := other
          obtain ⟨rfl, inside⟩ := pair
          apply (ofVariant lenient name inside).bind
          intro value _
          rw [Tree.noEntries_congr (Keyed.map_key keyed)]
          exact .refl _

theorem option (lenient : Lenient interpret) (absent : Except Cause α) :
    Lenient fun tree => if tree.opening = .primitive "null" then absent else interpret tree := by
  intro tree other untagged
  simp only [untagged.opening_eq_primitive_iff]
  split
  · exact .refl _
  · exact lenient untagged

theorem inductive_interpretation : Interpretation.Inductive Lenient where
  scalar := ofScalar
  nothing := ofNothing.map _
  ignored _ _ _ := .refl _
  untyped := of_toUntyped fun value => .ok (Datum.untyped value)
  json := of_toUntyped fun value => .ok (Datum.json value.toJson)
  option lenient := (lenient.map Datum.some).option _
  seq lenient := ofSequence fun _ _ alike =>
    (Kept.mapM (alike.imp fun _ _ untagged => lenient untagged)).map Datum.list
  tuple expected _ lenient := ofTuple expected lenient
  map key _ lenient := (ofMap key lenient).map Datum.map
  wrapper lenient := lenient.map Datum.wrapped
  record declared _ closed lenient := ofRecord declared lenient closed
  enumeration bare lenient := ofEnumeration lenient bare

end Lenient

theorem Schema.lenient_interpret (schema : Schema) : Lenient schema.interpret :=
  Lenient.inductive_interpretation.interpret schema

variable {ε : Type}

/-- Replacing one tag after another leaves a tree that a schema reads as before. -/
theorem Tree.exists_kept (tree : Tree) {events : List Event}
    (replaced : Relation.ReflTransGen Event.Untags tree.events events) :
    ∃ other : Tree, other.events = events ∧
      ∀ schema : Schema, Kept (schema.interpret tree) (schema.interpret other) := by
  induction replaced with
  | refl => exact ⟨tree, rfl, fun _ => .refl _⟩
  | tail _ untags ih =>
      obtain ⟨middle, rfl, kept⟩ := ih
      obtain ⟨other, untagged, shape⟩ := Tree.exists_untagged untags
      refine ⟨other, shape, fun schema datum meant => ?_⟩
      apply schema.lenient_interpret untagged
      exact kept schema meant

/-- When tags of a value have become keys of objects, however many and at any depth, it is still one
value, and whatever it was read as, it is read as the same. -/
theorem decode_of_untags {events others : List (Event × Path)}
    (whole : WellFormed (events.map (·.1)))
    (replaced : Relation.ReflTransGen Event.Untags (events.map (·.1)) (others.map (·.1))) :
    WellFormed (others.map (·.1)) ∧ ∀ (schema : Schema) (datum : Datum),
      decode schema (events.map .ok : List (Item ε)) = .ok datum →
        decode schema (others.map .ok : List (Item ε)) = .ok datum := by
  obtain ⟨tree, shape⟩ := whole
  rw [← shape] at replaced
  obtain ⟨other, otherShape, kept⟩ := tree.exists_kept replaced
  refine ⟨⟨other, otherShape⟩, fun schema datum decoded => ?_⟩
  rw [decode_eq_ok_iff_of_events shape.symm] at decoded
  rw [decode_eq_ok_iff_of_events otherShape.symm]
  exact kept schema decoded

/-- A tag under a tag, where both become keys. -/
theorem decode_of_nested_tags_as_keys :
    let tags : Tree := .array [.tagged "scaled" (.tagged "by" (.primitive "2"))]
    let keys : Tree := .array [.object [("scaled", .object [("by", .primitive "2")])]]
    let inner : Schema := .enumeration "Step" [⟨"by", .value (.integer .i64)⟩]
    let schema : Schema := .seq (.enumeration "Shape" [⟨"scaled", .value inner⟩])
    let items : Tree → List (Event × Path) := fun tree => (Path.root "text").along tree.events
    WellFormed tags.events ∧ Relation.ReflTransGen Event.Untags tags.events keys.events ∧
      decode schema ((items tags).map .ok : List (Item String)) =
        .ok (.list [.variant "scaled" (.variant "by" (.integer 2))]) ∧
      decode schema ((items keys).map .ok : List (Item String)) =
        .ok (.list [.variant "scaled" (.variant "by" (.integer 2))]) := by
  intro tags keys inner schema items
  have outer : Event.Untags tags.events
      (Tree.array [.object [("scaled", .tagged "by" (.primitive "2"))]]).events :=
    .tag [.arrayOpen] "scaled" (.tagged "by" (.primitive "2")) [.arrayClose]
  have below : Event.Untags (Tree.array [.object [("scaled", .tagged "by" (.primitive "2"))]]).events
      keys.events :=
    .tag [.arrayOpen, .objectOpen, .key "scaled"] "by" (.primitive "2") [.objectClose, .arrayClose]
  have replaced : Relation.ReflTransGen Event.Untags tags.events keys.events :=
    .tail (.single outer) below
  have read : decode schema ((items tags).map .ok : List (Item String)) =
      .ok (.list [.variant "scaled" (.variant "by" (.integer 2))]) := rfl
  have whole : WellFormed tags.events := ⟨tags, rfl⟩
  have kept := @decode_of_untags String (items tags) (items keys) whole replaced
  exact ⟨whole, replaced, read, kept.2 schema _ read⟩

end ConfigScript
