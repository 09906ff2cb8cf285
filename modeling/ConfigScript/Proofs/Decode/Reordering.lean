import ConfigScript.Proofs.Decode.Agreement
import ConfigScript.Proofs.Decode.Field
import ConfigScript.Proofs.Decode.Likeness
import ConfigScript.Proofs.Decode.Outcome
import ConfigScript.Proofs.Event.Reordering

/-!
# The order of entries makes no difference

Trees that differ only in the order of entries are values of the same schemas, and the values differ
only in the order of entries of maps. A record asks for its fields by name and an object of JSON is
arranged by key, so neither depends on the order in which a table lists its entries.
-/

set_option autoImplicit false

namespace ConfigScript

namespace Tree.Reordered

variable {tree other : Tree}

theorem opening_eq (reordered : tree.Reordered other) : tree.opening = other.opening := by
  cases reordered <;> rfl

/-- Read without a schema, the trees differ in the order of entries only. -/
theorem toUntyped (reordered : tree.Reordered other) :
    tree.toUntyped.Reordered other.toUntyped := by
  refine Reordered.induction ?primitive ?tagged ?object ?array reordered
  case primitive =>
    intro text
    exact .refl _
  case tagged =>
    intro name payload other alike
    exact .of_unordered ⟨[(name, other.toUntyped)], .cons ⟨rfl, alike⟩ .nil, .refl _⟩
  case object =>
    intro entries others _ unordered
    rw [Tree.toUntyped, Tree.toUntyped, entriesToUntyped_eq_map, entriesToUntyped_eq_map]
    exact .of_unordered (unordered.map fun _ _ alike => alike)
  case array =>
    intro items others each
    rw [Tree.toUntyped, Tree.toUntyped, itemsToUntyped_eq_map, itemsToUntyped_eq_map]
    refine .list ?_
    rwa [List.forall₂_map_left_iff, List.forall₂_map_right_iff]

/-- JSON does not show the order of entries at all. -/
theorem toJson_eq (reordered : tree.Reordered other) : tree.toJson = other.toJson := by
  refine Reordered.induction ?primitive ?tagged ?object ?array reordered
  case primitive =>
    intro text
    rfl
  case tagged =>
    intro name payload other same
    rw [toJson_tagged, toJson_tagged, same]
  case object =>
    intro entries others distinct unordered
    have order := unordered_eq_iff_perm_map.1 unordered
    have distinctMembers :
        ((entries.map fun entry => (entry.1, entry.2.toJson)).map (·.1)).Nodup := by
      rwa [List.map_map]
    simp only [toJson_object, Json.ofMembers_eq_of_perm distinctMembers order.symm]
  case array =>
    intro items others each
    rw [toJson_array, toJson_array, forall₂_eq_iff_map_eq_map.1 each]

end Tree.Reordered

namespace SameOutcome

theorem noEntries {entries others : List (String × Tree)} (same : entries.length = others.length) :
    SameOutcome Eq (Tree.noEntries entries) (Tree.noEntries others) := by
  cases entries with
  | nil =>
      obtain rfl := List.eq_nil_of_length_eq_zero same.symm
      exact .value rfl
  | cons entry rest =>
      cases others with
      | nil => cases same
      | cons other others => exact .cause _ _

end SameOutcome

/-- What is made of trees that differ only in the order of entries is alike. -/
def Insensitive {α : Type} (related : α → α → Prop) (interpret : Tree → Except Cause α) : Prop :=
  ∀ ⦃tree other : Tree⦄, tree.Reordered other →
    SameOutcome related (interpret tree) (interpret other)

namespace Insensitive

variable {α β : Type} {related : α → α → Prop} {next : β → β → Prop}
  {interpret : Tree → Except Cause α}

theorem map (insensitive : Insensitive related interpret) {function : α → β}
    (holds : ∀ value other, related value other → next (function value) (function other)) :
    Insensitive next fun tree => (interpret tree).map function :=
  fun _ _ reordered => (insensitive reordered).map fun value other _ => holds value other

theorem ofScalar (expected : String) (read : String → Except Cause Datum) :
    Insensitive Datum.Reordered (Tree.ofScalar expected read) := by
  intro tree other reordered
  cases reordered with
  | primitive text => exact .of_refl .refl _
  | tagged | object | array => exact .cause _ _

theorem ofNothing : Insensitive Eq Tree.ofNothing := by
  intro tree other reordered
  cases reordered with
  | primitive text => exact .of_refl (fun _ => rfl) _
  | object distinct keys values order =>
      exact .noEntries (Unordered.of_map keys values order).length_eq
  | tagged | array => exact .cause _ _

theorem ofSequence {items : List Tree → Except Cause Datum} {empty : Except Cause Datum}
    (each : ∀ trees others, List.Forall₂ Tree.Reordered trees others →
      SameOutcome Datum.Reordered (items trees) (items others)) :
    Insensitive Datum.Reordered (Tree.ofSequence items empty) := by
  intro tree other reordered
  cases reordered with
  | array alike => exact each _ _ alike
  | object distinct keys values order =>
      have length := (Unordered.of_map keys values order).length_eq
      exact (SameOutcome.noEntries length).bind fun _ _ _ _ => .of_refl .refl empty
  | primitive | tagged => exact .cause _ _

theorem mapM_items {interpretation : Interpretation}
    (insensitive : Insensitive Datum.Reordered interpretation) {trees others : List Tree}
    (alike : List.Forall₂ Tree.Reordered trees others) :
    SameOutcome (List.Forall₂ Datum.Reordered) (trees.mapM interpretation)
      (others.mapM interpretation) :=
  .mapM (alike.imp fun _ _ reordered => insensitive reordered)

theorem ofPlaces (expected : String) {places : List Interpretation}
    (insensitive : ∀ place ∈ places, Insensitive Datum.Reordered place) (position : Nat)
    {trees others : List Tree} (alike : List.Forall₂ Tree.Reordered trees others) :
    SameOutcome (List.Forall₂ Datum.Reordered) (Tree.ofPlaces expected places position trees)
      (Tree.ofPlaces expected places position others) := by
  induction places generalizing position trees others with
  | nil =>
      cases alike with
      | nil => exact .value .nil
      | cons => exact .cause _ _
  | cons place places ih =>
      obtain ⟨insensitiveHere, insensitiveRest⟩ := List.forall_mem_cons.1 insensitive
      cases alike with
      | nil => exact .cause _ _
      | cons reordered alike =>
          refine (insensitiveHere reordered).bind fun value other _ first => ?_
          exact (ih insensitiveRest (position + 1) alike).bind fun _ _ _ rest =>
            .value (.cons first rest)

theorem ofTuple (expected : String) {places : List Interpretation}
    (insensitive : ∀ place ∈ places, Insensitive Datum.Reordered place) :
    Insensitive Datum.Reordered (Tree.ofTuple expected places) := by
  refine ofSequence fun trees others alike => ?_
  exact (ofPlaces expected insensitive 0 alike).map fun _ _ _ each => .list each

theorem ofMap (key : String → Except Cause Datum) {value : Interpretation}
    (insensitive : Insensitive Datum.Reordered value) :
    Insensitive (Unordered Datum.Reordered) (Tree.ofMap key value) := by
  intro tree other reordered
  cases reordered with
  | object distinct keys values order =>
      refine (Unordered.of_map keys values order).mapM fun name value other alike => ?_
      refine (SameOutcome.of_refl (fun _ => rfl) (key name)).bind fun known _ _ same => ?_
      exact (insensitive alike).bind fun _ _ _ holds => .value ⟨same, holds⟩
  | primitive | tagged | array => exact .cause _ _

variable {fields : List (String × Interpretation)}

theorem field? (insensitive : ∀ field ∈ fields, Insensitive Datum.Reordered field.2)
    (closed : Bool) (name : String) {value other : Tree} (reordered : value.Reordered other) :
    SameOutcome (Option.Rel fun part other => part.1 = other.1 ∧ part.2.Reordered other.2)
      (Tree.field? fields closed (name, value)) (Tree.field? fields closed (name, other)) := by
  unfold Tree.field?
  cases found : fields.lookup name with
  | none =>
      cases closed with
      | true => exact .cause _ _
      | false => exact .value .none
  | some field =>
      exact (insensitive (name, field) (mem_of_lookup found) reordered).map
        fun _ _ _ alike => .some ⟨rfl, alike⟩

/-- The fields found under each name do not depend on the order of the entries. -/
theorem fields_found (insensitive : ∀ field ∈ fields, Insensitive Datum.Reordered field.2)
    (closed : Bool) {entries others : List (String × Tree)}
    (distinct : (entries.map (·.1)).Nodup) (unordered : Unordered Tree.Reordered entries others) :
    SameOutcome (fun found other => ∀ name,
        Option.Rel Datum.Reordered (found.lookup name) (other.lookup name))
      (entries.foldlM (Tree.ofField fields closed) [])
      (others.foldlM (Tree.ofField fields closed) []) := by
  have distinctOthers := unordered.map_key_perm.nodup_iff.1 distinct
  rw [Tree.foldlM_ofField distinct fun _ _ => List.not_mem_nil,
    Tree.foldlM_ofField distinctOthers fun _ _ => List.not_mem_nil]
  refine (unordered.mapM fun name _ _ => field? insensitive closed name).map ?_
  intro parts otherParts known unordered name
  obtain ⟨listed, each, order⟩ := unordered
  have alike : Unordered Datum.Reordered parts.reduceOption otherParts.reduceOption :=
    ⟨listed.reduceOption, List.rel_filterMap (fun _ _ same => same) each, order.filterMap _⟩
  have distinctParts : (parts.reduceOption.map (·.1)).Nodup :=
    (Tree.keys_sublist_of_mapM known).nodup distinct
  have distinctOtherParts := alike.map_key_perm.nodup_iff.1 distinctParts
  rw [List.append_nil, List.append_nil, lookup_of_perm distinctParts (List.reverse_perm _),
    lookup_of_perm distinctOtherParts (List.reverse_perm _)]
  exact alike.lookup distinctParts name

theorem assemble {found others : List (String × Datum)}
    (alike : ∀ name, Option.Rel Datum.Reordered (found.lookup name) (others.lookup name))
    (declared : List (Field Schema)) :
    SameOutcome (Keyed Datum.Reordered) (Field.assemble found declared)
      (Field.assemble others declared) := by
  induction declared with
  | nil => exact .value .nil
  | cons field rest ih =>
      rw [Field.assemble, Field.assemble]
      have here : SameOutcome Datum.Reordered ((found.lookup field.name).elim field.absent .ok)
          ((others.lookup field.name).elim field.absent .ok) := by
        have same := alike field.name
        generalize found.lookup field.name = value at same ⊢
        generalize others.lookup field.name = other at same ⊢
        cases same with
        | none => exact .of_refl .refl _
        | some same => exact .value same
      exact here.bind fun _ _ _ same => ih.bind fun _ _ _ rest => .value (.cons ⟨rfl, same⟩ rest)

theorem ofRecord (declared : List (Field Schema))
    (insensitive : ∀ field ∈ fields, Insensitive Datum.Reordered field.2) (closed : Bool) :
    Insensitive Datum.Reordered (Tree.ofRecord declared fields closed) := by
  intro tree other reordered
  cases reordered with
  | object distinct keys values order =>
      refine (fields_found insensitive closed distinct (.of_map keys values order)).bind ?_
      intro found other _ alike
      exact (assemble alike declared).bind fun _ _ _ keyed => .value (.of_keyed keyed)
  | primitive | tagged | array => exact .cause _ _

theorem ofVariant (insensitive : ∀ field ∈ fields, Insensitive Datum.Reordered field.2)
    (name : String) : Insensitive Datum.Reordered (Tree.ofVariant fields name) := by
  unfold Tree.ofVariant
  cases found : fields.lookup name with
  | none => exact fun _ _ _ => .cause _ _
  | some payload =>
      exact (insensitive (name, payload) (mem_of_lookup found)).map fun _ _ alike =>
        .variant name alike

theorem exists_ofEnumeration_eq_error (bare : String → Except Cause Datum)
    (first second : String × Tree) (rest : List (String × Tree)) : ∃ cause,
    Tree.ofEnumeration fields bare (.object (first :: second :: rest)) = .error cause := by
  obtain ⟨name, payload⟩ := first
  rw [Tree.ofEnumeration]
  cases Tree.ofVariant fields name payload with
  | error cause => exact ⟨cause, rfl⟩
  | ok value => exact ⟨_, rfl⟩

/-- Only an object of one entry is a variant, so it does not matter which entry is listed first. -/
theorem ofEnumeration (insensitive : ∀ field ∈ fields, Insensitive Datum.Reordered field.2)
    (bare : String → Except Cause Datum) :
    Insensitive Datum.Reordered (Tree.ofEnumeration fields bare) := by
  intro tree other reordered
  cases reordered with
  | primitive name => exact .of_refl .refl _
  | tagged name inside => exact ofVariant insensitive name inside
  | array each => exact .cause _ _
  | @object entries listed others distinct keys values order =>
      have keyed : Keyed Tree.Reordered entries listed := .of_map keys values
      match entries, listed, keyed with
      | [], [], .nil =>
          rw [List.nil_perm.1 order]
          exact .cause _ _
      | [(name, payload)], [(_, other)], .cons ⟨same, inside⟩ .nil =>
          obtain rfl := List.singleton_perm.1 order
          obtain rfl : name = _ := same
          exact (ofVariant insensitive name inside).bind fun _ _ _ alike => .value alike
      | first :: second :: rest, _ :: _ :: _, .cons _ (.cons _ _) =>
          match others, order.length_eq with
          | otherFirst :: otherSecond :: others, _ =>
              obtain ⟨cause, refused⟩ := exists_ofEnumeration_eq_error bare first second rest
              obtain ⟨otherCause, otherRefused⟩ :=
                exists_ofEnumeration_eq_error bare otherFirst otherSecond others
              rw [refused, otherRefused]
              exact .cause _ _

theorem option {interpretation : Interpretation}
    (insensitive : Insensitive Datum.Reordered interpretation) :
    Insensitive Datum.Reordered fun tree =>
      if tree.opening = .primitive "null" then .ok .none else (interpretation tree).map .some := by
  intro tree other reordered
  simp only [reordered.opening_eq]
  split
  · exact .of_refl .refl _
  · exact (insensitive reordered).map fun _ _ _ alike => .some alike

theorem inductive_interpretation : Interpretation.Inductive (Insensitive Datum.Reordered) where
  scalar := ofScalar
  nothing := ofNothing.map fun _ _ _ => .refl _
  ignored _ _ _ := .value (.refl _)
  untyped _ _ reordered := .value (.untyped reordered.toUntyped)
  json _ _ reordered := .value (congrArg Datum.json reordered.toJson_eq ▸ .refl _)
  option insensitive := insensitive.option
  seq insensitive := ofSequence fun _ _ alike =>
    (mapM_items insensitive alike).map fun _ _ _ each => .list each
  tuple expected _ insensitive := ofTuple expected insensitive
  map key _ insensitive := (ofMap key insensitive).map fun _ _ unordered => .of_unordered unordered
  wrapper insensitive := insensitive.map fun _ _ alike => .wrapped alike
  record declared _ closed insensitive := ofRecord declared insensitive closed
  enumeration bare insensitive := ofEnumeration insensitive bare

end Insensitive

/-- What a schema makes of a tree does not depend on the order in which entries are listed. -/
theorem Schema.insensitive_interpret (schema : Schema) :
    Insensitive Datum.Reordered schema.interpret :=
  Insensitive.inductive_interpretation.interpret schema

variable {ε : Type}

/-- Two sequences of events that differ only in the order of the entries of objects, at any depth,
are both values of a schema or both none, and the values differ only in the order of the entries of
maps. -/
theorem decode_of_reordered {tree other : Tree} (reordered : tree.Reordered other)
    {events others : List (Event × Path)} (shape : events.map (·.1) = tree.events)
    (otherShape : others.map (·.1) = other.events) (schema : Schema) :
    let result := decode schema (events.map .ok : List (Item ε))
    let otherResult := decode schema (others.map .ok : List (Item ε))
    ((∃ datum, result = .ok datum) ↔ ∃ datum, otherResult = .ok datum) ∧
      ∀ datum otherDatum, result = .ok datum → otherResult = .ok otherDatum →
        datum.Reordered otherDatum ∧ (datum.hasMap = false → datum = otherDatum) := by
  intro result otherResult
  have read : ∀ datum, result = .ok datum ↔ schema.interpret tree = .ok datum :=
    fun _ => decode_eq_ok_iff_of_events shape
  have otherRead : ∀ datum, otherResult = .ok datum ↔ schema.interpret other = .ok datum :=
    fun _ => decode_eq_ok_iff_of_events otherShape
  have same := schema.insensitive_interpret reordered
  simp only [read, otherRead]
  refine ⟨same.exists_ok_iff, fun datum otherDatum meant otherMeant => ?_⟩
  rw [meant, otherMeant] at same
  cases same with
  | value alike => exact ⟨alike, alike.eq_of_not_hasMap⟩

/-- The fields of a record and the entries of a map in it, each in another order. -/
theorem decode_of_swapped_limits :
    let first : Tree := .object [("name", .primitive "local"),
      ("limits", .object [("low", .primitive "1"), ("high", .primitive "9")])]
    let second : Tree := .object [("limits", .object [("high", .primitive "9"),
      ("low", .primitive "1")]), ("name", .primitive "local")]
    let schema : Schema := .record "Server" [⟨"name", .text, false⟩,
      ⟨"limits", .map .text (.integer .i64), false⟩] true
    let items : Tree → List (Item String) := fun tree =>
      ((Path.root "text").along tree.events).map .ok
    first.Reordered second ∧ ∃ datum other, decode schema (items first) = .ok datum ∧
      decode schema (items second) = .ok other ∧ datum.Reordered other := by
  intro first second schema items
  have limits : Tree.Reordered (.object [("low", .primitive "1"), ("high", .primitive "9")])
      (.object [("high", .primitive "9"), ("low", .primitive "1")]) :=
    .object (by decide) rfl (.cons (.primitive _) (.cons (.primitive _) .nil)) (.swap _ _ _)
  have reordered : first.Reordered second := by
    refine .of_unordered (by decide) ⟨[_, _], ?_, .swap _ _ _⟩
    exact .cons ⟨rfl, .primitive _⟩ (.cons ⟨rfl, limits⟩ .nil)
  have alike := (decode_of_reordered (ε := String) reordered
    ((Path.root "text").along_eq_map _) ((Path.root "text").along_eq_map _) schema).2
  exact ⟨reordered, _, _, rfl, rfl, (alike _ _ rfl rfl).1⟩

end ConfigScript
