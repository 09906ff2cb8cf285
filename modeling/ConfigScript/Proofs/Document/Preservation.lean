import ConfigScript.Proofs.Document.Content
import ConfigScript.Proofs.Document.Presented
import ConfigScript.Proofs.Number.Decimal

/-!
# Content is preserved

A value that holds some content is read as the JSON of that content. On the way everything becomes
text, so the texts must tell the scalars apart, and the order in which a table lists its entries
must not matter.
-/

set_option autoImplicit false

namespace ConfigScript

/-- Members of distinct keys make the same object in any order. -/
theorem Json.ofMembers_of_perm {members listed : List (String × Json)}
    (distinct : (members.map (·.1)).Nodup) (order : listed.Perm members) :
    ofMembers listed = .object (members.mergeSort Content.memberLE) := by
  have perm : (members.mergeSort Content.memberLE).Perm members := List.mergeSort_perm _ _
  have apart : (members.mergeSort Content.memberLE).Pairwise
      fun first second => first.1 ≠ second.1 :=
    List.pairwise_map.1 ((perm.map _).nodup_iff.2 distinct)
  have arranged : (members.mergeSort Content.memberLE).Pairwise
      fun first second => Content.memberLE first second = true := by
    refine List.pairwise_mergeSort (fun first second third => ?_) (fun first second => ?_) members
    · simpa [Content.memberLE] using le_trans
    · simpa [Content.memberLE] using le_total first.1 second.1
  rw [ofMembers_eq_of_perm distinct order, ofMembers_eq_iff]
  constructor
  · refine (arranged.and apart).imp fun ordered => ?_
    exact lt_of_le_of_ne (of_decide_eq_true ordered.1) ordered.2
  · intro key
    rw [lookup_of_perm distinct perm, lookup_of_perm distinct members.reverse_perm]

namespace Untyped

theorem looksNumeric_eq_beginsNumber (text : String) :
    looksNumeric text = Content.beginsNumber text := by
  unfold looksNumeric Content.beginsNumber
  cases text.toList with
  | nil => rfl
  | cons c rest =>
      by_cases sign : c = '-'
      · subst sign
        cases rest <;> rfl
      · simp [sign]

theorem infer_of_isWord {text : String} (word : Content.IsWord text) :
    infer text = .text text := by
  obtain ⟨other, plain⟩ := word
  simp only [List.mem_cons, List.not_mem_nil, or_false, not_or] at other
  obtain ⟨notNull, notTrue, notFalse⟩ := other
  rw [infer, if_neg notNull, if_neg notTrue, if_neg notFalse, looksNumeric_eq_beginsNumber, plain]
  rfl

end Untyped

namespace Level

variable {heap : Heap} {options : Options} {first middle last outer : List Level}
  {events more : List Event} {value : Value}

/-- Levels that go through some events and then are others, unless a container on the way is one
too many. -/
inductive Traverses (heap : Heap) (options : Options) (first : List Level) (events : List Event)
    (last : List Level) : Prop
  | whole (walks : Walks heap options first events last) :
      Traverses heap options first events last
  | tooDeep {seen : List Event} {middle : List Level} (walks : Walks heap options first seen middle)
      (refused : step? heap options middle = some (.error (.tooDeep options.maxDepth))) :
      Traverses heap options first events last

namespace Traverses

theorem single {event : Event} (stepped : step? heap options first = some (.ok (event, last))) :
    Traverses heap options first [event] last :=
  .whole (.single stepped)

theorem trans (front : Traverses heap options first events middle)
    (back : Traverses heap options middle more last) :
    Traverses heap options first (events ++ more) last := by
  cases front with
  | tooDeep walks refused => exact .tooDeep walks refused
  | whole walks =>
      cases back with
      | whole walksBack => exact .whole (walks.trans walksBack)
      | tooDeep walksBack refused => exact .tooDeep (walks.trans walksBack) refused

theorem leave (traverses : Traverses heap options first events (.closed :: outer)) :
    Traverses heap options first events outer := by
  have left : Traverses heap options (.closed :: outer) [] outer := .whole (.leave .refl)
  simpa using traverses.trans left

end Traverses

/-- A value that is gone through as a tree that reads as some JSON, wherever it is entered. -/
def Presents (heap : Heap) (options : Options) (value : Value) (json : Json) : Prop :=
  ∀ first outer, step? heap options first = some (enter heap options value outer) →
    ∃ tree : Tree, tree.toJson = json ∧ Traverses heap options first tree.events outer

theorem presents_scalar {leaf : Scalar} {json : Json}
    (shaped : value.shape heap options.strictIntegers = .ok (.scalar leaf))
    (same : (Untyped.infer leaf.render).toJson = json) : Presents heap options value json := by
  intro first outer entering
  have entered : enter heap options value outer = .ok (.primitive leaf.render, outer) :=
    enter_eq_ok_iff.2 (.scalar leaf shaped)
  exact ⟨.primitive leaf.render, same, .single (entering.trans (congrArg some entered))⟩

/-- A container goes through its opening event and what is inside, or it is one too many. -/
theorem Traverses.of_opening {shape : Shape} {event : Event} {level : Level}
    (shaped : value.shape heap options.strictIntegers = .ok shape)
    (opening : shape.opening = (event, some level))
    (entering : step? heap options first = some (enter heap options value outer))
    (inside : Traverses heap options (level :: outer) events outer) :
    Traverses heap options first (event :: events) outer := by
  have entered : enter heap options value outer =
      if options.maxDepth ≤ outer.length then .error (.tooDeep options.maxDepth)
      else .ok (event, level :: outer) := by
    rw [enter, shaped]
    simp only [opening]
  by_cases full : options.maxDepth ≤ outer.length
  · rw [if_pos full] at entered
    exact .tooDeep .refl (entering.trans (congrArg some entered))
  · rw [if_neg full] at entered
    exact (single (entering.trans (congrArg some entered))).trans inside

theorem presents_tagged {name : String} {payload : Value} {json : Json}
    (shaped : value.shape heap options.strictIntegers = .ok (.tagged name payload))
    (presents : Presents heap options payload json) :
    Presents heap options value (.object [(name, json)]) := by
  intro first outer entering
  obtain ⟨tree, rfl, inside⟩ := presents (.single payload :: outer) outer rfl
  exact ⟨.tagged name tree, rfl, .of_opening shaped rfl entering inside⟩

theorem traverses_elements {values : List Value} {jsons : List Json}
    (presents : List.Forall₂ (Presents heap options) values jsons) (outer : List Level) :
    ∃ trees : List Tree, trees.map Tree.toJson = jsons ∧
      Traverses heap options (.elements values :: outer) (Tree.itemsEvents trees)
        (.elements [] :: outer) := by
  induction presents with
  | nil => exact ⟨[], rfl, .whole .refl⟩
  | @cons value json values jsons presents _ ih =>
      obtain ⟨tree, rfl, front⟩ := presents (.elements (value :: values) :: outer) _ rfl
      obtain ⟨trees, rfl, back⟩ := ih
      exact ⟨tree :: trees, rfl, front.trans back⟩

theorem presents_sequence {values : List Value} {jsons : List Json}
    (shaped : value.shape heap options.strictIntegers = .ok (.sequence values))
    (presents : List.Forall₂ (Presents heap options) values jsons) :
    Presents heap options value (.array jsons) := by
  intro first outer entering
  obtain ⟨trees, rfl, inside⟩ := traverses_elements presents outer
  exact ⟨.array trees, Tree.toJson_array trees,
    .of_opening shaped rfl entering (inside.trans (.single rfl)).leave⟩

theorem traverses_entries {entries : List (Value × Value)} {members : List (String × Json)}
    (presents : List.Forall₂ (UnderText (Presents heap options)) entries members) (outer : List Level) :
    ∃ trees : List (String × Tree),
      trees.map (fun entry => (entry.1, entry.2.toJson)) = members ∧
      Traverses heap options (.entries entries :: outer) (Tree.entriesEvents trees)
        (.entries [] :: outer) := by
  induction presents with
  | nil => exact ⟨[], rfl, .whole .refl⟩
  | @cons entry member entries members presents _ ih =>
      obtain ⟨key, value⟩ := entry
      obtain ⟨name, json⟩ := member
      obtain ⟨rfl, presents⟩ := presents
      have keyed : step? heap options (.entries ((.ofText name, value) :: entries) :: outer) =
          some (.ok (.key name, .entry value entries :: outer)) := by
        rw [step?, Value.keyText_ofText]
        rfl
      obtain ⟨tree, rfl, front⟩ := presents (.entry value entries :: outer) _ rfl
      obtain ⟨trees, rfl, back⟩ := ih
      exact ⟨(name, tree) :: trees, rfl, (Traverses.single keyed).trans (front.trans back)⟩

theorem presents_map {entries : List (Value × Value)} {members : List (String × Json)}
    (shaped : value.shape heap options.strictIntegers = .ok (.map entries))
    (presents : List.Forall₂ (UnderText (Presents heap options)) entries members) :
    Presents heap options value (Json.ofMembers members) := by
  intro first outer entering
  obtain ⟨trees, rfl, inside⟩ := traverses_entries presents outer
  exact ⟨.object trees, Tree.toJson_object trees,
    .of_opening shaped rfl entering (inside.trans (.single rfl)).leave⟩

end Level

namespace Content

open Level

variable {heap : Heap} {options : Options}

theorem nil_not_mem_of_holds {values : List Value} {items : List Content}
    (held : List.Forall₂ heap.Holds values items) (plain : ∀ item ∈ items, Plain false item) :
    Value.nil ∉ values := by
  induction held with
  | nil => exact List.not_mem_nil
  | @cons value item values items held _ ih =>
      obtain ⟨plain, plainRest⟩ := List.forall_mem_cons.1 plain
      rw [List.mem_cons, not_or]
      refine ⟨?_, ih plainRest⟩
      rintro rfl
      cases held
      cases plain

/-- Each entry of an object is found in the table under the text of its key. -/
theorem zip_of_holds {values : List Value} {members : List (String × Content)}
    (held : List.Forall₂ heap.Holds values (members.map (·.2))) :
    List.Forall₂ (UnderText heap.Holds) ((members.map (Value.ofText ·.1)).zip values) members := by
  induction members generalizing values with
  | nil => exact .nil
  | cons member rest ih =>
      cases held with
      | cons first others => exact .cons ⟨rfl, first⟩ (ih others)

theorem holds_toInt (n : Int64) : Number.IntegerKind.i64.holds n.toInt = true :=
  Number.IntegerKind.holds_i64_iff.2 ⟨n.le_toInt, n.toInt_lt⟩

/-- A value is presented as the JSON of the content that it holds. -/
theorem Plain.presents {nullable : Bool} {content : Content} (plain : Plain nullable content)
    {value : Value} (held : heap.Holds value content) :
    Presents heap options value content.toJson := by
  induction plain generalizing value with
  | null =>
      cases held
      exact presents_scalar rfl rfl
  | boolean flag =>
      cases held
      cases flag <;> exact presents_scalar rfl rfl
  | integer n =>
      cases held
      refine presents_scalar rfl ?_
      rw [Scalar.render, Untyped.infer_toString (holds_toInt n)]
      rfl
  | @text nullable text word =>
      cases held
      have shaped : (Value.ofText text).shape heap options.strictIntegers =
          .ok (.scalar (.text text)) := by
        rw [Value.shape, Value.ofText, Value.scalar, textOf_toByteArray]
        · rfl
        all_goals
          intro _ same
          cases same
      refine presents_scalar shaped ?_
      rw [Scalar.render, Untyped.infer_of_isWord word]
      rfl
  | @array nullable items some plain ih =>
      cases held with
      | @array id values _ lists held =>
          have filled : values ≠ [] := by
            rw [← List.length_pos_iff, held.length_eq]
            exact List.length_pos_iff.2 some
          have presents : List.Forall₂ (Presents heap options) values (items.map toJson) := by
            rw [List.forall₂_map_right_iff]
            exact forall₂_imp_of_mem held fun value _ item member holds =>
              ih item member holds
          rw [toJson, itemsToJson_eq_map]
          exact presents_sequence (lists.shape_eq filled (nil_not_mem_of_holds held plain)) presents
  | @object nullable members distinct untagged plain ih =>
      cases held with
      | @object id values _ order held =>
          -- The members as the table lists them.
          obtain ⟨listed, heldListed, same⟩ := List.perm_comp_forall₂ order (zip_of_holds held)
          have shaped : (heap.table id).shape = .ok (.map (heap.table id).entries) := by
            refine Table.shape_of_texts (map_key_of_underText heldListed) ?_
            rwa [(same.map _).mem_iff]
          have presents : List.Forall₂ (UnderText (Presents heap options)) (heap.table id).entries
              (listed.map fun member => (member.1, member.2.toJson)) := by
            rw [List.forall₂_map_right_iff]
            refine forall₂_imp_of_mem heldListed fun entry _ member found holds => ?_
            exact ⟨holds.1, ih member (same.mem_iff.1 found) holds.2⟩
          have sameJson := same.map fun member => (member.1, member.2.toJson)
          rw [toJson, membersToJson_eq_map, ← Json.ofMembers_of_perm ?_ sameJson]
          · exact presents_map shaped presents
          · rwa [List.map_map]
  | tagged name plain ih =>
      cases held with
      | tagged order held => exact presents_tagged (Table.shape_of_carrier order) (ih held)

end Content

namespace Document

variable {document : Document} {content : Content}

/-- Plain content is read back as its JSON, in whatever order the tables list their entries, unless
it is nested too deeply. -/
theorem read?_json_of_holds (plain : content.Plain true)
    (held : document.heap.Holds document.root content)
    (shallow : ∀ pulls invalid limit, .error invalid ∈ document.walker.items pulls →
      invalid.fault ≠ .tooDeep limit) :
    document.read? .json = some (.ok (.json content.toJson)) := by
  have presents : Level.Presents document.heap document.options document.root content.toJson :=
    plain.presents held
  obtain ⟨tree, json, traverses⟩ := presents [.single document.root] [] rfl
  cases traverses with
  | @tooDeep seen middle walks refused =>
      have shape : document.walker.items (seen.length + 1) =
          (Path.root document.source).items seen ++
            [.error ⟨(Path.root document.source).pushAll seen, .tooDeep document.options.maxDepth⟩] :=
        Walker.items_of_failed walks (Nat.lt_succ_self _) refused
      have met : .error ⟨(Path.root document.source).pushAll seen,
          .tooDeep document.options.maxDepth⟩ ∈ document.walker.items (seen.length + 1) := by
        simp [shape]
      exact absurd rfl (shallow _ _ document.options.maxDepth met)
  | whole walks =>
      refine read?_eq_ok_iff.2 ⟨tree, ⟨[], walks, rfl⟩, ?_⟩
      rw [Schema.interpret, ← json]
      rfl

/-- Positions out of order, a payload before its tag and a tag without a payload. -/
theorem read?_json_of_reordered_tables :
    let ports := [(.integer 2, .integer (-5)), (.integer 1, .integer 80)]
    let level := [(payloadKey, .boolean true), (typeKey, .ofText "fixed")]
    let root := [(.ofText "ports", .table 0), (.ofText "level", .table 1), (.ofText "off", .table 2)]
    let heap : Heap := ⟨#[⟨ports, 2⟩, ⟨level, 0⟩, ⟨[(typeKey, .ofText "auto")], 0⟩, ⟨root, 0⟩]⟩
    let document : Document := ⟨heap, .table 3, "text", {}⟩
    let content : Content := .object [("level", .tagged "fixed" (.boolean true)),
      ("off", .tagged "auto" .null), ("ports", .array [.integer 80, .integer (-5)])]
    content.Plain true ∧ heap.Holds (.table 3) content ∧
      document.read? .json = some (.ok (.json (.object
        [("level", .object [("fixed", .bool true)]), ("off", .object [("auto", .null)]),
          ("ports", .array [.integer 80, .integer (-5)])]))) := by
  intro ports level root heap document content
  have plain : content.Plain true := by
    refine .object (by decide) (by decide) ?_
    simp only [List.forall_mem_cons]
    refine ⟨.tagged _ (.boolean _), .tagged _ .null, .array nofun ?_, nofun⟩
    simp only [List.forall_mem_cons]
    exact ⟨.integer _, .integer _, nofun⟩
  have lists : (heap.table 0).Lists [.integer 80, .integer (-5)] :=
    ⟨rfl, by decide +kernel, by decide +kernel⟩
  have levelOrder : (heap.table 1).entries.Perm (carrier "fixed" (.boolean true)).entries := by
    decide +kernel
  have heldPorts : heap.Holds (.table 0) (.array [.integer 80, .integer (-5)]) :=
    .array lists (.cons (.integer _) (.cons (.integer _) .nil))
  have heldLevel : heap.Holds (.table 1) (.tagged "fixed" (.boolean true)) :=
    .tagged levelOrder (.boolean _)
  have heldOff : heap.Holds (.table 2) (.tagged "auto" .null) := .tagged (.refl _) .null
  have held : heap.Holds (.table 3) content := by
    refine .object ?_ (.cons heldLevel (.cons heldOff (.cons heldPorts .nil)))
    decide +kernel
  have finished : (document.walker.after 18).next? = none :=
    Option.isNone_iff_eq_none.1 (by decide +kernel)
  have whole : (document.walker.items 18).all Except.isOk = true := by decide +kernel
  have shallow : ∀ pulls invalid limit, .error invalid ∈ document.walker.items pulls →
      invalid.fault ≠ .tooDeep limit := by
    intro pulls invalid limit met
    rw [Walker.items_eq_take_of_finished finished] at met
    cases List.all_eq_true.1 whole _ (List.mem_of_mem_take met)
  have json : content.toJson = .object
      [("level", .object [("fixed", .bool true)]), ("off", .object [("auto", .null)]),
        ("ports", .array [.integer 80, .integer (-5)])] := by
    rw [Content.toJson, ← Json.ofMembers_of_perm (by decide) (.refl _)]
    rfl
  refine ⟨plain, held, ?_⟩
  rw [read?_json_of_holds plain held shallow, json]

end Document

end ConfigScript
