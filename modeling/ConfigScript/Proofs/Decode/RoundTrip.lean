import ConfigScript.Proofs.Decode.Agreement
import ConfigScript.Proofs.Decode.Encoding
import ConfigScript.Proofs.Decode.Field
import ConfigScript.Proofs.Decode.Outcome
import ConfigScript.Proofs.Number.Decimal
import Mathlib.Data.List.Perm.Basic

/-!
# Decoding undoes encoding

A datum is read back from each of its encodings. For every form of encoding there is one lemma, from
what the parts are read as, and the schema puts them together.
-/

set_option autoImplicit false

namespace ConfigScript

/-- An interpretation that reads every encoding back. -/
def Interpretation.Inverts (interpretation : Interpretation) (encoding : Encoding) : Prop :=
  ∀ ⦃datum : Datum⦄ ⦃tree : Tree⦄, encoding datum tree → interpretation tree = .ok datum

open Interpretation

namespace Encoding

theorem OfNothing.inverted : Inverts (fun tree => tree.ofNothing.map fun _ => .unit) OfNothing := by
  intro datum tree encoded
  cases encoded with
  | null => rfl
  | object => rfl

theorem option_inverted {interpretation : Interpretation} {of : Encoding}
    (inverts : interpretation.Inverts of) :
    Inverts (fun tree => if tree.opening = .primitive "null" then .ok .none
      else (interpretation tree).map .some) (OfOption of) := by
  intro datum tree encoded
  cases encoded with
  | none => rfl
  | some present distinct =>
      have opened : tree.opening ≠ .primitive "null" := by
        cases tree with
        | primitive text =>
            intro same
            exact distinct (congrArg Tree.primitive (Event.primitive.inj same))
        | tagged | object | array => exact nofun
      simp only [if_neg opened, inverts present]
      rfl

theorem OfSequence.inverted {items : List Datum → List Tree → Prop}
    {read : List Tree → Except Cause Datum} {empty : Except Cause Datum}
    (reads : ∀ {data trees}, items data trees → read trees = .ok (.list data))
    (readsEmpty : items [] [] → empty = .ok (.list [])) :
    Inverts (Tree.ofSequence read empty) (OfSequence items) := by
  intro datum tree encoded
  cases encoded with
  | array encoded => exact reads encoded
  | empty encoded => exact readsEmpty encoded

theorem OfPlaces.inverted {expected : String} {places : List Interpretation}
    {encodings : List Encoding} (inverts : List.Forall₂ Inverts places encodings)
    {data : List Datum} {trees : List Tree} (encoded : OfPlaces encodings data trees)
    (position : Nat) : Tree.ofPlaces expected places position trees = .ok data := by
  induction encoded generalizing places position with
  | nil =>
      cases inverts
      rfl
  | cons first _ ih =>
      cases inverts with
      | cons inverts others =>
          rw [Tree.ofPlaces, inverts first, ih others]
          rfl

theorem OfPlaces.length_eq {places : List Encoding} {data : List Datum} {trees : List Tree}
    (encoded : OfPlaces places data trees) : data.length = places.length := by
  induction encoded with
  | nil => rfl
  | cons _ _ ih => rw [List.length_cons, List.length_cons, ih]

theorem tuple_inverted {expected : String} {places : List Interpretation}
    {encodings : List Encoding} (inverts : List.Forall₂ Inverts places encodings) :
    Inverts (Tree.ofTuple expected places) (OfSequence (OfPlaces encodings)) := by
  refine OfSequence.inverted (fun encoded => ?_) (fun encoded => ?_)
  · rw [encoded.inverted inverts]
    rfl
  · cases encoded
    cases inverts
    rfl

theorem map_inverted {readKey : String → Except Cause Datum} {value : Interpretation}
    {keyEncoding valueEncoding : Encoding}
    (readsKey : ∀ ⦃datum text⦄, keyEncoding datum (.primitive text) → readKey text = .ok datum)
    (inverts : value.Inverts valueEncoding) :
    Inverts (fun tree => (tree.ofMap readKey value).map .map)
      (OfMap keyEncoding valueEncoding) := by
  intro datum tree encoded
  cases encoded with
  | @object data entries encoded =>
      have reads : (entries.mapM fun entry => do
          return (← readKey entry.1, ← value entry.2)) = .ok data := by
        refine mapM_eq_ok_iff.2 (encoded.imp fun datum entry parts => ?_)
        rw [readsKey parts.1, inverts parts.2]
        rfl
      simp only [Tree.ofMap, Tree.ofObject]
      rw [reads]
      rfl

/-- An entry is read as a field by the part of its name. -/
def EntryReads (parts : List (String × Interpretation)) (entry : String × Tree)
    (field : String × Datum) : Prop :=
  entry.1 = field.1 ∧ ∃ part, (entry.1, part) ∈ parts ∧ part entry.2 = .ok field.2

theorem OfPlaces.entries_read {parts : List (String × Interpretation)}
    {encodings : List (String × Encoding)} (invert : Keyed Inverts parts encodings)
    {data : List Datum} {trees : List Tree} (encoded : OfPlaces (encodings.map (·.2)) data trees) :
    List.Forall₂ (EntryReads parts) ((encodings.map (·.1)).zip trees)
      ((encodings.map (·.1)).zip data) := by
  induction invert generalizing data trees with
  | nil => exact .nil
  | @cons part encoding parts encodings same _ ih =>
      obtain ⟨named, inverts⟩ := same
      cases encoded with
      | cons first rest =>
          refine .cons ⟨rfl, part.2, ?_, inverts first⟩ ((ih rest).imp ?_)
          · simp [← named]
          · rintro entry field ⟨sameName, found, member, read⟩
            exact ⟨sameName, found, List.mem_cons_of_mem _ member, read⟩

theorem mapM_field? {parts : List (String × Interpretation)} (closed : Bool)
    (distinct : (parts.map (·.1)).Nodup) {entries : List (String × Tree)}
    {fields : List (String × Datum)} (reads : List.Forall₂ (EntryReads parts) entries fields) :
    entries.mapM (Tree.field? parts closed) = .ok (fields.map some) := by
  have each : ∀ entry field, EntryReads parts entry field →
      Tree.field? parts closed entry = .ok (some field) := by
    intro entry field read
    obtain ⟨named, part, member, read⟩ := read
    rw [Tree.field?, lookup_of_mem distinct member]
    simp only [read, named]
    rfl
  exact mapM_eq_ok_iff.2 (List.forall₂_map_left_iff.2 (reads.imp each).flip)

/-- The fields of entries with distinct names are found, the newest in front. -/
theorem foldlM_ofField_of_reads {parts : List (String × Interpretation)} (closed : Bool)
    (distinct : (parts.map (·.1)).Nodup) {entries : List (String × Tree)}
    {fields : List (String × Datum)} (reads : List.Forall₂ (EntryReads parts) entries fields)
    (fresh : (fields.map (·.1)).Nodup) :
    entries.foldlM (Tree.ofField parts closed) [] = .ok fields.reverse := by
  have names : entries.map (·.1) = fields.map (·.1) :=
    forall₂_eq_iff_map_eq_map.1 (reads.imp fun _ _ read => read.1)
  have present : (fields.map some).reduceOption = fields :=
    List.filterMap_map.trans List.filterMap_some
  rw [Tree.foldlM_ofField (names ▸ fresh) fun _ _ => List.not_mem_nil,
    mapM_field? closed distinct reads, Except.map, present, List.append_nil]

theorem assemble_of_lookup {found : List (String × Datum)} {fields : List (Field Schema)}
    {data : List Datum} (lookups : List.Forall₂ (fun field datum =>
      found.lookup field.name = some datum) fields data) :
    Field.assemble found fields = .ok ((fields.map (·.name)).zip data) := by
  induction lookups with
  | nil => rfl
  | cons known _ ih =>
      rw [Field.assemble, known, ih]
      rfl

/-- All fields are there, in whatever order they were found. -/
theorem assemble_of_perm {found : List (String × Datum)} {fields : List (Field Schema)}
    {data : List Datum} (length : data.length = fields.length)
    (distinct : (found.map (·.1)).Nodup)
    (order : found.Perm ((fields.map (·.name)).zip data)) :
    Field.assemble found fields = .ok ((fields.map (·.name)).zip data) := by
  refine assemble_of_lookup (List.forall₂_iff_zip.2 ⟨length.symm, fun {field datum} member => ?_⟩)
  refine lookup_of_mem distinct (order.mem_iff.2 ?_)
  rw [List.zip_map_left]
  exact List.mem_map_of_mem (f := Prod.map (·.name) id) member

theorem record_inverted {fields : List (Field Schema)} {parts : List (String × Interpretation)}
    {encodings : List (String × Encoding)} (invert : Keyed Inverts parts encodings)
    (names : encodings.map (·.1) = fields.map (·.name)) (closed : Bool) :
    Inverts (Tree.ofRecord fields parts closed) (OfRecord encodings) := by
  intro datum tree encoded
  cases encoded with
  | @object data trees entries distinct encoded order =>
      -- The fields as the entries list them, which is an order of its own.
      obtain ⟨found, reads, arranged⟩ := List.perm_comp_forall₂ order (encoded.entries_read invert)
      have length : data.length = (encodings.map (·.1)).length := by simpa using encoded.length_eq
      have fresh : (found.map (·.1)).Nodup := by
        rw [(arranged.map _).nodup_iff, List.map_fst_zip (Nat.le_of_eq length.symm)]
        exact distinct
      have folded : entries.foldlM (Tree.ofField parts closed) [] = .ok found.reverse :=
        foldlM_ofField_of_reads closed (invert.map_key ▸ distinct) reads fresh
      have newestFirst : found.reverse.Perm found := List.reverse_perm found
      rw [names] at arranged length ⊢
      have assembled := assemble_of_perm (by rw [length, List.length_map])
        ((newestFirst.map _).nodup_iff.2 fresh) (newestFirst.trans arranged)
      simp only [Tree.ofRecord, Tree.ofObject]
      rw [folded]
      change (do return Datum.record (← Field.assemble _ fields)) = _
      rw [assembled]
      rfl

theorem ofVariant_of_mem {parts : List (String × Interpretation)}
    {encodings : List (String × Encoding)} (invert : Keyed Inverts parts encodings)
    (distinct : (encodings.map (·.1)).Nodup) {name : String} {encoding : Encoding}
    (known : (name, encoding) ∈ encodings) {datum : Datum} {tree : Tree}
    (encoded : encoding datum tree) :
    Tree.ofVariant parts name tree = .ok (.variant name datum) := by
  obtain ⟨part, member, inverts⟩ := invert.exists_of_mem known
  rw [Tree.ofVariant, lookup_of_mem (invert.map_key ▸ distinct) member]
  simp only [inverts encoded]
  rfl

theorem readVariantName_of_mem {σ : Type} {variants : List (Variant σ)} {name : String}
    (distinct : (variants.map (·.name)).Nodup) (known : ⟨name, .unit⟩ ∈ variants) :
    readVariantName variants name = .ok (.variant name .unit) := by
  have found : variants.find? (·.name = name) = some ⟨name, .unit⟩ := find?_of_mem distinct known
  rw [readVariantName, found]

theorem enumeration_inverted {variants : List (Variant Schema)}
    {parts : List (String × Interpretation)} {encodings : List (String × Encoding)}
    (invert : Keyed Inverts parts encodings)
    (names : encodings.map (·.1) = variants.map (·.name)) :
    Inverts (Tree.ofEnumeration parts (readVariantName variants))
      (OfEnumeration variants encodings) := by
  intro datum tree encoded
  cases encoded with
  | tagged distinct known encoded =>
      exact ofVariant_of_mem invert (names ▸ distinct) known encoded
  | entry distinct known encoded =>
      rw [Tree.ofEnumeration, ofVariant_of_mem invert (names ▸ distinct) known encoded]
      rfl
  | bare distinct known => exact readVariantName_of_mem distinct known

end Encoding

namespace Schema

open Encoding

theorem map_fieldEncodings (fields : List (Field Schema)) :
    (fieldEncodings fields).map (·.1) = fields.map (·.name) := by
  induction fields with
  | nil => rfl
  | cons field rest ih => rw [fieldEncodings, List.map_cons, List.map_cons, ih]

theorem map_variantEncodings (variants : List (Variant Schema)) :
    (variantEncodings variants).map (·.1) = variants.map (·.name) := by
  induction variants with
  | nil => rfl
  | cons variant rest ih => rw [variantEncodings, List.map_cons, List.map_cons, ih]

theorem Spells.readText {schema : Schema} {datum : Datum} {text : String}
    (spelled : schema.Spells datum text) : readText text schema = .ok datum := by
  cases spelled with
  | false => rfl
  | true => rfl
  | integer within =>
      rw [Schema.readText, Number.IntegerKind.read?_toString within]
      rfl
  | char c =>
      rw [Schema.readText, String.toList_singleton]
  | text content => rfl
  | bytes content => rfl

/-- A key is read from the text of a primitive that encodes it. -/
theorem readText_of_encodes (schema : Schema) ⦃datum : Datum⦄ ⦃text : String⦄
    (encoded : schema.Encodes datum (.primitive text)) : readText text schema = .ok datum := by
  cases schema with
  | bool | integer kind | char | text | bytes | single | double | identifier | ignored | untyped
    | json =>
      simp only [Encodes] at encoded
      cases encoded with
      | primitive spelled => exact spelled.readText
  | unit | namedUnit name =>
      simp only [Encodes] at encoded
      cases encoded
      rfl
  | option of =>
      simp only [Encodes] at encoded
      cases encoded with
      | none => rfl
      | some present distinct =>
          have present : text ≠ "null" := by simpa using distinct
          rw [Schema.readText, if_neg present, readText_of_encodes of ‹_›]
          rfl
  | wrapper name of =>
      simp only [Encodes] at encoded
      cases encoded with
      | content encoded =>
          rw [Schema.readText, readText_of_encodes of encoded]
          rfl
  | enumeration name variants =>
      simp only [Encodes] at encoded
      cases encoded with
      | bare distinct known => exact readVariantName_of_mem distinct known
  | seq of | tuple items | namedTuple name items | map key value | record name fields closed =>
      simp only [Encodes] at encoded
      cases encoded

mutual

theorem interpret_inverts (schema : Schema) : schema.interpret.Inverts schema.Encodes := by
  intro datum tree encoded
  cases schema with
  | bool | integer kind | char | text | bytes | single | double | identifier =>
      simp only [Encodes] at encoded
      cases encoded with
      | primitive spelled => exact spelled.readText
  | ignored | untyped | json =>
      simp only [Encodes] at encoded
      cases encoded with
      | primitive spelled => cases spelled
  | unit | namedUnit name =>
      rw [interpret]
      exact OfNothing.inverted encoded
  | option of =>
      rw [interpret]
      exact option_inverted (interpret_inverts of) encoded
  | seq of =>
      have inverts : of.interpret.Inverts of.Encodes := interpret_inverts of
      rw [interpret]
      refine OfSequence.inverted (fun items => ?_) (fun _ => rfl) encoded
      rw [mapM_eq_ok_iff.2 (items.imp fun datum tree encoded => inverts encoded)]
      rfl
  | tuple items =>
      rw [interpret]
      exact tuple_inverted (interpretItems_invert items) encoded
  | namedTuple name items =>
      rw [interpret]
      exact tuple_inverted (interpretItems_invert items) encoded
  | map key value =>
      rw [interpret]
      exact map_inverted (readText_of_encodes key) (interpret_inverts value) encoded
  | wrapper name of =>
      simp only [Encodes] at encoded
      cases encoded with
      | content encoded =>
          rw [interpret, interpret_inverts of encoded]
          rfl
  | record name fields closed =>
      rw [interpret]
      exact record_inverted (interpretFields_invert fields) (map_fieldEncodings fields) closed encoded
  | enumeration name variants =>
      rw [interpret]
      exact enumeration_inverted (interpretVariants_invert name variants)
        (map_variantEncodings variants) encoded

theorem interpretItems_invert (items : List Schema) :
    List.Forall₂ Inverts (interpretItems items) (encodings items) := by
  match items with
  | [] => exact .nil
  | schema :: rest =>
      rw [interpretItems, encodings]
      exact .cons (interpret_inverts schema) (interpretItems_invert rest)

theorem interpretFields_invert (fields : List (Field Schema)) :
    Keyed Inverts (interpretFields fields) (fieldEncodings fields) := by
  match fields with
  | [] => exact .nil
  | ⟨name, schema, hasDefault⟩ :: rest =>
      rw [interpretFields, fieldEncodings]
      exact .cons ⟨rfl, interpret_inverts schema⟩ (interpretFields_invert rest)

theorem interpretVariants_invert (enumeration : String) (variants : List (Variant Schema)) :
    Keyed Inverts (interpretVariants enumeration variants) (variantEncodings variants) := by
  match variants with
  | [] => exact .nil
  | ⟨name, payload⟩ :: rest =>
      rw [interpretVariants, variantEncodings]
      exact .cons ⟨rfl, interpretPayload_inverts _ payload⟩
        (interpretVariants_invert enumeration rest)

theorem interpretPayload_inverts (variant : String) (payload : Payload Schema) :
    (interpretPayload variant payload).Inverts (payloadEncoding payload) := by
  intro datum tree encoded
  match payload with
  | .unit =>
      rw [interpretPayload]
      exact OfNothing.inverted encoded
  | .value of =>
      rw [interpretPayload]
      exact interpret_inverts of encoded
  | .tuple items =>
      rw [interpretPayload]
      exact tuple_inverted (interpretItems_invert items) encoded
  | .record fields closed =>
      rw [interpretPayload]
      exact record_inverted (interpretFields_invert fields) (map_fieldEncodings fields) closed encoded

end

end Schema

/-- Whatever encoding of a datum the events are, reading them as the schema gives the datum. -/
theorem decode_of_encodes {ε : Type} {schema : Schema} {datum : Datum} {tree : Tree}
    (encoded : schema.Encodes datum tree) {events : List (Event × Path)}
    (shape : events.map (·.1) = tree.events) :
    decode schema (events.map .ok : List (Item ε)) = .ok datum := by
  have takes := (schema.agrees_interpret (ε := ε)).takes tree
  rw [schema.interpret_inverts encoded] at takes
  have read := takes events shape [] (.root "")
  rw [List.append_nil] at read
  exact decode_of_ok read rfl

/-- Entries out of order, an empty list as an object and a negative integer in an object of one
entry. -/
theorem decode_record_of_encodes :
    let level : Schema := .enumeration "Level" [⟨"off", .unit⟩, ⟨"fixed", .value (.integer .i64)⟩]
    let fields : List (Field Schema) :=
      [⟨"hosts", .seq .text, false⟩, ⟨"level", .option level, false⟩]
    let schema : Schema := .record "Server" fields true
    let datum : Datum :=
      .record [("hosts", .list []), ("level", .some (.variant "fixed" (.integer (-5))))]
    let tree : Tree := .object [("level", .object [("fixed", .primitive "-5")]), ("hosts", .object [])]
    schema.Encodes datum tree ∧
      decode schema (((Path.root "text").along tree.events).map .ok : List (Item String)) =
        .ok datum := by
  intro level fields schema datum tree
  have number : (Schema.integer .i64).Encodes (.integer (-5)) (.primitive "-5") :=
    .primitive (.integer rfl)
  have chosen : level.Encodes (.variant "fixed" (.integer (-5)))
      (.object [("fixed", .primitive "-5")]) :=
    .entry (by decide) (.tail _ (.head _)) number
  have places : Encoding.OfPlaces ((Schema.fieldEncodings fields).map (·.2))
      [.list [], .some (.variant "fixed" (.integer (-5)))]
      [.object [], .object [("fixed", .primitive "-5")]] :=
    .cons (.empty .nil) (.cons (.some chosen nofun) .nil)
  have encoded : schema.Encodes datum tree :=
    Encoding.OfRecord.object (by decide) places (.swap _ _ _)
  exact ⟨encoded, decode_of_encodes encoded (Path.along_eq_map _ _)⟩

end ConfigScript
