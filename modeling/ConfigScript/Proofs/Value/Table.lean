import ConfigScript.Proofs.Association
import ConfigScript.Value.Shape

/-!
# Tables and how they are presented

A table of texts is a map, a table of positions is a sequence, and a carrier is its payload under a
tag. The order in which a table lists its entries makes no difference to what it is.
-/

set_option autoImplicit false

namespace ConfigScript

theorem Value.ofText_injective : Function.Injective Value.ofText := by
  intro first second same
  exact String.toByteArray_inj.1 (Value.string.inj same)

theorem textOf_toByteArray (text : String) : textOf text.toByteArray = .ok text := by
  have known : String.fromUTF8? text.toByteArray = some text := dif_pos text.isValidUTF8
  rw [textOf, known]

theorem Value.keyText_ofText (text : String) : (Value.ofText text).keyText = .ok text := by
  rw [keyText, ofText, scalar, textOf_toByteArray]
  rfl

/-- An entry whose key is a text, and something under that text that its value is related to. -/
def UnderText {α : Type} (related : Value → α → Prop) (entry : Value × Value)
    (member : String × α) : Prop :=
  entry.1 = .ofText member.1 ∧ related entry.2 member.2

theorem map_key_of_underText {α : Type} {related : Value → α → Prop}
    {entries : List (Value × Value)} {members : List (String × α)}
    (alike : List.Forall₂ (UnderText related) entries members) :
    entries.map (·.1) = (members.map (·.1)).map .ofText := by
  induction alike with
  | nil => rfl
  | cons first _ ih => rw [List.map_cons, ih, first.1, List.map_cons, List.map_cons]

namespace Table

variable {table : Table} {values : List Value} {name : String} {payload : Value}
  {pairs : List (Value × Value)}

theorem shape_eq_map_iff : table.shape = .ok (.map pairs) ↔
    table.get typeKey = .nil ∧ table.get (.integer 1) = .nil ∧ table.entries = pairs := by
  unfold shape
  split
  · next untagged => split <;> simp_all
  · next bytes tagged => cases textOf bytes <;> simp [tagged, Except.map]
  · next tag _ _ => simp_all

theorem shape_eq_sequence_iff : table.shape = .ok (.sequence values) ↔
    table.get typeKey = .nil ∧ table.get (.integer 1) ≠ .nil ∧ table.elements = values := by
  unfold shape
  split
  · next untagged => split <;> simp_all
  · next bytes tagged => cases textOf bytes <;> simp [tagged, Except.map]
  · next tag _ _ => simp_all

theorem shape_eq_tagged_iff : table.shape = .ok (.tagged name payload) ↔
    ∃ bytes, table.get typeKey = .string bytes ∧ textOf bytes = .ok name ∧
      table.get payloadKey = payload := by
  unfold shape
  split
  · next untagged => split <;> simp [untagged]
  · next bytes tagged => cases text : textOf bytes <;> simp [tagged, text, Except.map]
  · next tag _ _ => simp_all

theorem get_of_mem {key value : Value} (distinct : (table.entries.map (·.1)).Nodup)
    (member : (key, value) ∈ table.entries) : table.get key = value := by
  rw [get, lookup_of_mem distinct member, Option.getD_some]

theorem get_of_not_mem {key : Value} (absent : key ∉ table.entries.map (·.1)) :
    table.get key = .nil := by
  rw [get, lookup_of_not_mem absent, Option.getD_none]

/-- A table whose keys are texts, none of them the key of a tag, is a map. -/
theorem shape_of_texts {keys : List String} (texts : table.entries.map (·.1) = keys.map .ofText)
    (untagged : "_type" ∉ keys) : table.shape = .ok (.map table.entries) := by
  have noTag : table.get typeKey = .nil := by
    refine get_of_not_mem ?_
    rw [texts]
    intro member
    obtain ⟨key, known, same⟩ := List.mem_map.1 member
    exact untagged (Value.ofText_injective same ▸ known)
  have noFirst : table.get (.integer 1) = .nil := by
    refine get_of_not_mem ?_
    rw [texts]
    intro member
    obtain ⟨key, _, same⟩ := List.mem_map.1 member
    cases same
  exact shape_eq_map_iff.2 ⟨noTag, noFirst, rfl⟩

/-- The positions from 1 on, with the values at them. -/
def positioned (values : List Value) : List (Value × Value) :=
  values.mapIdx fun i value => (.integer (Int64.ofNat (i + 1)), value)

/-- A table that holds some values at the positions from 1 on, each once, and nothing else. -/
structure Lists (table : Table) (values : List Value) : Prop where
  length : table.length = values.length
  entries : table.entries.Perm (positioned values)
  distinct : (table.entries.map (·.1)).Nodup

namespace Lists

theorem get (lists : table.Lists values) {i : Nat} (within : i < values.length) :
    table.get (.integer (Int64.ofNat (i + 1))) = values[i] := by
  refine get_of_mem lists.distinct (lists.entries.mem_iff.2 ?_)
  exact List.mem_mapIdx.2 ⟨i, within, rfl⟩

theorem elements_eq (lists : table.Lists values) : table.elements = values := by
  rw [elements, lists.length]
  refine List.ext_getElem (by simp) fun i _ within => ?_
  rw [List.getElem_map, List.getElem_range]
  exact lists.get within

theorem shape_eq (lists : table.Lists values) (some : values ≠ []) (present : .nil ∉ values) :
    table.shape = .ok (.sequence values) := by
  have noTag : table.get typeKey = .nil := by
    refine get_of_not_mem fun member => ?_
    obtain ⟨entry, listed, same⟩ := List.mem_map.1 member
    obtain ⟨i, _, rfl⟩ := List.mem_mapIdx.1 (lists.entries.mem_iff.1 listed)
    cases same
  have first : table.get (.integer 1) ≠ .nil := by
    have within : 0 < values.length := List.length_pos_iff.2 some
    intro missing
    have found : table.get (.integer 1) = values[0] := lists.get within
    exact present (missing ▸ found ▸ List.getElem_mem within)
  exact shape_eq_sequence_iff.2 ⟨noTag, first, lists.elements_eq⟩

end Lists

theorem carrier_entries (name : String) (payload : Value) :
    (carrier name payload).entries =
      if payload = .nil then [(typeKey, .ofText name)]
      else [(typeKey, .ofText name), (payloadKey, payload)] := by
  unfold carrier assign
  split
  · rfl
  · rfl

/-- A carrier holds its tag, its payload and nothing else. -/
theorem get_carrier (name : String) (payload key : Value) : (carrier name payload).get key =
    if key = typeKey then .ofText name else if key = payloadKey then payload else .nil := by
  rw [get, carrier_entries]
  by_cases none : payload = .nil
  · rw [if_pos none, lookup_cons_eq_ite, List.lookup_nil, none, ite_self]
    split <;> rfl
  · rw [if_neg none, lookup_cons_eq_ite, lookup_cons_eq_ite, List.lookup_nil]
    split
    · rfl
    · split <;> rfl

/-- A table with the entries of a carrier, in either order, is its payload under its tag. -/
theorem shape_of_carrier (order : table.entries.Perm (carrier name payload).entries) :
    table.shape = .ok (.tagged name payload) := by
  have differ : payloadKey ≠ typeKey := by decide +kernel
  have distinct : (table.entries.map (·.1)).Nodup := by
    rw [(order.map _).nodup_iff, carrier_entries]
    split
    · simp
    · simpa using differ.symm
  have tag : table.get typeKey = .ofText name := by
    refine get_of_mem distinct (order.mem_iff.2 ?_)
    rw [carrier_entries]
    split <;> simp
  have content : table.get payloadKey = payload := by
    by_cases none : payload = .nil
    · subst none
      refine get_of_not_mem fun member => ?_
      rw [(order.map _).mem_iff, carrier_entries] at member
      exact differ (by simpa using member)
    · refine get_of_mem distinct (order.mem_iff.2 ?_)
      rw [carrier_entries, if_neg none]
      simp
  exact shape_eq_tagged_iff.2 ⟨name.toByteArray, tag, textOf_toByteArray name, content⟩

end Table

/-- A new table has a place of its own, and all others stay as they are. -/
theorem Heap.table_push (heap : Heap) (table : Table) (id : TableId) :
    (heap.push table).table id = if id = heap.next then table else heap.table id := by
  rw [Heap.table, Heap.push, Heap.next, Array.getElem?_push]
  by_cases new : id = heap.tables.size
  · rw [if_pos new, if_pos new, Option.getD_some]
  · rw [if_neg new, if_neg new, Heap.table]

end ConfigScript
