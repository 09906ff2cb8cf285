import ConfigScript.Proofs.Association
import ConfigScript.Value.Shape

/-!
# Assignments to tables

An assignment changes what is found under its key and nothing else. In a table that is as tables
are, with distinct keys and no value nil, a key that there is stays where it stands in the order of
the entries, and an element of a sequence where it stands among the elements.
-/

set_option autoImplicit false

namespace ConfigScript.Table

variable {table : Table} {entries before after : List (Value × Value)} {key value old : Value}
  {entry : Value × Value}

theorem lookup_insert (key value other : Value) (entries : List (Value × Value)) :
    (insert key value entries).lookup other =
      if other = key then some value else entries.lookup other := by
  induction entries with
  | nil => rw [insert, lookup_cons_eq_ite]
  | cons entry rest ih =>
      rw [insert]
      split
      · next same =>
          subst same
          rw [lookup_cons_eq_ite, lookup_cons_eq_ite]
          split <;> rfl
      · split
        · exact lookup_cons_eq_ite _
        · next differs _ =>
            rw [lookup_cons_eq_ite, lookup_cons_eq_ite, ih]
            by_cases here : other = entry.1
            · subst here
              simp [differs]
            · simp [here]

theorem lookup_erase (key other : Value) (entries : List (Value × Value)) :
    (erase key entries).lookup other = if other = key then none else entries.lookup other := by
  induction entries with
  | nil => simp [erase]
  | cons entry rest ih =>
      by_cases same : entry.1 = key
      · have gone : erase key (entry :: rest) = erase key rest :=
          List.filter_cons_of_neg (by simp [same])
        rw [gone, ih, lookup_cons_eq_ite, same]
        split <;> rfl
      · have kept : erase key (entry :: rest) = entry :: erase key rest :=
          List.filter_cons_of_pos (by simp [same])
        rw [kept, lookup_cons_eq_ite, lookup_cons_eq_ite, ih]
        by_cases here : other = entry.1
        · subst here
          simp [same]
        · simp [here]

/-- The table after an assignment. Its length is not looked for again. -/
def set (table : Table) (key value : Value) : Table :=
  { table with entries := assign table.entries key value }

@[simp] theorem get_set (table : Table) (key value other : Value) :
    (table.set key value).get other = if other = key then value else table.get other := by
  simp only [get, set, assign]
  split
  · next none =>
      rw [lookup_erase]
      split
      · exact none.symm
      · rfl
  · rw [lookup_insert]
    split <;> rfl

/-- How tables are: each key has one entry, whose value is not nil, `false` precedes `true`, and
positions are integers of 64 bits. -/
structure IsProper (table : Table) : Prop where
  distinct : (table.entries.map (·.1)).Nodup
  valued : ∀ entry ∈ table.entries, entry.2 ≠ .nil
  ascending : table.entries.Pairwise fun first second =>
    ¬ (first.1 = .boolean true ∧ second.1 = .boolean false)
  short : table.length < 0x8000000000000000

/-- A key is assigned where it stands, unless it is `false` and stands behind `true`. -/
theorem insert_append (absent : ∀ entry ∈ before, entry.1 ≠ key)
    (ascending : ∀ entry ∈ before, ¬ (entry.1 = .boolean true ∧ key = .boolean false)) :
    insert key value (before ++ (key, old) :: after) = before ++ (key, value) :: after := by
  induction before with
  | nil => exact if_pos rfl
  | cons entry before ih =>
      obtain ⟨differs, absent⟩ := List.forall_mem_cons.1 absent
      obtain ⟨ordered, ascending⟩ := List.forall_mem_cons.1 ascending
      rw [List.cons_append, insert, if_neg differs, if_neg fun both => ordered both.symm,
        ih absent ascending, List.cons_append]

namespace IsProper

variable (proper : table.IsProper)

include proper

theorem set_entries (split : table.entries = before ++ (key, old) :: after)
    (present : value ≠ .nil) :
    (table.set key value).entries = before ++ (key, value) :: after := by
  have distinct := proper.distinct
  have ascending := proper.ascending
  rw [split, List.map_append, List.nodup_append] at distinct
  rw [split, List.pairwise_append] at ascending
  rw [set, assign, if_neg present, split]
  apply insert_append
  · intro entry earlier
    exact distinct.2.2 entry.1 (List.mem_map_of_mem earlier) key (by simp)
  · intro entry earlier
    exact ascending.2.2 entry earlier (key, old) List.mem_cons_self

theorem get_ne_nil (member : entry ∈ table.entries) : table.get entry.1 ≠ .nil := by
  have found : table.entries.lookup entry.1 = some entry.2 := lookup_of_mem proper.distinct member
  rw [get, found]
  exact proper.valued entry member

theorem elements_set {i : Nat} (within : i < table.length) :
    (table.set (.integer (Int64.ofNat (i + 1))) value).elements = table.elements.set i value := by
  have short := proper.short
  refine List.ext_getElem (by simp [elements, set]) fun j inside _ => ?_
  have other : j < table.length := by simpa [elements, set] using inside
  have position : Value.integer (Int64.ofNat (j + 1)) = .integer (Int64.ofNat (i + 1)) ↔ i = j := by
    constructor
    · intro same
      have places := congrArg Int64.toNatClampNeg (Value.integer.inj same)
      rw [Int64.toNatClampNeg_ofNat_of_lt (by omega),
        Int64.toNatClampNeg_ofNat_of_lt (by omega)] at places
      omega
    · rintro rfl
      rfl
  rw [List.getElem_set]
  simp only [elements, List.getElem_map, List.getElem_range, get_set, position]

end IsProper

end ConfigScript.Table
