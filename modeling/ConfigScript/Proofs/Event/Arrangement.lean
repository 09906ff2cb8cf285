import ConfigScript.Event.Order
import ConfigScript.Proofs.Event.Reordering

/-!
# Arranging tells trees apart up to the order of entries

The texts of the events of a tree tell the tree, so entries are in a total order by their keys and
by what is below them. Sorting by it forgets the order in which the entries of an object came. Hence
trees whose keys are distinct are arranged alike exactly when they differ in the order of entries only.
-/

set_option autoImplicit false

namespace ConfigScript

theorem Event.describe_injective : Function.Injective describe := by
  intro event other same
  cases event <;> cases other <;> simp_all [describe, ← String.toList_inj]

namespace Tree

variable {tree other : Tree} {entries others : List (String × Tree)}

theorem texts_injective : Function.Injective texts := by
  intro tree other same
  exact events_injective (Event.describe_injective.list_map same)

section Sorted

/-- Entries compared by their keys, and by the texts of their values where the keys are equal. -/
def entryCompare : String × Tree → String × Tree → Ordering :=
  compareLex (compareOn Prod.fst) (compareOn (texts ∘ Prod.snd))

instance : Std.TransCmp entryCompare :=
  inferInstanceAs (Std.TransCmp (compareLex (compareOn Prod.fst) (compareOn (texts ∘ Prod.snd))))

instance : Std.LawfulEqCmp entryCompare where
  eq_of_compare := by
    intro first second same
    obtain ⟨key, texts⟩ := compareLex_eq_eq.1 same
    exact Prod.ext (Std.LawfulEqOrd.eq_of_compare key)
      (texts_injective (Std.LawfulEqOrd.eq_of_compare texts))

theorem entryLE_eq_isLE (first second : String × Tree) :
    entryLE first second = (entryCompare first second).isLE := by
  simp only [entryLE, entryCompare, compareLex, compareOn, Function.comp_apply]
  cases compare first.1 second.1 <;> rfl

theorem entryLE_trans (first second third : String × Tree) (before : entryLE first second = true)
    (after : entryLE second third = true) : entryLE first third = true := by
  simp only [entryLE_eq_isLE] at before after ⊢
  exact Std.TransCmp.isLE_trans before after

theorem entryLE_total (first second : String × Tree) :
    (entryLE first second || entryLE second first) = true := by
  simp only [entryLE_eq_isLE, @Std.OrientedCmp.eq_swap _ entryCompare _ second first]
  cases entryCompare first second <;> rfl

theorem entryLE_antisymm {first second : String × Tree} (before : entryLE first second = true)
    (after : entryLE second first = true) : first = second := by
  simp only [entryLE_eq_isLE] at before after
  exact Std.LawfulEqCmp.eq_of_compare (Std.OrientedCmp.isLE_antisymm before after)

/-- Entries are sorted alike in whatever order they come, also when keys are equal. -/
theorem mergeSort_eq_iff_perm :
    entries.mergeSort entryLE = others.mergeSort entryLE ↔ entries.Perm others := by
  constructor
  · intro same
    exact (entries.mergeSort_perm entryLE).symm.trans (same ▸ others.mergeSort_perm entryLE)
  · intro order
    have sorted := List.pairwise_mergeSort entryLE_trans entryLE_total
    have perm := (entries.mergeSort_perm entryLE).trans
      (order.trans (others.mergeSort_perm entryLE).symm)
    exact perm.eq_of_pairwise (fun _ _ _ _ => entryLE_antisymm) (sorted entries) (sorted others)

end Sorted

theorem arrangedEntries_eq_map (entries : List (String × Tree)) :
    arrangedEntries entries = entries.map fun entry => (entry.1, entry.2.arranged) := by
  induction entries with
  | nil => rfl
  | cons entry rest ih => simp only [arrangedEntries, ih, List.map_cons]

theorem arrangedItems_eq_map (items : List Tree) : arrangedItems items = items.map arranged := by
  induction items with
  | nil => rfl
  | cons item rest ih => simp only [arrangedItems, ih, List.map_cons]

/-- Objects are arranged alike exactly when their entries, in some order, have the same keys one by
one and values that are arranged alike. -/
theorem arranged_object_eq_iff : (object entries).arranged = (object others).arranged ↔
    Unordered (fun value other => value.arranged = other.arranged) entries others := by
  simp only [arranged, object.injEq, mergeSort_eq_iff_perm, arrangedEntries_eq_map,
    unordered_eq_iff_perm_map]

theorem arranged_array_eq_iff {items others : List Tree} :
    (array items).arranged = (array others).arranged ↔
      List.Forall₂ (fun item other => item.arranged = other.arranged) items others := by
  simp only [arranged, array.injEq, arrangedItems_eq_map, forall₂_eq_iff_map_eq_map]

theorem arranged_arranged (tree : Tree) : tree.arranged.arranged = tree.arranged := by
  induction tree with
  | primitive text => rfl
  | tagged name payload ih => exact congrArg (tagged name) ih
  | object entries ih =>
      apply arranged_object_eq_iff.2
      have sorted := (arrangedEntries entries).mergeSort_perm entryLE
      refine unordered_eq_iff_perm_map.2 ((sorted.map _).trans (.of_eq ?_))
      simpa [arrangedEntries_eq_map] using fun key value member => ih (key, value) member
  | array items ih =>
      apply arranged_array_eq_iff.2
      simpa [arrangedItems_eq_map, List.forall₂_map_left_iff, List.forall₂_same] using ih

/-- Trees that differ only in the order of entries are arranged alike. -/
theorem Reordered.arranged_eq (reordered : tree.Reordered other) :
    tree.arranged = other.arranged := by
  refine Reordered.induction ?primitive ?tagged ?object ?array reordered
  case primitive =>
    intro text
    rfl
  case tagged =>
    intro name payload other same
    exact congrArg (Tree.tagged name) same
  case object =>
    intro entries others _ unordered
    exact arranged_object_eq_iff.2 unordered
  case array =>
    intro items others each
    exact arranged_array_eq_iff.2 each

/-- Trees in which no object repeats a key. -/
inductive HasDistinctKeys : Tree → Prop
  | primitive (text : String) : HasDistinctKeys (.primitive text)
  | tagged (name : String) {payload : Tree} (inside : HasDistinctKeys payload) :
      HasDistinctKeys (.tagged name payload)
  | object {entries : List (String × Tree)} (distinct : (entries.map (·.1)).Nodup)
      (values : ∀ entry ∈ entries, HasDistinctKeys entry.2) : HasDistinctKeys (.object entries)
  | array {items : List Tree} (each : ∀ item ∈ items, HasDistinctKeys item) :
      HasDistinctKeys (.array items)

theorem HasDistinctKeys.reordered_of_arranged_eq (distinct : tree.HasDistinctKeys)
    (same : tree.arranged = other.arranged) : tree.Reordered other := by
  induction distinct generalizing other with
  | primitive text =>
      cases other with
      | primitive => exact Tree.primitive.inj same ▸ .primitive text
      | tagged | object | array => simp [arranged] at same
  | tagged name _ ih =>
      cases other with
      | tagged =>
          obtain ⟨rfl, inside⟩ := Tree.tagged.inj same
          exact .tagged name (ih inside)
      | primitive | object | array => simp [arranged] at same
  | object distinct _ ih =>
      cases other with
      | object others =>
          have alike := arranged_object_eq_iff.1 same
          exact .of_unordered distinct
            (alike.imp_of_mem fun entry member _ inside => ih entry member inside)
      | primitive | tagged | array => simp [arranged] at same
  | array _ ih =>
      cases other with
      | array others =>
          have alike := arranged_array_eq_iff.1 same
          exact .array
            (forall₂_imp_of_mem alike fun item member _ _ inside => ih item member inside)
      | primitive | tagged | object => simp [arranged] at same

/-- Where no object repeats a key, trees differ only in the order of entries exactly when they are
arranged alike. -/
theorem HasDistinctKeys.reordered_iff_arranged_eq (distinct : tree.HasDistinctKeys) :
    tree.Reordered other ↔ tree.arranged = other.arranged :=
  ⟨Reordered.arranged_eq, distinct.reordered_of_arranged_eq⟩

theorem HasDistinctKeys.reordered_arranged (distinct : tree.HasDistinctKeys) :
    tree.Reordered tree.arranged :=
  distinct.reordered_iff_arranged_eq.2 tree.arranged_arranged.symm

end Tree

end ConfigScript
