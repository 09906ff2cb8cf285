import ConfigScript.Proofs.Association
import ConfigScript.Proofs.Event.Grammar

/-!
# Trees up to the order of entries

A table has no order, so two presentations of it may list the entries of an object differently, and
the entries of what is inside as well. The keys of an object are distinct.
-/

set_option autoImplicit false

namespace ConfigScript.Tree

/-- Trees that differ only in the order in which the entries of objects are listed. -/
inductive Reordered : Tree → Tree → Prop
  | primitive (text : String) : Reordered (.primitive text) (.primitive text)
  | tagged (name : String) {payload other : Tree} (inside : Reordered payload other) :
      Reordered (.tagged name payload) (.tagged name other)
  | object {entries listed others : List (String × Tree)} (distinct : (entries.map (·.1)).Nodup)
      (keys : entries.map (·.1) = listed.map (·.1))
      (values : List.Forall₂ Reordered (entries.map (·.2)) (listed.map (·.2)))
      (order : listed.Perm others) : Reordered (.object entries) (.object others)
  | array {items others : List Tree} (each : List.Forall₂ Reordered items others) :
      Reordered (.array items) (.array others)

namespace Reordered

theorem of_unordered {entries others : List (String × Tree)}
    (distinct : (entries.map (·.1)).Nodup) (unordered : Unordered Reordered entries others) :
    Reordered (.object entries) (.object others) := by
  obtain ⟨listed, keyed, order⟩ := unordered
  exact .object distinct keyed.map_key keyed.map_value order

/-- Induction on trees that are alike, where the entries of objects are paired in any order. -/
@[elab_as_elim]
theorem induction {motive : Tree → Tree → Prop}
    (primitive : ∀ text, motive (.primitive text) (.primitive text))
    (tagged : ∀ name payload other, motive payload other →
      motive (.tagged name payload) (.tagged name other))
    (object : ∀ entries others, (entries.map (·.1)).Nodup → Unordered motive entries others →
      motive (.object entries) (.object others))
    (array : ∀ items others, List.Forall₂ motive items others →
      motive (.array items) (.array others))
    {tree other : Tree} (reordered : Reordered tree other) : motive tree other := by
  induction tree generalizing other with
  | primitive text =>
      cases reordered
      exact primitive text
  | tagged name payload ih =>
      cases reordered with
      | tagged _ inside => exact tagged name payload _ (ih inside)
  | object entries ih =>
      cases reordered with
      | @object _ listed others distinct keys values order =>
          have alike : Unordered Reordered entries others := .of_map keys values order
          exact object entries others distinct
            (alike.imp_of_mem fun entry member _ inside => ih entry member inside)
  | array items ih =>
      cases reordered with
      | @array _ others each =>
          exact array items others
            (forall₂_imp_of_mem each fun item member _ _ inside => ih item member inside)

end Reordered

end ConfigScript.Tree
