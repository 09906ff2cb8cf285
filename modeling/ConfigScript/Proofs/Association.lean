import Mathlib.Data.List.Forall2
import Mathlib.Data.List.Nodup
import Mathlib.Data.List.Perm.Basic
import Mathlib.Data.Option.Basic
import Mathlib.Order.Lattice
import Mathlib.Logic.Relation

/-!
# Association lists

What is found under a key of a list of pairs whose keys are distinct, whatever the order of the
pairs, and lists of pairs that have the same keys, one by one or in any order.
-/

set_option autoImplicit false

namespace ConfigScript

variable {κ α β : Type} {related : α → β → Prop} {firsts : List (κ × α)} {seconds : List (κ × β)}

theorem forall₂_imp_of_mem {relation other : α → β → Prop} {values : List α} {items : List β}
    (alike : List.Forall₂ relation values items)
    (implies : ∀ value ∈ values, ∀ item ∈ items, relation value item → other value item) :
    List.Forall₂ other values items := by
  induction alike with
  | nil => exact .nil
  | @cons value item values items first _ ih =>
      obtain ⟨here, later⟩ := List.forall_mem_cons.1 implies
      refine .cons (here item List.mem_cons_self first) (ih fun value member item found => ?_)
      exact later value member item (List.mem_cons_of_mem _ found)

theorem forall₂_eq_iff_map_eq_map {γ : Type} {front : α → γ} {back : β → γ} {values : List α}
    {items : List β} : List.Forall₂ (fun value item => front value = back item) values items ↔
      values.map front = items.map back := by
  rw [← List.forall₂_eq_eq_eq, List.forall₂_map_left_iff, List.forall₂_map_right_iff]

theorem forall₂_iff_map_eq {relation : α → β → Prop} {function : α → β} {values : List α}
    (known : ∀ value ∈ values, ∀ result, relation value result ↔ function value = result)
    (results : List β) : List.Forall₂ relation values results ↔ values.map function = results := by
  induction values generalizing results with
  | nil => rw [List.forall₂_nil_left_iff, List.map_nil, eq_comm]
  | cons value values ih =>
      obtain ⟨first, others⟩ := List.forall_mem_cons.1 known
      cases results with
      | nil => exact iff_of_false nofun nofun
      | cons result results =>
          rw [List.forall₂_cons, List.map_cons, List.cons.injEq, first, ih others]

theorem optionRel_iff_map_eq {relation : α → β → Prop} {function : α → β} {value : Option α}
    (known : ∀ found, value = some found →
      ∀ result, relation found result ↔ function found = result)
    (result : Option β) : Option.Rel relation value result ↔ value.map function = result := by
  cases value with
  | none =>
      constructor
      · rintro ⟨⟩
        rfl
      · rintro rfl
        exact .none
  | some found =>
      constructor
      · rintro ⟨holds⟩
        exact congrArg some ((known found rfl _).1 holds)
      · rintro rfl
        exact .some ((known found rfl _).2 rfl)

/-- Pairs with the same keys one by one, and with related values. -/
def Keyed (related : α → β → Prop) (firsts : List (κ × α)) (seconds : List (κ × β)) : Prop :=
  List.Forall₂ (fun first second => first.1 = second.1 ∧ related first.2 second.2) firsts seconds

namespace Keyed

theorem of_map (keys : firsts.map (·.1) = seconds.map (·.1))
    (values : List.Forall₂ related (firsts.map (·.2)) (seconds.map (·.2))) :
    Keyed related firsts seconds := by
  rw [List.forall₂_map_left_iff, List.forall₂_map_right_iff] at values
  induction values with
  | nil => exact .nil
  | cons first _ ih =>
      obtain ⟨key, keys⟩ := List.cons.inj keys
      exact .cons ⟨key, first⟩ (ih keys)

theorem map_value (keyed : Keyed related firsts seconds) :
    List.Forall₂ related (firsts.map (·.2)) (seconds.map (·.2)) := by
  rw [List.forall₂_map_left_iff, List.forall₂_map_right_iff]
  exact keyed.imp fun _ _ pair => pair.2

theorem map_key (keyed : Keyed related firsts seconds) : firsts.map (·.1) = seconds.map (·.1) := by
  induction keyed with
  | nil => rfl
  | cons pair _ ih => rw [List.map_cons, List.map_cons, pair.1, ih]

theorem imp_of_mem {relation : α → β → Prop} (keyed : Keyed related firsts seconds)
    (implies : ∀ first ∈ firsts, ∀ value, related first.2 value → relation first.2 value) :
    Keyed relation firsts seconds :=
  forall₂_imp_of_mem keyed fun first member second _ pair =>
    ⟨pair.1, implies first member second.2 pair.2⟩

theorem map {γ δ : Type} {next : γ → δ → Prop} {front : α → γ} {back : β → δ}
    (keyed : Keyed related firsts seconds)
    (holds : ∀ value other, related value other → next (front value) (back other)) :
    Keyed next (firsts.map fun pair => (pair.1, front pair.2))
      (seconds.map fun pair => (pair.1, back pair.2)) := by
  unfold Keyed
  rw [List.forall₂_map_left_iff, List.forall₂_map_right_iff]
  exact keyed.imp fun _ _ pair => ⟨pair.1, holds _ _ pair.2⟩

theorem eq {seconds : List (κ × α)} (keyed : Keyed Eq firsts seconds) : firsts = seconds := by
  rw [← List.forall₂_eq_eq_eq]
  exact keyed.imp fun _ _ pair => Prod.ext pair.1 pair.2

theorem exists_of_mem (keyed : Keyed related firsts seconds) {key : κ} {second : β}
    (member : (key, second) ∈ seconds) :
    ∃ first, (key, first) ∈ firsts ∧ related first second := by
  induction keyed with
  | nil => cases member
  | @cons front back firsts seconds pair _ ih =>
      cases List.mem_cons.1 member with
      | inl here =>
          subst here
          obtain ⟨_, first⟩ := front
          obtain ⟨rfl, alike⟩ := pair
          exact ⟨first, List.mem_cons_self, alike⟩
      | inr later =>
          obtain ⟨first, found, alike⟩ := ih later
          exact ⟨first, List.mem_cons_of_mem _ found, alike⟩

theorem lookup [BEq κ] (keyed : Keyed related firsts seconds) (key : κ) :
    Option.Rel related (firsts.lookup key) (seconds.lookup key) := by
  induction keyed with
  | nil => exact .none
  | @cons front back firsts seconds pair _ ih =>
      obtain ⟨same, alike⟩ := pair
      rw [List.lookup_cons, List.lookup_cons, same]
      cases key == back.1 with
      | true => exact .some alike
      | false => exact ih

end Keyed

theorem find?_of_mem [DecidableEq κ] {values : List α} {value : α} {name : α → κ}
    (distinct : (values.map name).Nodup) (member : value ∈ values) :
    values.find? (name · = name value) = some value := by
  obtain ⟨before, after, rfl⟩ := List.append_of_mem member
  refine List.find?_eq_some_iff_append.2 ⟨by simp, before, after, rfl, fun other earlier => ?_⟩
  rw [List.map_append, List.nodup_append] at distinct
  have differs := distinct.2.2 (name other) (List.mem_map_of_mem earlier) (name value) (by simp)
  simpa using differs

theorem lookup_map [BEq κ] (function : α → β) (pairs : List (κ × α)) (key : κ) :
    (pairs.map fun pair => (pair.1, function pair.2)).lookup key =
      (pairs.lookup key).map function := by
  induction pairs with
  | nil => rfl
  | cons pair rest ih =>
      rw [List.map_cons, List.lookup_cons, List.lookup_cons, ih]
      cases key == pair.1 <;> rfl

variable [BEq κ] [LawfulBEq κ] {pairs : List (κ × α)} {key : κ} {value : α}

theorem lookup_cons_eq_ite [DecidableEq κ] (pair : κ × α) :
    (pair :: pairs).lookup key = if key = pair.1 then some pair.2 else pairs.lookup key := by
  rw [List.lookup_cons]
  by_cases same : key = pair.1
  · rw [if_pos same, beq_iff_eq.2 same]
  · rw [if_neg same, beq_eq_false_iff_ne.2 same]

theorem lookup_of_mem (distinct : (pairs.map (·.1)).Nodup) (member : (key, value) ∈ pairs) :
    pairs.lookup key = some value := by
  obtain ⟨before, after, rfl⟩ := List.append_of_mem member
  refine List.lookup_eq_some_iff.2 ⟨before, after, rfl, fun pair earlier => ?_⟩
  rw [List.map_append, List.nodup_append] at distinct
  have differs := distinct.2.2 pair.1 (List.mem_map_of_mem earlier) key (by simp)
  simpa using differs.symm

theorem mem_of_lookup (found : pairs.lookup key = some value) : (key, value) ∈ pairs := by
  obtain ⟨before, after, rfl, _⟩ := List.lookup_eq_some_iff.1 found
  exact List.mem_append_right _ List.mem_cons_self

theorem mem_iff_lookup_eq (distinct : (pairs.map (·.1)).Nodup) :
    (key, value) ∈ pairs ↔ pairs.lookup key = some value :=
  ⟨lookup_of_mem distinct, mem_of_lookup⟩

/-- Distinct keys are found in any order of the pairs. -/
theorem lookup_of_perm {listed : List (κ × α)} (distinct : (pairs.map (·.1)).Nodup)
    (order : listed.Perm pairs) : listed.lookup key = pairs.lookup key := by
  have listedDistinct : (listed.map (·.1)).Nodup := (order.map _).nodup_iff.2 distinct
  refine Option.ext fun value => ?_
  rw [← mem_iff_lookup_eq listedDistinct, ← mem_iff_lookup_eq distinct, order.mem_iff]

theorem lookup_of_not_mem (absent : key ∉ pairs.map (·.1)) : pairs.lookup key = none := by
  rw [List.lookup_eq_none_iff]
  intro pair member
  have differs : key ≠ pair.1 := fun same => absent (same ▸ List.mem_map_of_mem member)
  simpa using differs

/-- Pairs with the same keys and with related values, in any order. -/
def Unordered (related : α → β → Prop) (firsts : List (κ × α)) (seconds : List (κ × β)) : Prop :=
  Relation.Comp (Keyed related) List.Perm firsts seconds

namespace Unordered

variable {κ : Type} {firsts : List (κ × α)} {seconds : List (κ × β)}

theorem of_map {listed others : List (κ × β)} (keys : firsts.map (·.1) = listed.map (·.1))
    (values : List.Forall₂ related (firsts.map (·.2)) (listed.map (·.2)))
    (order : listed.Perm others) : Unordered related firsts others :=
  ⟨listed, .of_map keys values, order⟩

theorem length_eq (unordered : Unordered related firsts seconds) :
    firsts.length = seconds.length := by
  obtain ⟨listed, keyed, order⟩ := unordered
  exact keyed.length_eq.trans order.length_eq

theorem map_key_perm (unordered : Unordered related firsts seconds) :
    (firsts.map (·.1)).Perm (seconds.map (·.1)) := by
  obtain ⟨listed, keyed, order⟩ := unordered
  rw [keyed.map_key]
  exact order.map _

theorem map {γ δ : Type} {next : γ → δ → Prop} {front : α → γ} {back : β → δ}
    (unordered : Unordered related firsts seconds)
    (holds : ∀ value other, related value other → next (front value) (back other)) :
    Unordered next (firsts.map fun pair => (pair.1, front pair.2))
      (seconds.map fun pair => (pair.1, back pair.2)) := by
  obtain ⟨listed, keyed, order⟩ := unordered
  exact ⟨_, keyed.map holds, order.map _⟩

theorem imp_of_mem {relation : α → β → Prop} (unordered : Unordered related firsts seconds)
    (implies : ∀ first ∈ firsts, ∀ value, related first.2 value → relation first.2 value) :
    Unordered relation firsts seconds := by
  obtain ⟨listed, keyed, order⟩ := unordered
  exact ⟨listed, keyed.imp_of_mem implies, order⟩

theorem lookup [BEq κ] [LawfulBEq κ] (unordered : Unordered related firsts seconds)
    (distinct : (firsts.map (·.1)).Nodup) (key : κ) :
    Option.Rel related (firsts.lookup key) (seconds.lookup key) := by
  have distinctSeconds := unordered.map_key_perm.nodup_iff.1 distinct
  obtain ⟨listed, keyed, order⟩ := unordered
  rw [← lookup_of_perm distinctSeconds order]
  exact keyed.lookup key

end Unordered

/-- Values that become the same, in any order, are those of lists that become permutations. -/
theorem unordered_eq_iff_perm_map {κ γ : Type} {firsts : List (κ × α)} {seconds : List (κ × β)}
    {front : α → γ} {back : β → γ} :
    Unordered (fun value other => front value = back other) firsts seconds ↔
      (firsts.map fun pair => (pair.1, front pair.2)).Perm
        (seconds.map fun pair => (pair.1, back pair.2)) := by
  constructor
  · intro unordered
    obtain ⟨listed, keyed, order⟩ := unordered.map fun _ _ same => same
    exact keyed.eq ▸ order
  · intro order
    have changed : List.Forall₂ (fun pair second => pair = (second.1, back second.2))
        (seconds.map fun pair => (pair.1, back pair.2)) seconds :=
      List.forall₂_map_left_iff.2 (List.forall₂_same.2 fun _ _ => rfl)
    obtain ⟨listed, alike, reordered⟩ := List.perm_comp_forall₂ order changed
    refine ⟨listed, (List.forall₂_map_left_iff.1 alike).imp fun _ _ same => ?_, reordered⟩
    exact ⟨congrArg Prod.fst same, congrArg Prod.snd same⟩

/-- Pairs in increasing order of their keys are told by what is found under each key. -/
theorem eq_of_lookup {κ : Type} [LinearOrder κ] {firsts seconds : List (κ × α)}
    (increasing : firsts.Pairwise fun first second => first.1 < second.1)
    (increasingSeconds : seconds.Pairwise fun first second => first.1 < second.1)
    (same : ∀ key, firsts.lookup key = seconds.lookup key) : firsts = seconds := by
  have distinct : ∀ {pairs : List (κ × α)},
      pairs.Pairwise (fun first second => first.1 < second.1) → (pairs.map (·.1)).Nodup :=
    fun sorted => List.pairwise_map.2 (sorted.imp ne_of_lt)
  have alike : firsts.Perm seconds := by
    refine (List.perm_ext_iff_of_nodup (distinct increasing).of_map
      (distinct increasingSeconds).of_map).2 fun pair => ?_
    rw [mem_iff_lookup_eq (distinct increasing), mem_iff_lookup_eq (distinct increasingSeconds),
      same]
  refine List.Perm.eq_of_pairwise ?_ increasing increasingSeconds alike
  intro first second _ _ below above
  exact absurd above (lt_asymm below)

end ConfigScript
