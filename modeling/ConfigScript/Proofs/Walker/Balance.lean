import ConfigScript.Proofs.Event.Grammar
import ConfigScript.Proofs.Walker.Run

/-!
# What a walk yields is well formed

The levels of a walk say which events may still follow. Every event is one that may follow, so the
events of a walk begin a well-formed value, and they are a whole one when no level is left. A fault
is met only while a level is left, so that the events before it are never a whole value.
-/

set_option autoImplicit false

namespace ConfigScript

namespace Level

variable {heap : Heap} {options : Options} {first middle last outer : List Level}
  {events : List Event} {event : Event} {value : Value}

/-- The events that may follow until all levels are over. -/
inductive Closes : List Level → List Event → Prop where
  | nil : Closes [] []
  | closed {outer : List Level} {rest : List Event} :
      Closes outer rest → Closes (.closed :: outer) rest
  | single {outer : List Level} {rest : List Event} (value : Value) (tree : Tree) :
      Closes outer rest → Closes (.single value :: outer) (tree.events ++ rest)
  | entries {outer : List Level} {rest : List Event} (left : List (Value × Value))
      (trees : List (String × Tree)) :
      Closes outer rest →
      Closes (.entries left :: outer) (Tree.entriesEvents trees ++ .objectClose :: rest)
  | entry {outer : List Level} {rest : List Event} (value : Value) (left : List (Value × Value))
      (tree : Tree) (trees : List (String × Tree)) :
      Closes outer rest →
      Closes (.entry value left :: outer)
        (tree.events ++ (Tree.entriesEvents trees ++ .objectClose :: rest))
  | elements {outer : List Level} {rest : List Event} (left : List Value) (trees : List Tree) :
      Closes outer rest →
      Closes (.elements left :: outer) (Tree.itemsEvents trees ++ .arrayClose :: rest)

/-- The event of a value and all that may follow it begin with a tree. -/
theorem Closes.of_opens {after : List Event} (opens : Opens heap options value outer event last)
    (closes : Closes last after) :
    ∃ tree rest, event :: after = Tree.events tree ++ rest ∧ Closes outer rest := by
  cases opens with
  | scalar leaf _ => exact ⟨.primitive leaf.render, after, rfl, closes⟩
  | tagged name payload _ _ =>
      cases closes with
      | single _ tree closes => exact ⟨.tagged name tree, _, rfl, closes⟩
  | sequence elements _ _ =>
      cases closes with
      | elements _ trees closes =>
          exact ⟨.array trees, _, by simp [Tree.events], closes⟩
  | map pairs _ _ =>
      cases closes with
      | entries _ trees closes =>
          exact ⟨.object trees, _, by simp [Tree.events], closes⟩

theorem Closes.of_step {after : List Event} (steps : Steps heap options first event middle)
    (closes : Closes middle after) : Closes first (event :: after) := by
  induction steps with
  | closed _ ih => exact .closed (ih closes)
  | single value opens =>
      obtain ⟨tree, rest, shape, closes⟩ := of_opens opens closes
      exact shape ▸ .single value tree closes
  | entry value left opens =>
      obtain ⟨tree, rest, shape, closes⟩ := of_opens opens closes
      cases closes with
      | entries _ trees closes => exact shape ▸ .entry value left tree trees closes
  | element value left opens =>
      obtain ⟨tree, rest, shape, closes⟩ := of_opens opens closes
      cases closes with
      | elements _ trees closes =>
          rw [shape]
          simpa [Tree.itemsEvents] using Closes.elements (value :: left) (tree :: trees) closes
  | @key key text value left outer _ =>
      cases closes with
      | entry _ _ tree trees closes =>
          simpa [Tree.entriesEvents] using
            Closes.entries ((key, value) :: left) ((text, tree) :: trees) closes
  | objectClose outer =>
      cases closes with
      | closed closes => exact .entries [] [] closes
  | arrayClose outer =>
      cases closes with
      | closed closes => exact .elements [] [] closes

/-- What may follow the levels that a walk reaches may follow, after its events, the levels that it
came from. -/
theorem Walks.closes {after : List Event} (walks : Walks heap options first events last)
    (closes : Closes last after) : Closes first (events ++ after) := by
  induction walks with
  | refl => exact closes
  | leave _ ih => exact .closed (ih closes)
  | step stepped _ ih => exact .of_step (step?_eq_ok_iff.1 stepped) (ih closes)

theorem exists_closes (levels : List Level) : ∃ rest, Closes levels rest := by
  induction levels with
  | nil => exact ⟨_, .nil⟩
  | cons level outer ih =>
      obtain ⟨rest, closes⟩ := ih
      cases level with
      | closed => exact ⟨_, .closed closes⟩
      | single value => exact ⟨_, .single value default closes⟩
      | entries left => exact ⟨_, .entries left [] closes⟩
      | entry value left => exact ⟨_, .entry value left default [] closes⟩
      | elements left => exact ⟨_, .elements left [] closes⟩

theorem Closes.eq_nil_iff {rest : List Event} (closes : Closes first rest) :
    rest = [] ↔ step? heap options first = none := by
  induction closes with
  | nil => simp [step?]
  | closed _ ih => simpa [step?] using ih
  | single value tree _ _ => simp [step?, tree.events_ne_nil]
  | entries left trees _ _ => simp [step?_eq_none_iff]
  | entry value left tree trees _ _ => simp [step?]
  | elements left trees _ _ => simp [step?_eq_none_iff]

theorem Closes.wellFormed_of_single (closes : Closes [.single value] events) :
    WellFormed events := by
  cases closes with
  | single _ tree closes =>
      cases closes
      exact ⟨tree, by simp⟩

/-- The events of a walk from a single value begin a well-formed value, and nothing is missing from
it exactly when all levels are over. -/
theorem Walks.exists_wellFormed (walks : Walks heap options [.single value] events last) :
    ∃ rest, WellFormed (events ++ rest) ∧ (rest = [] ↔ step? heap options last = none) := by
  obtain ⟨rest, closes⟩ := exists_closes last
  exact ⟨rest, (walks.closes closes).wellFormed_of_single, closes.eq_nil_iff⟩

end Level

/-- An error that follows some events is the only one, and they are all that is before it. -/
theorem Path.eq_items_of_error {ε : Type} {path : Path} {events : List Event} {last error : ε}
    {before later : List (Item ε)}
    (split : path.items events ++ [.error last] = before ++ .error error :: later) :
    before = path.items events ∧ error = last := by
  induction events generalizing path before with
  | nil =>
      cases before with
      | nil => simp_all
      | cons item before => simp at split
  | cons event events ih =>
      cases before with
      | nil => simp at split
      | cons item before =>
          simp only [Path.items_cons, List.cons_append, List.cons.injEq] at split
          obtain ⟨rfl, same⟩ := ih split.2
          exact ⟨by rw [← split.1, Path.items_cons], same⟩

namespace Walker

/-- A walk that has ended has yielded a whole value, or a proper part of one and then an error. -/
inductive Finished (path : Path) (items : List (Item Invalid)) : Prop where
  | whole (events : List Event) :
      items = path.items events → WellFormed events → Finished path items
  | failed (events rest : List Event) (fault : Fault) :
      items = path.items events ++ [.error ⟨path.pushAll events, fault⟩] →
      WellFormed (events ++ rest) → rest ≠ [] → Finished path items

theorem finished {heap : Heap} {options : Options} {root : Value} {path : Path} {pulls : Nat}
    (ended : ((Walker.start heap options root path).after pulls).next? = none) :
    Finished path ((Walker.start heap options root path).items pulls) := by
  cases pulled heap options [.single root] pulls with
  | going events last walks length =>
      subst length
      obtain ⟨rest, whole, complete⟩ := walks.exists_wellFormed
      rw [complete.2 ((next?_after_length_of_walks walks).1 ended), List.append_nil] at whole
      exact .whole events (items_length_of_walks walks) whole
  | ended events last walks length ends =>
      obtain ⟨rest, whole, complete⟩ := walks.exists_wellFormed
      rw [complete.2 ends, List.append_nil] at whole
      exact .whole events (items_of_ended walks (Nat.le_of_lt length) ends) whole
  | failed events last fault walks length failure =>
      obtain ⟨rest, whole, complete⟩ := walks.exists_wellFormed
      refine .failed events rest fault (items_of_failed walks length failure) whole ?_
      intro nothing
      rw [complete.1 nothing] at failure
      cases failure

/-- After any number of pulls, the events of a walk begin a well-formed value. They are a whole one
when the walk has ended without an error. Those before an error are a part of one, and never a
whole one. -/
theorem events_begin_wellFormed (heap : Heap) (options : Options) (root : Value) (path : Path)
    (pulls : Nat) :
    let walker := Walker.start heap options root path
    let items := walker.items pulls
    (∃ rest, WellFormed (Item.events items ++ rest)) ∧
      ((walker.after pulls).next? = none → (∀ error, .error error ∉ items) →
        WellFormed (Item.events items)) ∧
      (∀ before error later, items = before ++ .error error :: later →
        (∃ rest, rest ≠ [] ∧ WellFormed (Item.events before ++ rest)) ∧
          ¬ WellFormed (Item.events before)) := by
  intro walker items
  by_cases ended : (walker.after pulls).next? = none
  · cases finished ended with
    | whole events shape whole =>
        have shape : items = path.items events := shape
        refine ⟨⟨[], by simpa [shape] using whole⟩, fun _ _ => by simpa [shape] using whole, ?_⟩
        intro before error later split
        exact absurd (shape ▸ split ▸ by simp) (path.error_not_mem_items events error)
    | failed events rest fault shape whole missing =>
        have shape : items = path.items events ++ [.error ⟨path.pushAll events, fault⟩] := shape
        refine ⟨⟨rest, by simpa [shape] using whole⟩, ?_, ?_⟩
        · intro _ noError
          exact absurd (by simp [shape]) (noError ⟨path.pushAll events, fault⟩)
        · intro before error later split
          rw [(Path.eq_items_of_error (shape.symm.trans split)).1, Item.events_items]
          exact ⟨⟨rest, missing, whole⟩, fun complete => missing (complete.rest_eq_nil whole)⟩
  · cases pulled heap options [.single root] pulls with
    | going events last walks length =>
        subst length
        have shape : items = path.items events := items_length_of_walks walks
        obtain ⟨rest, whole, _⟩ := walks.exists_wellFormed
        refine ⟨⟨rest, by simpa [shape] using whole⟩, fun finishes => absurd finishes ended, ?_⟩
        intro before error later split
        exact absurd (shape ▸ split ▸ by simp) (path.error_not_mem_items events error)
    | ended events last walks length ends =>
        exact absurd (next?_after_of_ended walks (Nat.le_of_lt length) ends) ended
    | failed events last fault walks length failure =>
        exact absurd (next?_after_of_failed walks length failure) ended

end Walker

end ConfigScript
