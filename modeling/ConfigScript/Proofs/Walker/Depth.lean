import ConfigScript.Proofs.Value.Table
import ConfigScript.Proofs.Walker.Nesting

/-!
# The limit on the depth

Whatever the heap, as many containers are open during a walk as the limit says and no more. A table
that is reached when so many are open is refused, and the walk ends before the event of that table.
Under a greater limit a walk yields the same and goes on.
-/

set_option autoImplicit false

namespace ConfigScript

open Event Level

namespace Walker

variable {walker rest : Walker} {events : List Event} {item : Item Invalid}

/-- The levels of a walker, in terms of the events that it has yielded. -/
inductive Fits (walker : Walker) (events : List Event) : Prop
  | going (nested : Nested walker.stack) (room : walker.stack.length ≤ walker.options.maxDepth)
      (same : openContainers events = openCount walker.stack) : Fits walker events
  | failed (empty : walker.stack = [])
      (room : openContainers events ≤ walker.options.maxDepth) : Fits walker events

namespace Fits

theorem openContainers_le (fits : Fits walker events) :
    walker.stack.length ≤ walker.options.maxDepth ∧
      openContainers events ≤ walker.options.maxDepth := by
  cases fits with
  | going nested room same => exact ⟨room, same ▸ Nat.le_trans (openCount_le_length _) room⟩
  | failed empty room =>
      rw [empty]
      exact ⟨Nat.zero_le _, room⟩

/-- What one pull does to the levels is what its event does to the open containers. -/
theorem next (fits : Fits walker events) (pulled : walker.next? = some (item, rest)) :
    Fits rest (events ++ Item.events [item]) := by
  obtain ⟨heap, options, stack, path⟩ := walker
  cases stepped : step? heap options stack with
  | none => cases (next?_eq_none_iff.2 stepped).symm.trans pulled
  | some result =>
      rcases result with fault | ⟨event, last⟩
      · cases (next?_of_error stepped).symm.trans pulled
        rw [Item.events_error, List.append_nil]
        exact .failed rfl fits.openContainers_le.2
      · cases (next?_of_ok stepped).symm.trans pulled
        have steps := step?_eq_ok_iff.1 stepped
        cases fits with
        | going nested room same =>
            refine .going (steps.nested nested) (steps.length_le room) ?_
            have taken : Item.events [(.ok (event, path.push event) : Item Invalid)] = [event] :=
              rfl
            rw [taken, openContainers_append_singleton, same, steps.openCount_eq]
        | failed empty room =>
            subst empty
            cases stepped

theorem after (fits : Fits walker events) (pulls : Nat) :
    Fits (walker.after pulls) (events ++ Item.events (walker.items pulls)) := by
  have kept : ∀ walker items item rest, Fits walker (events ++ Item.events items) →
      walker.next? = some (item, rest) → Fits rest (events ++ Item.events (items ++ [item])) := by
    intro walker items item rest fits pulled
    rw [Item.events_append, ← List.append_assoc]
    exact fits.next pulled
  exact after_keeps kept ((List.append_nil events).symm ▸ fits) pulls

end Fits

theorem fits_start (heap : Heap) {options : Options} (root : Value) (path : Path)
    (room : 1 ≤ options.maxDepth) : Fits (Walker.start heap options root path) [] :=
  .going nofun room rfl

theorem next?_eq_error_iff {place : Path} {fault : Fault} :
    walker.next? = some (.error ⟨place, fault⟩, rest) ↔
      step? walker.heap walker.options walker.stack = some (.error fault) ∧
        place = walker.path ∧ rest = { walker with stack := [] } := by
  unfold next?
  split
  · next stepped => simp [stepped]
  · next other stepped =>
      rw [stepped]
      constructor
      · intro pulled
        cases pulled
        exact ⟨rfl, rfl, rfl⟩
      · intro failed
        obtain ⟨same, rfl, rfl⟩ := failed
        cases same
        rfl
  · next event last stepped => simp [stepped]

/-- A table is refused exactly when as many containers are open as may be. -/
theorem Fits.refuses_iff (fits : Fits walker events) :
    (∃ place limit rest, walker.next? = some (.error ⟨place, .tooDeep limit⟩, rest)) ↔
      ∃ id outer shape, reached? walker.stack = some (.table id, outer) ∧
        (walker.heap.table id).shape = .ok shape ∧
          openContainers events = walker.options.maxDepth := by
  have length_eq : ∀ {id outer}, reached? walker.stack = some (.table id, outer) →
      openContainers events = outer.length ∧ outer.length ≤ walker.options.maxDepth := by
    intro id outer reached
    cases fits with
    | going nested room same =>
        exact ⟨same.trans (nested.of_reached reached).2,
          Nat.le_trans (length_le_of_reached reached) room⟩
    | failed empty room =>
        rw [empty] at reached
        cases reached
  constructor
  · intro refused
    obtain ⟨place, limit, rest, pulled⟩ := refused
    obtain ⟨⟨id, outer, shape, reached, shaped, full⟩, -⟩ :=
      step?_eq_tooDeep_iff.1 (next?_eq_error_iff.1 pulled).1
    obtain ⟨same, room⟩ := length_eq reached
    exact ⟨id, outer, shape, reached, shaped, same.trans (Nat.le_antisymm room full)⟩
  · intro standing
    obtain ⟨id, outer, shape, reached, shaped, full⟩ := standing
    have refused := step?_eq_tooDeep_iff.2 ⟨⟨id, outer, shape, reached, shaped,
      Nat.le_of_eq (full.symm.trans (length_eq reached).1)⟩, rfl⟩
    exact ⟨_, _, _, next?_eq_error_iff.2 ⟨refused, rfl, rfl⟩⟩

/-- After the refusal of a table nothing is yielded, not even its own event. -/
theorem items_of_refused {place : Path} {limit pulls : Nat}
    (refused : (walker.after pulls).next? = some (.error ⟨place, .tooDeep limit⟩, rest))
    {more : Nat} (later : pulls < more) :
    walker.items more = walker.items pulls ++
      [.error ⟨(walker.after pulls).path, .tooDeep walker.options.maxDepth⟩] := by
  obtain ⟨others, rfl⟩ := Nat.exists_eq_add_of_lt later
  obtain ⟨stepped, rfl, rfl⟩ := next?_eq_error_iff.1 refused
  obtain ⟨-, rfl⟩ := step?_eq_tooDeep_iff.1 stepped
  have ended : Walker.next? { walker.after pulls with stack := [] } = none :=
    next?_eq_none_iff.2 rfl
  rw [Nat.add_assoc, items_add, items_succ_of_next _ refused, items_of_finished _ ended,
    (walker.heap_after pulls).2]

variable {heap : Heap} {options : Options} {limit : Nat}

/-- A walk under a greater limit yields the same, or it goes on where the other one refuses a
table. -/
theorem items_of_deeper {levels : List Level} (room : levels.length ≤ options.maxDepth)
    (more : options.maxDepth ≤ limit) (path : Path) :
    let walker := Walker.mk heap options levels path
    let deeper := Walker.mk heap { options with maxDepth := limit } levels path
    (∀ pulls, walker.items pulls = deeper.items pulls) ∨
      ∃ events event,
        (∀ pulls, events.length < pulls → walker.items pulls = path.items events ++
          [.error ⟨path.pushAll events, .tooDeep options.maxDepth⟩]) ∧
        deeper.items (events.length + 1) = path.items (events ++ [event]) := by
  intro walker deeper
  rcases Nat.eq_or_lt_of_le more with rfl | less
  · exact .inl fun _ => rfl
  by_cases refused : ∃ events last, Walks heap options levels events last ∧
      step? heap options last = some (.error (.tooDeep options.maxDepth))
  · obtain ⟨events, last, walks, failure⟩ := refused
    rcases step?_deeper (walks.length_le room) less with same | ⟨-, event, next, stepped⟩
    · obtain ⟨-, equal⟩ := step?_eq_tooDeep_iff.1 (same.trans failure)
      exact absurd equal (Nat.ne_of_lt less)
    · refine .inr ⟨events, event, fun pulls enough => items_of_failed walks enough failure, ?_⟩
      have whole := (walks.deeper room less).trans (.single stepped)
      have yielded : deeper.items (events ++ [event]).length = path.items (events ++ [event]) :=
        items_length_of_walks whole
      rwa [List.length_append, List.length_singleton] at yielded
  · refine .inl fun pulls => ?_
    have same : ∀ events last, Walks heap options levels events last →
        step? heap { options with maxDepth := limit } last = step? heap options last := by
      intro events last walks
      rcases step?_deeper (walks.length_le room) less with same | ⟨failure, _⟩
      · exact same
      · exact absurd ⟨events, last, walks, failure⟩ refused
    cases pulled heap options levels pulls with
    | going events last walks length =>
        subst length
        exact (items_length_of_walks walks).trans
          (items_length_of_walks (walks.deeper room less)).symm
    | ended events last walks length ends =>
        have ended := (same events last walks).trans ends
        exact (items_of_ended walks (Nat.le_of_lt length) ends).trans
          (items_of_ended (walks.deeper room less) (Nat.le_of_lt length) ended).symm
    | failed events last fault walks length failure =>
        have failed := (same events last walks).trans failure
        exact (items_of_failed walks length failure).trans
          (items_of_failed (walks.deeper room less) length failed).symm

/-- The limit on the depth is exact and monotone. No more levels and containers are open than it
says; a table is refused, before its own event, exactly when as many are open as it says; and a
greater limit changes nothing but what is refused. -/
theorem depth_limited (heap : Heap) (options : Options) (root : Value) (path : Path)
    (room : 1 ≤ options.maxDepth) :
    let walker := Walker.start heap options root path
    (∀ pulls, (walker.after pulls).stack.length ≤ options.maxDepth ∧
      openContainers (Item.events (walker.items pulls)) ≤ options.maxDepth) ∧
    (∀ pulls,
      ((∃ place limit rest,
          (walker.after pulls).next? = some (.error ⟨place, .tooDeep limit⟩, rest)) ↔
        ∃ id outer shape, reached? (walker.after pulls).stack = some (.table id, outer) ∧
          (heap.table id).shape = .ok shape ∧
            openContainers (Item.events (walker.items pulls)) = options.maxDepth) ∧
      ∀ place limit rest,
        (walker.after pulls).next? = some (.error ⟨place, .tooDeep limit⟩, rest) →
          ∀ more, pulls < more → walker.items more = walker.items pulls ++
            [.error ⟨(walker.after pulls).path, .tooDeep options.maxDepth⟩]) ∧
    ∀ limit, options.maxDepth ≤ limit →
      let deeper := Walker.start heap { options with maxDepth := limit } root path
      (∀ pulls, walker.items pulls = deeper.items pulls) ∨
        ∃ events event,
          (∀ pulls, events.length < pulls → walker.items pulls = path.items events ++
            [.error ⟨path.pushAll events, .tooDeep options.maxDepth⟩]) ∧
          deeper.items (events.length + 1) = path.items (events ++ [event]) := by
  intro walker
  have alone : [Level.single root].length ≤ options.maxDepth := room
  have fits : ∀ pulls, Fits (walker.after pulls) (Item.events (walker.items pulls)) :=
    (fits_start heap root path room).after
  have kept : ∀ pulls, (walker.after pulls).heap = heap ∧ (walker.after pulls).options = options :=
    walker.heap_after
  refine ⟨fun pulls => ?_, fun pulls => ⟨?_, ?_⟩, fun limit more => items_of_deeper alone more path⟩
  · rw [← (kept pulls).2]
    exact (fits pulls).openContainers_le
  · rw [(fits pulls).refuses_iff, (kept pulls).1, (kept pulls).2]
  · intro place limit rest refused more later
    exact items_of_refused refused later

/-- A carrier in a map is refused where only one container may be open, whatever it carries. -/
theorem depth_limited_of_carrier :
    let heap : Heap := ⟨#[carrier "fixed" (.boolean true), ⟨[(.ofText "level", .table 0)], 0⟩]⟩
    let options : Options := { maxDepth := 1 }
    let walker := Walker.start heap options (.table 1) (.root "text")
    1 ≤ options.maxDepth ∧ Item.events (walker.items 2) = [.objectOpen, .key "level"] ∧
      ∃ place limit rest, (walker.after 2).next? = some (.error ⟨place, .tooDeep limit⟩, rest) := by
  intro heap options walker
  have pulled : Item.events (walker.items 2) = [.objectOpen, .key "level"] := by decide +kernel
  have refused := ((depth_limited heap options (.table 1) (.root "text") (Nat.le_refl 1)).2.1 2).1.2
  refine ⟨Nat.le_refl 1, pulled, refused ⟨0, [.entries []], .tagged "fixed" (.boolean true), ?_⟩⟩
  refine ⟨rfl, rfl, ?_⟩
  rw [pulled]
  rfl

end Walker

end ConfigScript
