import ConfigScript.Walker

/-!
# Runs of a walk

The levels of a walk change without regard to paths. `Level.Walks` says which events lead from one
stack of levels to another, and `Walker.pulled` says what some pulls reach in these terms.
-/

set_option autoImplicit false

namespace ConfigScript

namespace Level

variable {heap : Heap} {options : Options} {first middle last outer : List Level}
  {events more : List Event} {value : Value} {level : Level}

/-- How a value is presented inside some levels, kind by kind. -/
inductive Opens (heap : Heap) (options : Options) (value : Value) (outer : List Level) :
    Event → List Level → Prop where
  | scalar (leaf : Scalar) :
      value.shape heap options.strictIntegers = .ok (.scalar leaf) →
      Opens heap options value outer (.primitive leaf.render) outer
  | tagged (name : String) (payload : Value) :
      value.shape heap options.strictIntegers = .ok (.tagged name payload) →
      outer.length < options.maxDepth →
      Opens heap options value outer (.typeTag name) (.single payload :: outer)
  | sequence (elements : List Value) :
      value.shape heap options.strictIntegers = .ok (.sequence elements) →
      outer.length < options.maxDepth →
      Opens heap options value outer .arrayOpen (.elements elements :: outer)
  | map (pairs : List (Value × Value)) :
      value.shape heap options.strictIntegers = .ok (.map pairs) →
      outer.length < options.maxDepth →
      Opens heap options value outer .objectOpen (.entries pairs :: outer)

theorem enter_eq_ok_iff {event : Event} :
    enter heap options value outer = .ok (event, last) ↔
      Opens heap options value outer event last := by
  constructor
  · intro entered
    unfold enter at entered
    cases shaped : value.shape heap options.strictIntegers with
    | error fault => simp [shaped] at entered
    | ok shape =>
        by_cases room : options.maxDepth ≤ outer.length
        · cases shape <;> simp [shaped, Shape.opening, room] at entered
          obtain ⟨rfl, rfl⟩ := entered
          exact .scalar _ shaped
        · cases shape <;> simp only [shaped, Shape.opening, room, if_false, Except.ok.injEq,
            Prod.mk.injEq] at entered <;> obtain ⟨rfl, rfl⟩ := entered
          · exact .scalar _ shaped
          · exact .tagged _ _ shaped (Nat.lt_of_not_le room)
          · exact .sequence _ shaped (Nat.lt_of_not_le room)
          · exact .map _ shaped (Nat.lt_of_not_le room)
  · intro opens
    cases opens with
    | scalar leaf shaped => simp [enter, shaped, Shape.opening]
    | tagged name payload shaped room => simp [enter, shaped, Shape.opening, room]
    | sequence elements shaped room => simp [enter, shaped, Shape.opening, room]
    | map pairs shaped room => simp [enter, shaped, Shape.opening, room]

/-- What a step presents, level by level. A level that is over goes without an event. -/
inductive Steps (heap : Heap) (options : Options) : List Level → Event → List Level → Prop where
  | closed {outer last : List Level} {event : Event} :
      Steps heap options outer event last → Steps heap options (.closed :: outer) event last
  | single {outer last : List Level} {event : Event} (value : Value) :
      Opens heap options value outer event last →
      Steps heap options (.single value :: outer) event last
  | key {key : Value} {text : String} (value : Value) (rest : List (Value × Value))
      (outer : List Level) : key.keyText = .ok text →
      Steps heap options (.entries ((key, value) :: rest) :: outer) (.key text)
        (.entry value rest :: outer)
  | objectClose (outer : List Level) :
      Steps heap options (.entries [] :: outer) .objectClose (.closed :: outer)
  | entry {outer last : List Level} {event : Event} (value : Value) (rest : List (Value × Value)) :
      Opens heap options value (.entries rest :: outer) event last →
      Steps heap options (.entry value rest :: outer) event last
  | arrayClose (outer : List Level) :
      Steps heap options (.elements [] :: outer) .arrayClose (.closed :: outer)
  | element {outer last : List Level} {event : Event} (value : Value) (rest : List Value) :
      Opens heap options value (.elements rest :: outer) event last →
      Steps heap options (.elements (value :: rest) :: outer) event last

theorem step?_eq_ok_iff {event : Event} :
    step? heap options first = some (.ok (event, last)) ↔ Steps heap options first event last := by
  constructor
  · intro stepped
    induction first with
    | nil => cases stepped
    | cons level outer ih =>
        cases level with
        | closed => exact .closed (ih stepped)
        | single value => exact .single value (enter_eq_ok_iff.1 (Option.some.inj stepped))
        | entry value rest => exact .entry value rest (enter_eq_ok_iff.1 (Option.some.inj stepped))
        | elements rest =>
            cases rest with
            | nil =>
                cases stepped
                exact .arrayClose outer
            | cons value rest =>
                exact .element value rest (enter_eq_ok_iff.1 (Option.some.inj stepped))
        | entries rest =>
            rcases rest with _ | ⟨⟨key, value⟩, rest⟩
            · cases stepped
              exact .objectClose outer
            · cases keyed : key.keyText with
              | error fault => simp [step?, keyed, Except.map] at stepped
              | ok text =>
                  simp only [step?, keyed, Except.map, Option.some.injEq, Except.ok.injEq,
                    Prod.mk.injEq] at stepped
                  obtain ⟨rfl, rfl⟩ := stepped
                  exact .key value rest outer keyed
  · intro steps
    induction steps with
    | closed _ ih => exact ih
    | single value opens => exact congrArg some (enter_eq_ok_iff.2 opens)
    | entry value rest opens => exact congrArg some (enter_eq_ok_iff.2 opens)
    | element value rest opens => exact congrArg some (enter_eq_ok_iff.2 opens)
    | objectClose | arrayClose => rfl
    | key value rest outer keyed =>
        rw [step?, keyed]
        rfl

/-- Levels that have presented some events and then are others. A level that is over may go without
an event. -/
inductive Walks (heap : Heap) (options : Options) : List Level → List Event → List Level → Prop where
  | refl {levels : List Level} : Walks heap options levels [] levels
  | leave {outer last : List Level} {events : List Event} :
      Walks heap options outer events last → Walks heap options (.closed :: outer) events last
  | step {first middle last : List Level} {event : Event} {events : List Event} :
      step? heap options first = some (.ok (event, middle)) →
      Walks heap options middle events last → Walks heap options first (event :: events) last

namespace Walks

theorem single {event : Event} (stepped : step? heap options first = some (.ok (event, last))) :
    Walks heap options first [event] last :=
  .step stepped .refl

theorem trans (front : Walks heap options first events middle)
    (back : Walks heap options middle more last) :
    Walks heap options first (events ++ more) last := by
  induction front with
  | refl => exact back
  | leave _ ih => exact .leave (ih back)
  | step stepped _ ih => exact .step stepped (ih back)

end Walks

theorem step?_eq_none_iff :
    step? heap options first = none ↔ ∀ level ∈ first, level = .closed := by
  induction first with
  | nil => simp [step?]
  | cons level outer ih =>
      cases level with
      | single | entry => simp [step?]
      | closed => simp [step?, ih]
      | elements rest => cases rest <;> simp [step?]
      | entries rest => rcases rest with _ | ⟨⟨key, value⟩, rest⟩ <;> simp [step?]

end Level

namespace Walker

variable {heap : Heap} {options : Options} {levels last : List Level} {events : List Event}
  {path : Path}

theorem next?_of_ok {event : Event}
    (stepped : Level.step? heap options levels = some (.ok (event, last))) :
    (Walker.mk heap options levels path).next? =
      some (.ok (event, path.push event), ⟨heap, options, last, path.push event⟩) := by
  simp [next?, stepped]

theorem next?_of_error {fault : Fault}
    (stepped : Level.step? heap options levels = some (.error fault)) :
    (Walker.mk heap options levels path).next? =
      some (.error ⟨path, fault⟩, ⟨heap, options, [], path⟩) := by
  simp [next?, stepped]

theorem next?_eq_none_iff {walker : Walker} :
    walker.next? = none ↔ Level.step? walker.heap walker.options walker.stack = none := by
  unfold next?
  split <;> simp_all

theorem after_add (walker : Walker) (first second : Nat) :
    walker.after (first + second) = (walker.after first).after second := by
  induction first generalizing walker with
  | zero => simp
  | succ first ih =>
      cases pulled : walker.next? with
      | none => rw [after_of_finished _ pulled, after_of_finished _ pulled,
          after_of_finished _ pulled]
      | some result =>
          rw [Nat.add_right_comm, after_succ_of_next _ pulled, after_succ_of_next _ pulled, ih]

theorem items_add (walker : Walker) (first second : Nat) :
    walker.items (first + second) = walker.items first ++ (walker.after first).items second := by
  induction first generalizing walker with
  | zero => simp
  | succ first ih =>
      cases pulled : walker.next? with
      | none => simp [items_of_finished _ pulled, after_of_finished _ pulled]
      | some result =>
          rw [Nat.add_right_comm, items_succ_of_next _ pulled, items_succ_of_next _ pulled,
            after_succ_of_next _ pulled, ih, List.cons_append]

/-- What every pull preserves, of a walker and what it has yielded, holds after any number of
pulls. -/
theorem after_keeps {invariant : Walker → List (Item Invalid) → Prop}
    (kept : ∀ walker items item rest, invariant walker items →
      walker.next? = some (item, rest) → invariant rest (items ++ [item]))
    {walker : Walker} (start : invariant walker []) (pulls : Nat) :
    invariant (walker.after pulls) (walker.items pulls) := by
  induction pulls with
  | zero => exact start
  | succ pulls ih =>
      rw [after_add, items_add]
      cases pulled : (walker.after pulls).next? with
      | none =>
          rw [after_of_finished _ pulled, items_of_finished _ pulled, List.append_nil]
          exact ih
      | some result =>
          obtain ⟨item, rest⟩ := result
          rw [after_succ_of_next 0 pulled, items_succ_of_next 0 pulled]
          exact kept _ _ item rest ih pulled

theorem take_items (walker : Walker) (pulls more : Nat) :
    (walker.items (pulls + more)).take pulls = walker.items pulls := by
  induction pulls generalizing walker with
  | zero => simp
  | succ pulls ih =>
      cases pulled : walker.next? with
      | none => simp [items_of_finished _ pulled]
      | some result =>
          rw [Nat.add_right_comm, items_succ_of_next _ pulled, items_succ_of_next _ pulled,
            List.take_succ_cons, ih]

/-- A walk that has ended yields nothing more, however often it is pulled. -/
theorem items_of_after_finished {walker : Walker} {pulls : Nat} (more : Nat)
    (finished : (walker.after pulls).next? = none) :
    walker.items (pulls + more) = walker.items pulls := by
  rw [items_add, items_of_finished _ finished, List.append_nil]

/-- Fewer pulls than it takes a walk to end yield a beginning of the whole walk. -/
theorem items_eq_take_of_finished {walker : Walker} {pulls : Nat}
    (finished : (walker.after pulls).next? = none) (fewer : Nat) :
    walker.items fewer = (walker.items pulls).take fewer := by
  rw [← items_of_after_finished fewer finished, Nat.add_comm, take_items]

theorem after_eq_of_le {walker : Walker} {first second : Nat} (order : first ≤ second)
    (finished : (walker.after first).next? = none) : walker.after second = walker.after first := by
  obtain ⟨more, rfl⟩ := Nat.exists_eq_add_of_le order
  rw [after_add, after_of_finished _ finished]

theorem next?_after_of_le {walker : Walker} {first second : Nat} (order : first ≤ second)
    (finished : (walker.after first).next? = none) : (walker.after second).next? = none := by
  rw [after_eq_of_le order finished, finished]

theorem heap_after (walker : Walker) (pulls : Nat) : (walker.after pulls).heap = walker.heap ∧
    (walker.after pulls).options = walker.options := by
  have kept : ∀ (other : Walker) (_ : List (Item Invalid)) item rest,
      other.heap = walker.heap ∧ other.options = walker.options →
        other.next? = some (item, rest) →
          rest.heap = walker.heap ∧ rest.options = walker.options := by
    intro other _ item rest same pulled
    unfold next? at pulled
    split at pulled <;> cases pulled <;> exact same
  exact after_keeps kept ⟨rfl, rfl⟩ pulls

private theorem next?_closed :
    (Walker.mk heap options (.closed :: levels) path).next? =
      (Walker.mk heap options levels path).next? := rfl

private theorem items_closed (pulls : Nat) :
    (Walker.mk heap options (.closed :: levels) path).items pulls =
      (Walker.mk heap options levels path).items pulls := by
  cases pulls with
  | zero => rfl
  | succ pulls =>
      cases pulled : (Walker.mk heap options levels path).next? with
      | none => rw [items_of_finished _ pulled, items_of_finished _ (next?_closed.trans pulled)]
      | some result =>
          rw [items_succ_of_next _ pulled, items_succ_of_next _ (next?_closed.trans pulled)]

/-- The items of a walk are those of the events on the way to a stack, then those from there. -/
theorem items_of_walks (path : Path) (walks : Level.Walks heap options levels events last)
    (pulls : Nat) :
    (Walker.mk heap options levels path).items (events.length + pulls) =
      path.items events ++ (Walker.mk heap options last (path.pushAll events)).items pulls := by
  induction walks generalizing path with
  | refl => simp
  | leave _ ih => rw [items_closed, ih]
  | step stepped _ ih =>
      rw [List.length_cons, Nat.add_right_comm, items_succ_of_next _ (next?_of_ok stepped), ih]
      rfl

/-- What is seen of a walker, closed levels apart, is after some events what is seen of the walker at
the stack that they lead to. -/
theorem observe_after_of_walks {α : Type} (observe : Walker → α)
    (ignores : ∀ levels path, observe ⟨heap, options, .closed :: levels, path⟩ =
      observe ⟨heap, options, levels, path⟩)
    (path : Path) (walks : Level.Walks heap options levels events last) (pulls : Nat) :
    observe ((Walker.mk heap options levels path).after (events.length + pulls)) =
      observe ((Walker.mk heap options last (path.pushAll events)).after pulls) := by
  induction walks generalizing path with
  | refl => simp
  | @leave outer last events _ ih =>
      rw [← ih]
      cases total : events.length + pulls with
      | zero => exact ignores outer path
      | succ rest =>
          cases pulled : (Walker.mk heap options outer path).next? with
          | none =>
              rw [after_of_finished _ pulled, after_of_finished _ (next?_closed.trans pulled),
                ignores]
          | some result =>
              rw [after_succ_of_next _ pulled, after_succ_of_next _ (next?_closed.trans pulled)]
  | step stepped _ ih =>
      rw [List.length_cons, Nat.add_right_comm, after_succ_of_next _ (next?_of_ok stepped), ih]
      rfl

theorem next?_after_of_walks (path : Path) (walks : Level.Walks heap options levels events last)
    (pulls : Nat) :
    ((Walker.mk heap options levels path).after (events.length + pulls)).next? =
      ((Walker.mk heap options last (path.pushAll events)).after pulls).next? :=
  observe_after_of_walks next? (fun _ _ => next?_closed) path walks pulls

theorem items_length_of_walks (walks : Level.Walks heap options levels events last) :
    (Walker.mk heap options levels path).items events.length = path.items events := by
  simpa using items_of_walks path walks 0

theorem next?_after_length_of_walks (walks : Level.Walks heap options levels events last) :
    ((Walker.mk heap options levels path).after events.length).next? = none ↔
      Level.step? heap options last = none := by
  rw [← Nat.add_zero events.length, next?_after_of_walks path walks, after_zero, next?_eq_none_iff]

/-- A walk that has come to its end yields nothing more. -/
theorem items_of_ended {pulls : Nat} (walks : Level.Walks heap options levels events last)
    (enough : events.length ≤ pulls) (ends : Level.step? heap options last = none) :
    (Walker.mk heap options levels path).items pulls = path.items events := by
  obtain ⟨more, rfl⟩ := Nat.exists_eq_add_of_le enough
  rw [items_of_walks path walks, items_of_finished _ (next?_eq_none_iff.2 ends), List.append_nil]

theorem next?_after_of_ended {pulls : Nat} (walks : Level.Walks heap options levels events last)
    (enough : events.length ≤ pulls) (ends : Level.step? heap options last = none) :
    ((Walker.mk heap options levels path).after pulls).next? = none := by
  obtain ⟨more, rfl⟩ := Nat.exists_eq_add_of_le enough
  have finished : (Walker.mk heap options last (path.pushAll events)).next? = none :=
    next?_eq_none_iff.2 ends
  rw [next?_after_of_walks path walks, after_of_finished _ finished, finished]

/-- A walk that meets a fault yields it at the path of the last event, and nothing more. -/
theorem items_of_failed {pulls : Nat} {fault : Fault}
    (walks : Level.Walks heap options levels events last) (enough : events.length < pulls)
    (failure : Level.step? heap options last = some (.error fault)) :
    (Walker.mk heap options levels path).items pulls =
      path.items events ++ [.error ⟨path.pushAll events, fault⟩] := by
  obtain ⟨more, rfl⟩ := Nat.exists_eq_add_of_lt enough
  rw [Nat.add_assoc, items_of_walks path walks, items_succ_of_next _ (next?_of_error failure),
    items_of_finished _ (next?_eq_none_iff.2 rfl)]

theorem next?_after_of_failed {pulls : Nat} {fault : Fault}
    (walks : Level.Walks heap options levels events last) (enough : events.length < pulls)
    (failure : Level.step? heap options last = some (.error fault)) :
    ((Walker.mk heap options levels path).after pulls).next? = none := by
  obtain ⟨more, rfl⟩ := Nat.exists_eq_add_of_lt enough
  have finished : (Walker.mk heap options [] (path.pushAll events)).next? = none :=
    next?_eq_none_iff.2 rfl
  rw [Nat.add_assoc, next?_after_of_walks path walks, after_succ_of_next _ (next?_of_error failure),
    after_of_finished _ finished, finished]

/-- Some pulls reach a stack with one event each, or the walk has ended or failed before. -/
inductive Pulled (heap : Heap) (options : Options) (levels : List Level) (pulls : Nat) : Prop where
  | going (events : List Event) (last : List Level) :
      Level.Walks heap options levels events last → events.length = pulls →
      Pulled heap options levels pulls
  | ended (events : List Event) (last : List Level) :
      Level.Walks heap options levels events last → events.length < pulls →
      Level.step? heap options last = none → Pulled heap options levels pulls
  | failed (events : List Event) (last : List Level) (fault : Fault) :
      Level.Walks heap options levels events last → events.length < pulls →
      Level.step? heap options last = some (.error fault) → Pulled heap options levels pulls

theorem pulled (heap : Heap) (options : Options) (levels : List Level) (pulls : Nat) :
    Pulled heap options levels pulls := by
  induction pulls generalizing levels with
  | zero => exact .going [] levels .refl rfl
  | succ pulls ih =>
      cases stepped : Level.step? heap options levels with
      | none => exact .ended [] levels .refl (Nat.succ_pos _) stepped
      | some result =>
          rcases result with fault | ⟨event, stack⟩
          · exact .failed [] levels fault .refl (Nat.succ_pos _) stepped
          · cases ih stack with
            | going events last walks length =>
                exact .going (event :: events) last (.step stepped walks) (by simp [length])
            | ended events last walks length ends =>
                exact .ended (event :: events) last (.step stepped walks) (by simpa) ends
            | failed events last fault walks length failure =>
                exact .failed (event :: events) last fault (.step stepped walks) (by simpa) failure

/-- What a walk yields are events, and perhaps an error at the end. -/
theorem exists_events (walker : Walker) (pulls : Nat) :
    ∃ events : List Event, walker.items pulls = walker.path.items events ∨
      (walker.after pulls).next? = none ∧ ∃ fault, walker.items pulls =
        walker.path.items events ++ [.error ⟨walker.path.pushAll events, fault⟩] := by
  cases pulled walker.heap walker.options walker.stack pulls with
  | going events last walks length => exact ⟨events, .inl (length ▸ items_length_of_walks walks)⟩
  | ended events last walks length ends =>
      exact ⟨events, .inl (items_of_ended walks (Nat.le_of_lt length) ends)⟩
  | failed events last fault walks length failure =>
      exact ⟨events, .inr ⟨next?_after_of_failed walks length failure, fault,
        items_of_failed walks length failure⟩⟩

end Walker

end ConfigScript
