import ConfigScript.Proofs.Walker.Strictness

/-!
# Strict integers do not reach keys

A walk that refuses floats which may not hold their integer exactly refuses them as values only. A
key is written like a value, but nothing looks at how exact it is: the text of such a float is
yielded exactly where the float is a key.
-/

set_option autoImplicit false

namespace ConfigScript

open Number

namespace Level

variable {levels : List Level} {key : Value} {text : String}

/-- The key that the next step presents. -/
def key? : List Level → Option Value
  | .closed :: outer => key? outer
  | .entries ((key, _) :: _) :: _ => some key
  | _ => none

/-- A step that presents a key yields its text, whatever the options are. -/
theorem exists_step?_eq_key (heap : Heap) (options : Options) (keyed : key? levels = some key)
    (written : key.keyText = .ok text) :
    ∃ last, step? heap options levels = some (.ok (.key text, last)) := by
  induction levels with
  | nil => cases keyed
  | cons level outer ih =>
      cases level with
      | closed => exact ih keyed
      | single | entry | elements => cases keyed
      | entries rest =>
          rcases rest with _ | ⟨⟨first, value⟩, rest⟩
          · cases keyed
          · cases keyed
            refine ⟨.entry value rest :: outer, ?_⟩
            rw [step?, written]
            rfl

end Level

namespace Walker

variable {walker : Walker} {x : Double} {event : Event}

/-- The number is the key that the next pull presents, and it may not hold its integer exactly. -/
structure MeetsKey (walker : Walker) (x : Double) : Prop where
  keyed : Level.key? walker.stack = some (.float x)
  imprecise : x.isImpreciseInteger = true

/-- The next pull yields an event for a float, be it presented as a value or as a key. -/
structure Writes (walker : Walker) (x : Double) (event : Event) : Prop where
  presents : Level.presented? walker.stack = some (.float x) ∨
    Level.key? walker.stack = some (.float x)
  yields : ∃ rest, walker.next? = some (.ok (event, walker.path.push event), rest)

theorem MeetsKey.writes (meets : walker.MeetsKey x) : walker.Writes x (.key x.text) := by
  obtain ⟨last, stepped⟩ := Level.exists_step?_eq_key walker.heap walker.options meets.keyed rfl
  exact ⟨.inr meets.keyed, _, next?_of_ok stepped⟩

theorem strictly_eq_of_strict (strict : walker.options.strictIntegers = true) :
    walker.strictly = walker := by
  obtain ⟨heap, options, stack, path⟩ := walker
  obtain ⟨chunkName, maxDepth, strictIntegers⟩ := options
  cases strict
  rfl

/-- Of the floats that may not hold their integer exactly, those that are keys are written. -/
theorem writes_iff_meetsKey (strict : walker.options.strictIntegers = true)
    (imprecise : x.isImpreciseInteger = true) :
    walker.Writes x event ↔ walker.MeetsKey x ∧ event = .key x.text := by
  constructor
  · intro writes
    obtain ⟨rest, yields⟩ := writes.yields
    rcases writes.presents with presented | keyed
    · have refused := next?_strictly_of_meets ⟨presented, imprecise⟩
      rw [strictly_eq_of_strict strict, yields] at refused
      cases refused
    · have meets : walker.MeetsKey x := ⟨keyed, imprecise⟩
      obtain ⟨_, same⟩ := meets.writes.yields
      rw [yields] at same
      cases same
      exact ⟨meets, rfl⟩
  · rintro ⟨meets, rfl⟩
    exact meets.writes

/-- With strict integers, a float that may not hold its integer exactly ends the walk by an error
where it is presented as a value. Its text is yielded where it is a key, and nowhere else. -/
theorem strict_writes_keys_only (heap : Heap) (options : Options) (root : Value) (path : Path)
    (pulls : Nat) (x : Double) :
    let strict := Walker.start heap { options with strictIntegers := true } root path
    let walker := strict.after pulls
    (walker.Meets x →
      strict.items (pulls + 1) = strict.items pulls ++ [.error ⟨walker.path, .imprecise x⟩] ∧
        ∀ more, pulls < more → strict.items more = strict.items (pulls + 1) ∧
          (strict.after more).next? = none) ∧
    ∀ event, x.isImpreciseInteger = true ∧ walker.Writes x event ↔
      walker.MeetsKey x ∧ event = .key x.text := by
  intro strict walker
  have isStrict : walker.options.strictIntegers = true :=
    congrArg Options.strictIntegers (heap_after strict pulls).2
  refine ⟨fun meets => ?_, fun event => ⟨fun written => ?_, fun keyed => ?_⟩⟩
  · have refuses := next?_strictly_of_meets meets
    rw [strictly_eq_of_strict isStrict] at refuses
    have ended : (strict.after (pulls + 1)).next? = none := by
      rw [after_add, after_succ_of_next 0 refuses]
      exact next?_eq_none_iff.2 rfl
    refine ⟨?_, fun more later => ?_⟩
    · rw [items_add, items_succ_of_next 0 refuses, items_zero]
    · obtain ⟨further, rfl⟩ := Nat.exists_eq_add_of_le (Nat.succ_le_of_lt later)
      exact ⟨items_of_after_finished further ended, next?_after_of_le later ended⟩
  · exact (writes_iff_meetsKey isStrict written.1).1 written.2
  · exact ⟨keyed.1.imprecise, (writes_iff_meetsKey isStrict keyed.1.imprecise).2 keyed⟩

/-- The float of 10 ^ 20, and a table with one entry under it. -/
def largeFloat : Double :=
  ⟨0x4415AF1D78B58C40⟩

def underLargeFloat : Heap :=
  ⟨#[⟨Table.assign [] (.float largeFloat) (.integer 1), 0⟩]⟩

/-- A table keeps this float as a key, and strict integers let its text through. -/
theorem strict_writes_large_key :
    let strict := Walker.start underLargeFloat { strictIntegers := true } (.table 0) (.root "")
    largeFloat.isImpreciseInteger = true ∧
      (Value.float largeFloat).asKey? = some (.float largeFloat) ∧
      (strict.after 1).Writes largeFloat (.key "100000000000000000000") ∧
      strict.items 5 = (Path.root "").items
        [.objectOpen, .key "100000000000000000000", .primitive "1", .objectClose] ∧
      (strict.after 4).next? = none := by
  have keyed : ((Walker.start underLargeFloat { strictIntegers := true } (.table 0)
      (.root "")).after 1).MeetsKey largeFloat := ⟨by decide +kernel, by decide +kernel⟩
  have written : largeFloat.text = "100000000000000000000" := by decide +kernel
  refine ⟨keyed.imprecise, by decide +kernel, written ▸ keyed.writes, by decide +kernel, ?_⟩
  exact Option.isNone_iff_eq_none.1 (by decide +kernel)

end Walker

end ConfigScript
