import ConfigScript.Proofs.Decode.Agreement
import ConfigScript.Proofs.Document.Settled
import ConfigScript.Proofs.Walker.Balance

/-!
# The tree that a document presents

A document is read as a value exactly when its walk comes to an end without a fault and the schema
makes that value of the tree that the walk presents. The paths of the walk make no difference.
-/

set_option autoImplicit false

namespace ConfigScript

namespace Document

variable {document : Document} {schema : Schema} {tree : Tree} {datum : Datum} {pulls : Nat}

/-- Whether the walk of a document presents a tree and comes to its end. -/
def Presents (document : Document) (tree : Tree) : Prop :=
  ∃ last, Level.Walks document.heap document.options [.single document.root] tree.events last ∧
    Level.step? document.heap document.options last = none

theorem Presents.finished (presents : document.Presents tree) :
    (document.walker.after tree.events.length).next? = none := by
  obtain ⟨last, walks, ends⟩ := presents
  exact Walker.next?_after_of_ended walks (Nat.le_refl _) ends

theorem Presents.items_eq (presents : document.Presents tree) :
    document.walker.items tree.events.length = (Path.root document.source).items tree.events := by
  obtain ⟨last, walks, ends⟩ := presents
  exact Walker.items_of_ended walks (Nat.le_refl _) ends

/-- A walk that has ended with the events of a tree presents it. -/
theorem presents_of_items (finished : (document.walker.after pulls).next? = none)
    (shape : document.walker.items pulls = (Path.root document.source).items tree.events) :
    document.Presents tree := by
  have same : ∀ events, document.walker.items pulls = (Path.root document.source).items events →
      events = tree.events := by
    intro events other
    rw [← Item.events_items (.root document.source) events (ε := Invalid), ← other, shape,
      Item.events_items]
  cases Walker.pulled document.heap document.options [.single document.root] pulls with
  | going events last walks length =>
      subst length
      obtain rfl := same events (Walker.items_length_of_walks walks)
      exact ⟨last, walks, (Walker.next?_after_length_of_walks walks).1 finished⟩
  | ended events last walks length ends =>
      obtain rfl := same events (Walker.items_of_ended walks (Nat.le_of_lt length) ends)
      exact ⟨last, walks, ends⟩
  | failed events last fault walks length failure =>
      have failed : document.walker.items pulls = _ := Walker.items_of_failed walks length failure
      have met : .error ⟨(Path.root document.source).pushAll events, fault⟩ ∈
          ((Path.root document.source).items tree.events : List (Item Invalid)) := by
        rw [← shape, failed]
        exact List.mem_append_right _ List.mem_cons_self
      exact absurd met (Path.error_not_mem_items _ _ _)

theorem exists_of_readDoubling? {rounds first : Nat} {result : Except Error Datum}
    (read : document.readDoubling? schema rounds first = some result) :
    ∃ pulls, document.readWithin? schema pulls = some result := by
  induction rounds generalizing first with
  | zero => cases read
  | succ rounds ih =>
      rw [readDoubling?] at read
      cases settled : document.readWithin? schema first with
      | some other =>
          rw [settled] at read
          cases read
          exact ⟨first, settled⟩
      | none =>
          rw [settled] at read
          exact ih read

/-- Nothing is accepted before the walk has come to its end. -/
theorem finished_of_readWithin? (read : document.readWithin? schema pulls = some (.ok datum)) :
    (document.walker.after pulls).next? = none := by
  obtain ⟨events, shape | ⟨finished, _⟩⟩ := document.walker.exists_events pulls
  · by_contra going
    have start : document.walker.upTo pulls =
        (document.walker.path.along events).map .ok ++ [.error .more] := by
      simp only [Walker.upTo, Walker.isFinished, Option.isNone_iff_eq_none, going, if_false, shape,
        mapError_items]
    rw [readWithin?, start] at read
    cases verdict Interruption schema (document.walker.path.along events) with
    | refuted event path cause _ refuted =>
        rw [refuted] at read
        cases read
    | undecided _ met =>
        rw [met] at read
        cases read
  · exact finished

theorem settle?_eq_ok_iff {result : Except (DecodeError Interruption) Datum} :
    settle? result = some (.ok datum) ↔ result = .ok datum := by
  unfold settle?
  split <;> simp

/-- A document is what the schema makes of the tree that it presents. -/
theorem read?_eq_ok_iff : document.read? schema = some (.ok datum) ↔
    ∃ tree, document.Presents tree ∧ schema.interpret tree = .ok datum := by
  constructor
  · intro read
    obtain ⟨pulls, within⟩ := exists_of_readDoubling? read
    have finished := finished_of_readWithin? within
    cases Walker.finished finished with
    | whole events shape whole =>
        obtain ⟨tree, rfl⟩ := whole
        refine ⟨tree, presents_of_items finished shape, ?_⟩
        rw [read?_of_events schema finished shape] at read
        exact decode_eq_ok_iff.1 (settle?_eq_ok_iff.1 read)
    | failed events rest fault shape whole missing =>
        rcases read?_of_failed schema finished shape with met | ⟨event, path, cause, _, _, failed⟩
        · cases met.symm.trans read
        · cases failed.symm.trans read
  · rintro ⟨tree, presents, meant⟩
    rw [read?_of_events schema presents.finished presents.items_eq, decode_eq_ok_iff.2 meant]
    rfl

end Document

end ConfigScript
