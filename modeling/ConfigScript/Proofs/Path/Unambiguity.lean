import ConfigScript.Proofs.Number.Decimal
import ConfigScript.Proofs.Path.Location
import ConfigScript.Proofs.Text.Quoted

/-!
# Locations are unambiguous

The text of a step tells where the step ends: a bare key at the first character that no identifier
holds, all others at their closing bracket. So two addresses never have one text, as long as no tag
name holds the bracket that closes a tag. The location of an event leaves out at most the tags at
the end of its address.
-/

set_option autoImplicit false

namespace ConfigScript

namespace Step

/-- Whether a tag ends at its first closing bracket. Keys and positions are plain, whatever they
hold. -/
def isPlain : Step → Bool
  | .tag name => !name.toList.contains '>'
  | .key _ | .index _ => true

/-- A text that begins with a step, in one of the four forms of steps, and goes on with a rest. -/
inductive Spelled (rest : List Char) : Step → List Char → Prop where
  | bare {text : String} (identifier : isIdentifier text = true) :
      Spelled rest (.key text) ('.' :: (text.toList ++ rest))
  | quoted {text : String} :
      Spelled rest (.key text) ('[' :: ((Text.quoted text).toList ++ ']' :: rest))
  | index {position : Nat} :
      Spelled rest (.index position) ('[' :: (Nat.toDigits 10 position ++ ']' :: rest))
  | tag {name : String} : Spelled rest (.tag name) ('<' :: (name.toList ++ '>' :: rest))

theorem spelled_render (step : Step) (rest : List Char) :
    Spelled rest step (step.render.toList ++ rest) := by
  cases step with
  | key text =>
      rw [render]
      split
      · next identifier =>
          rw [String.toList_append]
          exact .bare identifier
      · rw [String.toList_append, String.toList_append, List.append_assoc]
        exact .quoted
  | index position =>
      have digits : (toString position).toList = Nat.toDigits 10 position := by
        rw [Nat.toString_eq_ofList_toDigits, String.toList_ofList]
      rw [render, String.toList_append, String.toList_append, List.append_assoc, digits]
      exact .index
  | tag name =>
      rw [render, String.toList_append, String.toList_append, List.append_assoc]
      exact .tag

theorem isIdentifierRest_of_isIdentifier {text : String} (identifier : isIdentifier text = true) :
    ∀ c ∈ text.toList, isIdentifierRest c = true := by
  unfold isIdentifier at identifier
  cases shape : text.toList with
  | nil => nofun
  | cons first others =>
      rw [shape] at identifier
      simp only [isIdentifierStart, Bool.and_eq_true, Bool.or_eq_true, List.all_eq_true]
        at identifier
      refine List.forall_mem_cons.2 ⟨?_, identifier.2⟩
      rcases identifier.1 with letter | underscore
      · simp [isIdentifierRest, Char.isAlphanum, letter]
      · simp [isIdentifierRest, underscore]

/-- The text of a quoted key is not the text of a position. -/
theorem quoted_append_ne_toDigits_append (text : String) (position : Nat)
    (rest behind : List Char) :
    (Text.quoted text).toList ++ rest ≠ Nat.toDigits 10 position ++ behind := by
  intro same
  cases shape : Nat.toDigits 10 position with
  | nil => exact Nat.toDigits_ne_nil shape
  | cons first others =>
      rw [shape, Text.quoted, String.toList_ofList] at same
      have digit := Number.isDigit_of_toDigits_eq_cons shape
      rw [← (List.cons.inj same).1] at digit
      cases digit

/-- One step and one rest are all that a text can be split into. -/
theorem Spelled.inj {first second : Step} {rest behind text other : List Char}
    (spelled : Spelled rest first text) (otherSpelled : Spelled behind second other)
    (plain : first.isPlain = true) (otherPlain : second.isPlain = true)
    (ends : rest.takeWhile isIdentifierRest = [])
    (otherEnds : behind.takeWhile isIdentifierRest = []) (same : text = other) :
    first = second ∧ rest = behind := by
  cases spelled with
  | bare identifier =>
      cases otherSpelled with
      | bare otherIdentifier =>
          -- A bare key has no closing bracket: it ends only where no identifier can go on.
          obtain ⟨texts, rests⟩ := Text.append_inj_of_takeWhile
            (isIdentifierRest_of_isIdentifier identifier)
            (isIdentifierRest_of_isIdentifier otherIdentifier) ends otherEnds (List.cons.inj same).2
          exact ⟨congrArg Step.key (String.toList_injective texts), rests⟩
      | quoted | index | tag => cases (List.cons.inj same).1
  | quoted =>
      cases otherSpelled with
      | quoted =>
          obtain ⟨rfl, rests⟩ := Text.quoted_append_inj (List.cons.inj same).2
          exact ⟨rfl, (List.cons.inj rests).2⟩
      | index => exact absurd (List.cons.inj same).2 (quoted_append_ne_toDigits_append _ _ _ _)
      | bare | tag => cases (List.cons.inj same).1
  | index =>
      cases otherSpelled with
      | index =>
          obtain ⟨rfl, rests⟩ := Text.toDigits_append_inj (by decide) Number.ofDigits_toDigits
            (fun _ => Nat.digitChar_ne ']' rfl) (List.cons.inj same).2
          exact ⟨rfl, rests⟩
      | quoted =>
          exact absurd (List.cons.inj same).2.symm (quoted_append_ne_toDigits_append _ _ _ _)
      | bare | tag => cases (List.cons.inj same).1
  | tag =>
      cases otherSpelled with
      | tag =>
          simp only [isPlain, Bool.not_eq_true', List.contains_eq_mem, decide_eq_false_iff_not]
            at plain otherPlain
          obtain ⟨names, rests⟩ := Text.append_cons_inj_of_not_mem plain otherPlain
            (List.cons.inj same).2
          exact ⟨congrArg Step.tag (String.toList_injective names), rests⟩
      | bare | quoted | index => cases (List.cons.inj same).1

theorem Spelled.ne_nil {step : Step} {rest text : List Char} (spelled : Spelled rest step text) :
    text ≠ [] := by
  cases spelled <;> exact List.cons_ne_nil _ _

/-- No step continues a bare key. -/
theorem Spelled.takeWhile_eq_nil {step : Step} {rest text : List Char}
    (spelled : Spelled rest step text) : text.takeWhile isIdentifierRest = [] := by
  cases spelled <;> rfl

end Step

namespace Address

/-- The text of an address behind its root. -/
def spelling (address : Address) : List Char :=
  address.flatMap fun step => step.render.toList

theorem toList_render (address : Address) : address.render.toList = '$' :: address.spelling := by
  rw [render, String.toList_append, String.toList_join, List.flatMap_map]
  rfl

theorem spelled_spelling (step : Step) (address : Address) :
    Step.Spelled address.spelling step (spelling (step :: address)) :=
  step.spelled_render address.spelling

theorem takeWhile_spelling (address : Address) :
    address.spelling.takeWhile Step.isIdentifierRest = [] := by
  cases address with
  | nil => rfl
  | cons step address => exact (spelled_spelling step address).takeWhile_eq_nil

theorem spelling_inj {first second : Address} (plain : first.all Step.isPlain = true)
    (otherPlain : second.all Step.isPlain = true) (same : first.spelling = second.spelling) :
    first = second := by
  induction first generalizing second with
  | nil =>
      cases second with
      | nil => rfl
      | cons other others => exact absurd same.symm (spelled_spelling other others).ne_nil
  | cons step steps ih =>
      cases second with
      | nil => exact absurd same (spelled_spelling step steps).ne_nil
      | cons other others =>
          rw [List.all_cons, Bool.and_eq_true] at plain otherPlain
          obtain ⟨rfl, rests⟩ := (spelled_spelling step steps).inj (spelled_spelling other others)
            plain.1 otherPlain.1 (takeWhile_spelling steps) (takeWhile_spelling others) same
          exact congrArg (step :: ·) (ih plain.2 otherPlain.2 rests)

/-- An address is determined by its text. -/
theorem render_inj {first second : Address} (plain : first.all Step.isPlain = true)
    (otherPlain : second.all Step.isPlain = true) :
    first.render = second.render ↔ first = second := by
  refine ⟨fun same => ?_, congrArg render⟩
  have spellings := congrArg String.toList same
  rw [toList_render, toList_render] at spellings
  exact spelling_inj plain otherPlain (List.cons.inj spellings).2

/-- A tag name that holds the closing bracket can imitate two tags. -/
example : render [.tag "a><b"] = render [.tag "a", .tag "b"] := by decide

end Address

/-- The position that an event is about. A key is about the entry that it begins, all other events
are about the value that they belong to. -/
def Event.position (address : Address) : Event → Address
  | .key text => address ++ [.key text]
  | .objectOpen | .objectClose | .arrayOpen | .arrayClose | .primitive _ | .typeTag _ => address

/-- An event leads to its position, but for tags at the end. -/
theorem Event.rdropWhile_place (event : Event) (address : Address) :
    (event.place address).rdropWhile Step.isTag =
      (event.position address).rdropWhile Step.isTag := by
  cases event with
  | objectOpen | arrayOpen | key => rfl
  | typeTag name => exact List.rdropWhile_concat_pos _ _ _ rfl
  | primitive | objectClose | arrayClose => exact List.rdropWhile_idempotent _ _

namespace Path

/-- A path that has met the events of a tree up to an event of the value at an address. -/
def IsAt (path : Path) (tree : Tree) (event : Event) (address : Address) : Prop :=
  ∃ before after, tree.addressed [] = before ++ (event, address) :: after ∧
    path.events = before.map (·.1) ++ [event]

variable {path : Path} {tree : Tree} {event : Event} {address : Address}

theorem IsAt.location_eq (isAt : path.IsAt tree event address) :
    path.location = (event.place address).render := by
  obtain ⟨before, after, split, events⟩ := isAt
  have atPart : Frame.AtPart (Frame.beginValue []) := trivial
  have traced : Frame.trace [] tree.events = (tree.addressed []).map Frame.placed :=
    Frame.trace_events tree atPart
  have all : tree.events = before.map (·.1) ++ event :: after.map (·.1) := by
    have same := congrArg (List.map (·.1)) traced
    rw [Frame.map_trace, List.map_map, split, List.map_append] at same
    exact same
  rw [all, split, List.map_append, Frame.trace_eq_append] at traced
  -- Both lists are cut after as many events, so what stands there is the same.
  have length : (Frame.trace [] (before.map (·.1))).length = (before.map Frame.placed).length := by
    rw [← List.length_map (·.1), Frame.map_trace, List.length_map, List.length_map]
  have here := (List.cons.inj (List.append_inj_right traced length)).1
  rw [location, locate, Frame.after, events]
  exact congrArg Address.render (Prod.mk.inj here).2

/-- Different addresses have different texts, and events at positions that differ by more than tags
at the end have different locations, unless a tag name holds the closing bracket. -/
theorem locations_unambiguous :
    (∀ first second : Address, first.all Step.isPlain = true → second.all Step.isPlain = true →
        first ≠ second → first.render ≠ second.render) ∧
      ∀ (path other : Path) (tree otherTree : Tree) (event otherEvent : Event)
          (address otherAddress : Address),
        path.IsAt tree event address → other.IsAt otherTree otherEvent otherAddress →
        (event.place address).all Step.isPlain = true →
        (otherEvent.place otherAddress).all Step.isPlain = true →
        (event.position address).rdropWhile Step.isTag ≠
          (otherEvent.position otherAddress).rdropWhile Step.isTag →
        path.location ≠ other.location := by
  constructor
  · intro first second plain otherPlain differ same
    exact differ ((Address.render_inj plain otherPlain).1 same)
  · intro path other tree otherTree event otherEvent address otherAddress isAt otherIsAt plain
      otherPlain differ same
    rw [isAt.location_eq, otherIsAt.location_eq, Address.render_inj plain otherPlain] at same
    apply differ
    rw [← event.rdropWhile_place, ← otherEvent.rdropWhile_place, same]

/-- The first element under a key, and a key that is spelled like it. -/
theorem locations_of_key_like_element :
    let tree : Tree := .object [("a", .array [.tagged "fixed" (.primitive "1")]),
      ("a[1]", .primitive "2")]
    let path := (root "text").pushAll [.objectOpen, .key "a", .arrayOpen, .typeTag "fixed"]
    let other := (root "text").pushAll [.objectOpen, .key "a", .arrayOpen, .typeTag "fixed",
      .primitive "1", .arrayClose, .key "a[1]", .primitive "2"]
    let address : Address := [.key "a", .index 1]
    let otherAddress : Address := [.key "a[1]"]
    (path.IsAt tree (.typeTag "fixed") address ∧ other.IsAt tree (.primitive "2") otherAddress ∧
        address.rdropWhile Step.isTag ≠ otherAddress.rdropWhile Step.isTag) ∧
      address.render ≠ otherAddress.render ∧ path.location ≠ other.location := by
  intro tree path other address otherAddress
  have isAt : path.IsAt tree (.typeTag "fixed") address :=
    ⟨(tree.addressed []).take 3, (tree.addressed []).drop 4, rfl, rfl⟩
  have otherIsAt : other.IsAt tree (.primitive "2") otherAddress :=
    ⟨(tree.addressed []).take 7, (tree.addressed []).drop 8, rfl, rfl⟩
  have differ : address.rdropWhile Step.isTag ≠ otherAddress.rdropWhile Step.isTag := by decide
  refine ⟨⟨isAt, otherIsAt, differ⟩, ?_, ?_⟩
  · exact locations_unambiguous.1 address otherAddress (by decide) (by decide) (by decide)
  · exact locations_unambiguous.2 _ _ _ _ _ _ _ _ isAt otherIsAt (by decide) (by decide) differ

end Path

end ConfigScript
