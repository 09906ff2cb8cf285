import ConfigScript.Value.Heap

set_option autoImplicit false

/-!
# Borders

A border of a table is a position that has a value while the next one has none, or 0 when position
1 has none. A table with holes has several borders. Which of them is its length depends on how many
places were set aside for its positions when it was made: the search begins at the last of these
and goes down by halving or up by doubling.
-/

namespace ConfigScript.Table

def isOccupied (entries : List (Value × Value)) (position : Nat) : Bool :=
  (entries.lookup (.integer (Int64.ofNat position))).isSome

/-- The first border, counted no further than the bound. -/
def firstBorder (entries : List (Value × Value)) : Nat → Nat → Nat
  | 0, count => count
  | bound + 1, count =>
    if isOccupied entries (count + 1) then firstBorder entries bound (count + 1) else count

def borderBetween (entries : List (Value × Value)) (occupied free : Nat) : Nat :=
  if occupied + 1 < free then
    let middle := (occupied + free) / 2
    if isOccupied entries middle then borderBetween entries middle free
    else borderBetween entries occupied middle
  else occupied
termination_by free - occupied
decreasing_by all_goals omega

/-- The border that doubling an occupied position finds. The positions on the way differ and are all
occupied, so a bound by the number of entries suffices. -/
def borderAbove (entries : List (Value × Value)) : Nat → Nat → Nat
  | 0, occupied => occupied
  | bound + 1, occupied =>
    if isOccupied entries (2 * occupied) then borderAbove entries bound (2 * occupied)
    else borderBetween entries occupied (2 * occupied)

def borderFrom (entries : List (Value × Value)) (places : Nat) : Nat :=
  if places = 0 ∨ isOccupied entries places then
    if isOccupied entries (places + 1) then
      borderAbove entries (entries.length + 1) (max places 1)
    else places
  else if 2 ≤ places ∧ isOccupied entries (places - 1) then places - 1
  else borderBetween entries 0 places

def lastPosition (items : List Value) : Nat :=
  (items.reverse.dropWhile (· = .nil)).length

end ConfigScript.Table
