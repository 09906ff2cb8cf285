import ConfigScript.Event.Tree

set_option autoImplicit false

/-!
# Order of map entries

A table lists its entries in no fixed order, so two presentations of one table may differ in it.
`Tree.arranged` lists the entries of every object by key, and entries of one key by what is below
it. Trees that differ only in the order of entries are arranged alike.
-/

namespace ConfigScript.Tree

def texts (tree : Tree) : List String :=
  tree.events.map Event.describe

/-- Entries by key, by code point; entries of equal keys by the texts of their values. -/
def entryLE (first second : String × Tree) : Bool :=
  match compare first.1 second.1 with
  | .lt => true
  | .gt => false
  | .eq => (compare first.2.texts second.2.texts).isLE

mutual

def arranged : Tree → Tree
  | .primitive text => .primitive text
  | .tagged name payload => .tagged name payload.arranged
  | .object entries => .object ((arrangedEntries entries).mergeSort entryLE)
  | .array items => .array (arrangedItems items)

def arrangedEntries : List (String × Tree) → List (String × Tree)
  | [] => []
  | (key, value) :: rest => (key, value.arranged) :: arrangedEntries rest

def arrangedItems : List Tree → List Tree
  | [] => []
  | value :: rest => value.arranged :: arrangedItems rest

end

end ConfigScript.Tree
