import ConfigScript.Value.Basic

set_option autoImplicit false

/-!
# Tables and the heap

A table lists its entries in the order in which they are enumerated, each key once and no value
nil: in the order in which the keys were first assigned, except that `false` precedes `true`. Its
length is a border that is recorded with it, since a table with holes has several.
-/

namespace ConfigScript

structure Table where
  entries : List (Value × Value)
  length : Nat
  deriving DecidableEq, Inhabited

namespace Table

def empty : Table :=
  ⟨[], 0⟩

def get (table : Table) (key : Value) : Value :=
  (table.entries.lookup key).getD .nil

def erase (key : Value) (entries : List (Value × Value)) : List (Value × Value) :=
  entries.filter fun entry => entry.1 ≠ key

/--
The entries with the value of a key replaced where it stands. A new key goes to the end, but
`false` goes before `true`, as the order of enumeration has these two ascending.
-/
def insert (key value : Value) : List (Value × Value) → List (Value × Value)
  | [] => [(key, value)]
  | entry :: rest =>
    if entry.1 = key then (key, value) :: rest
    else if key = .boolean false ∧ entry.1 = .boolean true then (key, value) :: entry :: rest
    else entry :: insert key value rest

/-- The entries after an assignment: assigning nil removes the key. -/
def assign (entries : List (Value × Value)) (key value : Value) : List (Value × Value) :=
  if value = .nil then erase key entries else insert key value entries

def elements (table : Table) : List Value :=
  (List.range table.length).map fun i => table.get (.integer (Int64.ofNat (i + 1)))

def size (table : Table) : Nat :=
  table.entries.length + table.length + 1

end Table

structure Heap where
  tables : Array Table
  deriving Inhabited

namespace Heap

def empty : Heap :=
  ⟨#[]⟩

/-- The table at a place; a place that was never given out holds an empty table. -/
def table (heap : Heap) (id : TableId) : Table :=
  heap.tables[id]?.getD Table.empty

def next (heap : Heap) : TableId :=
  heap.tables.size

def push (heap : Heap) (table : Table) : Heap :=
  ⟨heap.tables.push table⟩

def put (heap : Heap) (id : TableId) (table : Table) : Heap :=
  ⟨heap.tables.setIfInBounds id table⟩

/-- How many parts the tables have, themselves included. -/
def size (heap : Heap) : Nat :=
  heap.tables.toList.foldr (fun table total => table.size + total) 1

end Heap

def typeKey : Value := .ofText "_type"

def payloadKey : Value := .ofText "_value"

def carrier (tag : String) (payload : Value) : Table :=
  ⟨Table.assign [(typeKey, .ofText tag)] payloadKey payload, 0⟩

end ConfigScript
