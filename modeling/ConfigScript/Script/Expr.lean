import ConfigScript.Value.Heap

set_option autoImplicit false

/-!
# Script expressions

What a configuration script says, once its text has been read. A table may have a label, by which
expressions inside it and after it can name that very table.
-/

namespace ConfigScript

inductive Entry (σ : Type) where
  | item (value : σ)
  | keyed (key : σ) (value : σ)

inductive Expr where
  | literal (value : Value)
  | name (name : String)
  | negate (operand : Expr)
  | call (name : String) (arguments : List Expr)
  /-- A new table. Its fields are assigned in order. Places for positions may be set aside for it,
  also for those whose value turns out to be nil. -/
  | table (label : Option String) (places : Option Nat) (fields : List (Entry Expr))
  | labelled (label : String)

structure Chunk where
  assignments : List (String × Expr)
  results : List Expr

end ConfigScript
