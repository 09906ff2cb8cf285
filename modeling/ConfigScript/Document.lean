import ConfigScript.Decode
import ConfigScript.Error
import ConfigScript.Walker

set_option autoImplicit false

/-!
# Documents

A document is the value of one script with the tables that it lives in. It is read by walking it.
Only a part of the walk is needed when the value does not fit the schema, and a carrier that
contains itself makes a walk without an end. So a document is read from the first items of its
walk, and from twice as many as long as they do not settle the result.
-/

namespace ConfigScript

structure Document where
  heap : Heap
  root : Value
  source : String
  options : Options

inductive Interruption where
  | invalid (error : Invalid)
  /-- The items that follow were not asked for. -/
  | more

/-- The first items of a walk, with a mark at the end when there are more. -/
def Walker.upTo (pulls : Nat) (walker : Walker) : List (Item Interruption) :=
  (walker.items pulls).map (Except.mapError .invalid) ++
    if (walker.after pulls).isFinished then [] else [.error .more]

namespace Document

def walker (document : Document) : Walker :=
  .start document.heap document.options document.root (.root document.source)

def settle? : Except (DecodeError Interruption) Datum → Option (Except Error Datum)
  | .ok value => some (.ok value)
  | .error (.stream .more) => none
  | .error (.stream (.invalid invalid)) => some (.error (.invalidStream invalid.path invalid.fault))
  | .error (.mismatch path cause) => some (.error (.deserialize path cause))

def readWithin? (document : Document) (schema : Schema) (pulls : Nat) :
    Option (Except Error Datum) :=
  settle? (decode schema (document.walker.upTo pulls))

def readDoubling? (document : Document) (schema : Schema) : Nat → Nat → Option (Except Error Datum)
  | 0, _ => none
  | rounds + 1, pulls =>
    match document.readWithin? schema pulls with
    | some result => some result
    | none => readDoubling? document schema rounds (2 * pulls)

/-- How often the number of items is doubled before the walk counts as endless. A walk that ends
presents no container more often than there are ways to reach it. -/
def rounds (document : Document) : Nat :=
  (document.options.maxDepth + 2) * (2 * document.heap.size.log2 + 8)

def firstPulls : Nat := 1024

/-- The document as a value of a schema; `none` when only an endless walk could tell. -/
def read? (document : Document) (schema : Schema) : Option (Except Error Datum) :=
  document.readDoubling? schema document.rounds firstPulls

end Document

end ConfigScript
