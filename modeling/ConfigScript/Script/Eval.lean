import ConfigScript.Environment
import ConfigScript.Script.Parser
import ConfigScript.Value.Border

set_option autoImplicit false

/-!
# Running scripts

Expressions are evaluated in a state of tables and names. A new table has its place before its
fields are evaluated, so that a label lets it occur inside itself. Evaluation fails on calls of
what is no function of the configuration, on the negation of what is no number, and on keys that
no table takes.
-/

namespace ConfigScript

structure Scope where
  heap : Heap
  names : List (String × Value)
  labels : List (String × TableId)

namespace Scope

def value (scope : Scope) (name : String) : Value :=
  (scope.names.lookup name).getD .nil

def ofEnvironment (environment : Environment) : Scope :=
  ⟨environment.heap, environment.globals, []⟩

def heapInto (scope : Scope) (environment : Environment) : Environment :=
  { environment with heap := scope.heap }

end Scope

structure Construction where
  entries : List (Value × Value)
  items : List Value
  hasIntegerKey : Bool

namespace Construction

def empty : Construction :=
  ⟨[], [], false⟩

def addItem (construction : Construction) (value : Value) : Construction :=
  let items := value :: construction.items
  { construction with
    items
    entries := Table.assign construction.entries (.integer (Int64.ofNat items.length)) value }

def addKeyed? (construction : Construction) (key value : Value) : Option Construction :=
  key.asKey?.map fun key =>
    { construction with
      entries := Table.assign construction.entries key value
      hasIntegerKey := construction.hasIntegerKey || key.kind = .integer }

/-- The table. Its length is the border found from the places that were set aside. When there are
none, it is the last position in use, or the first border when integers are among the keys that were
written out. -/
def table (places : Option Nat) (construction : Construction) : Table :=
  let entries := construction.entries
  { entries
    length :=
      match places with
      | some places => Table.borderFrom entries places
      | none =>
        if construction.hasIntegerKey then Table.firstBorder entries entries.length 0
        else Table.lastPosition construction.items.reverse }

end Construction

def Value.call? (callee : Value) (argument : Value) (scope : Scope) : Option (Value × Scope) :=
  match callee with
  | .function (.tagger tag) =>
    some (.table scope.heap.next, { scope with heap := scope.heap.push (carrier tag argument) })
  | .function (.constant text) => some (.ofText text, scope)
  | _ => none

/-- The number with the opposite sign. The least integer is its own opposite. -/
def Value.negate? : Value → Option Value
  | .integer n => some (.integer (-n))
  | .float x => some (.float x.negate)
  | _ => none

namespace Expr

mutual

def eval? (scope : Scope) : Expr → Option (Value × Scope)
  | .literal value => some (value, scope)
  | .name word => some (scope.value word, scope)
  | .negate operand =>
    match operand.eval? scope with
    | some (value, scope) => value.negate?.map fun value => (value, scope)
    | none => none
  | .call callee arguments =>
    match evalAll? scope arguments with
    | some (values, scope) => (scope.value callee).call? (values.headD .nil) scope
    | none => none
  | .table own places fields =>
    let id := scope.heap.next
    let labels := (own.map fun label => (label, id)).toList ++ scope.labels
    match evalFields? { scope with heap := scope.heap.push Table.empty, labels } .empty fields with
    | some (construction, scope) =>
      some (.table id, { scope with heap := scope.heap.put id (construction.table places) })
    | none => none
  | .labelled label => (scope.labels.lookup label).map fun id => (.table id, scope)

def evalAll? (scope : Scope) : List Expr → Option (List Value × Scope)
  | [] => some ([], scope)
  | first :: rest =>
    match first.eval? scope with
    | some (value, scope) =>
      (evalAll? scope rest).map fun (values, scope) => (value :: values, scope)
    | none => none

def evalFields? (scope : Scope) (construction : Construction) :
    List (Entry Expr) → Option (Construction × Scope)
  | [] => some (construction, scope)
  | .item item :: rest =>
    match item.eval? scope with
    | some (value, scope) => evalFields? scope (construction.addItem value) rest
    | none => none
  | .keyed key item :: rest =>
    match key.eval? scope with
    | some (key, scope) =>
      match item.eval? scope with
      | some (value, scope) =>
        match construction.addKeyed? key value with
        | some construction => evalFields? scope construction rest
        | none => none
      | none => none
    | none => none

end

end Expr

namespace Chunk

def assign? (scope : Scope) : List (String × Expr) → Option Scope
  | [] => some scope
  | (name, value) :: rest =>
    match value.eval? scope with
    | some (value, scope) => assign? { scope with names := (name, value) :: scope.names } rest
    | none => none

/-- Runs a script: its first result, nil when it has none. -/
def run? (scope : Scope) (chunk : Chunk) : Option (Value × Scope) :=
  match assign? scope chunk.assignments with
  | some scope =>
    (Expr.evalAll? scope chunk.results).map fun (values, scope) => (values.headD .nil, scope)
  | none => none

end Chunk

namespace Environment

def evaluate (environment : Environment) (expr : Expr) : Except Error (Value × Environment) :=
  match expr.eval? (.ofEnvironment environment) with
  | some (value, scope) => .ok (value, scope.heapInto environment)
  | none => .error .script

def runScript (environment : Environment) (code : String) : Except Error (Value × Environment) :=
  match (Lexer.tokens? code).bind Parser.chunk? with
  | some chunk =>
    match chunk.run? (.ofEnvironment environment) with
    | some (value, scope) => .ok (value, scope.heapInto environment)
    | none => .error .script
  | none => .error .script

end Environment

end ConfigScript
