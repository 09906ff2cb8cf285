import ConfigScript.Value.Heap
import ConfigScript.VariantSet

set_option autoImplicit false

/-!
# Environments

The globals of one script, the tags among them, and the tables that exist. A tag is a global that
wraps its argument into a carrier, and it has the base that declared it as its owner. Binding a
set of variants installs all of its tags or nothing.
-/

namespace ConfigScript

/-- The state that a script starts from. Bindings are listed newest first. -/
structure Environment where
  heap : Heap
  globals : List (String × Value)
  owners : List (String × String)

namespace Environment

/-- An environment without tags, with whatever tables and globals the interpreter provides. -/
def untagged (heap : Heap) (globals : List (String × Value)) : Environment :=
  ⟨heap, globals, []⟩

def library (names : List String) : Table :=
  ⟨names.map fun name => (.ofText name, .function (.library name)), 0⟩

/-- A new environment with a few globals of the interpreter, not with all of them. -/
def initial : Environment :=
  untagged
    ⟨#[
      library ["byte", "char", "dump", "find", "format", "gmatch", "gsub", "len", "lower",
        "match", "pack", "packsize", "rep", "reverse", "sub", "unpack", "upper"],
      library ["concat", "insert", "move", "pack", "remove", "sort", "unpack"]]⟩
    [("print", .function (.library "print")),
      ("next", .function (.library "next")),
      ("string", .table 0),
      ("table", .table 1)]

def global (environment : Environment) (name : String) : Value :=
  (environment.globals.lookup name).getD .nil

def hasGlobal (environment : Environment) (name : String) : Bool :=
  environment.global name ≠ .nil

def owner? (environment : Environment) (name : String) : Option String :=
  environment.owners.lookup name

def install (environment : Environment) (name : String) (value : Value) : Environment :=
  { environment with globals := (name, value) :: environment.globals }

def foreignOwner? (environment : Environment) (base : String) (names : List String) :
    Option Error :=
  names.findSome? fun name =>
    match environment.owner? name with
    | some owner => if owner = base then none else some (.duplicateTag name owner base)
    | none => none

def bindName (base : String) (environment : Environment) (name : String) : Environment :=
  if (environment.owner? name).isSome then environment
  else
    { environment.install name (.function (.tagger name)) with
      owners := (name, base) :: environment.owners }

/-- Binds the variants of a set. Nothing changes when a name repeats or belongs to another base. -/
def bind (environment : Environment) (set : VariantSet) : Except Error Environment :=
  match set.repetition? with
  | some error => .error error
  | none =>
    match environment.foreignOwner? set.base set.names with
    | some error => .error error
    | none => .ok (set.names.foldl (bindName set.base) environment)

def bindAll (environment : Environment) (sets : List VariantSet) : Except Error Environment :=
  sets.foldlM bind environment

/-- Refuses a name that belongs to another base. -/
def refuseForeign (base name : String) : EStateM Error Environment Unit := do
  match (← get).owner? name with
  | some owner => if owner = base then return () else throw (.duplicateTag name owner base)
  | none => return ()

/-- Installs the tag of a name and then records its owner, unless the name has one. -/
def installTag (base name : String) : EStateM Error Environment Unit := do
  if ((← get).owner? name).isSome then return ()
  else
    modify fun environment => environment.install name (.function (.tagger name))
    modify fun environment => { environment with owners := (name, base) :: environment.owners }

/-- Binds the variants of a set by changing the environment name by name. What has been changed
when an error occurs stays changed. -/
def bindInPlace (set : VariantSet) : EStateM Error Environment Unit := do
  match set.repetition? with
  | some error => throw error
  | none =>
    forM set.names (refuseForeign set.base)
    forM set.names (installTag set.base)

/-- What a host does with an environment. -/
inductive Step where
  | bind (set : VariantSet)
  | install (name : String) (callable : Callable)

/-- The environment after a step, which may have failed. -/
def perform (environment : Environment) : Step → Environment
  | .bind set =>
    match (bindInPlace set).run environment with
    | .ok () after | .error _ after => after
  | .install name callable => environment.install name (.function callable)

def performAll (environment : Environment) (steps : List Step) : Environment :=
  steps.foldl perform environment

end Environment

end ConfigScript
