import ConfigScript.Document
import ConfigScript.Script.Eval
import ConfigScript.Source

set_option autoImplicit false

/-!
# Loading configurations

A loader knows the variants whose tags every script finds. Each load starts from an environment of
its own, so that nothing passes from one script to another. What a loader accepts can be bound:
names that repeat and names of two bases are refused when a set is registered.
-/

namespace ConfigScript

abbrev Evaluator := Source → Environment → Except Error (Value × Environment)

def Evaluator.script : Evaluator := fun source environment =>
  match source.code with
  | .ok code => environment.runScript code
  | .error error => .error error

def Evaluator.fixed (expr : Expr) : Evaluator := fun _ environment => environment.evaluate expr

structure Loader where
  sets : List VariantSet
  options : Options

namespace Loader

def initial : Loader :=
  ⟨[], {}⟩

/-- Adds a set of variants. A set that is known already is not added again. -/
def register (loader : Loader) (set : VariantSet) : Except Error Loader :=
  match set.repetition? with
  | some error => .error error
  | none =>
    match loader.sets.findSome? fun known => known.conflict? set with
    | some error => .error error
    | none =>
      if set ∈ loader.sets then .ok loader
      else .ok { loader with sets := loader.sets ++ [set] }

def registerSchema (loader : Loader) (schema : Schema) : Except Error Loader :=
  match VariantSet.ofSchema schema with
  | .ok set => loader.register set
  | .error error => .error error

def inline (loader : Loader) (code : String) : Source :=
  .text loader.options.chunkName code

/-- Adds a set of variants, or leaves the loader as it was when the set is refused. -/
def attempt (loader : Loader) (set : VariantSet) : Loader :=
  match loader.register set with
  | .ok next => next
  | .error _ => loader

/-- Binds what the loader knows in an environment and evaluates the script there. -/
def loadFrom (loader : Loader) (start : Environment) (evaluator : Evaluator) (source : Source) :
    Except Error Document :=
  if source.isMissing then .error (.fileNotFound source.label)
  else
    match start.bindAll loader.sets with
    | .error error => .error error
    | .ok environment =>
      match evaluator source environment with
      | .error error => .error error
      | .ok (root, environment) =>
        .ok ⟨environment.heap, root, source.label, loader.options⟩

/-- Loads a script into a new environment. -/
def load (loader : Loader) : Evaluator → Source → Except Error Document :=
  loader.loadFrom .initial

end Loader

end ConfigScript
