import ConfigScript.Text.Quoted

set_option autoImplicit false

/-!
# Addresses

An address leads from the root of a value to one of its parts. Its text begins with `$`. Keys that
read as identifiers are written bare after a point and all other keys are quoted inside brackets,
so that no key can be mistaken for a position.
-/

namespace ConfigScript

inductive Step where
  | key (text : String)
  | index (position : Nat)
  | tag (name : String)
  deriving DecidableEq, Repr

abbrev Address := List Step

namespace Step

def isIdentifierStart (c : Char) : Bool :=
  c.isAlpha || c = '_'

def isIdentifierRest (c : Char) : Bool :=
  c.isAlphanum || c = '_'

/-- Whether a key is an identifier: ASCII letters, digits and underscores, not beginning with a
digit. The empty key is none. -/
def isIdentifier (text : String) : Bool :=
  match text.toList with
  | [] => false
  | c :: rest => isIdentifierStart c && rest.all isIdentifierRest

def render : Step → String
  | .key text => if isIdentifier text then "." ++ text else "[" ++ Text.quoted text ++ "]"
  | .index position => "[" ++ toString position ++ "]"
  | .tag name => "<" ++ name ++ ">"

end Step

def Address.render (address : Address) : String :=
  "$" ++ String.join (address.map Step.render)

end ConfigScript
