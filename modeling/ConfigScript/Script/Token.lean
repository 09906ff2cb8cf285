import ConfigScript.Script.Expr

set_option autoImplicit false

/-!
# Tokens

The words and marks of a script. Words that the language reserves are no names.
-/

namespace ConfigScript

inductive Token where
  | name (name : String)
  | keyword (word : String)
  | number (value : Value)
  | string (bytes : ByteArray)
  | mark (c : Char)
  deriving DecidableEq

namespace Token

def reserved : List String :=
  ["and", "break", "do", "else", "elseif", "end", "false", "for", "function", "goto", "if", "in",
    "local", "nil", "not", "or", "repeat", "return", "then", "true", "until", "while"]

def ofWord (word : String) : Token :=
  if word ∈ reserved then .keyword word else .name word

def marks : List Char :=
  ['=', '\x7b', '\x7d', '[', ']', '(', ')', ',', ';', '-']

end Token

end ConfigScript
