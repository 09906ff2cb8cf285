import ConfigScript.Text.CharacterClass

set_option autoImplicit false

/-!
# Quoted text

Text between double quotes, each character written on its own: the quote and the backslash after a
backslash, common controls by a letter, other characters without a visible form by their code
point, and all else as it is.
-/

namespace ConfigScript.Text

def hexDigits (n : Nat) : List Char :=
  Nat.toDigits 16 n

def escape (c : Char) : List Char :=
  if c = '"' then ['\\', '"']
  else if c = '\\' then ['\\', '\\']
  else if c = '\n' then ['\\', 'n']
  else if c = '\r' then ['\\', 'r']
  else if c = '\t' then ['\\', 't']
  else if c = '\x00' then ['\\', '0']
  else if isHidden c || isExtending c then
    ['\\', 'u', '\x7b'] ++ hexDigits c.toNat ++ ['\x7d']
  else [c]

def quoted (text : String) : String :=
  String.ofList ('"' :: (text.toList.flatMap escape ++ ['"']))

end ConfigScript.Text
