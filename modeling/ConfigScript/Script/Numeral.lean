import ConfigScript.Number.Integer
import ConfigScript.Number.Literal
import ConfigScript.Value.Basic

set_option autoImplicit false

/-!
# Numerals

The numbers of a script. A numeral extends as far as its characters could belong to one, and is then
an error unless all of it is a number. Hexadecimal integers wrap around at 64 bits and decimal ones
that do not fit become floats.
-/

namespace ConfigScript.Numeral

/-- Divides a text where a numeral that begins it must end. A sign belongs to it only behind an
exponent mark. -/
def scan (exponentMarks : List Char) : List Char → List Char × List Char
  | [] => ([], [])
  | c :: rest =>
    if c ∈ exponentMarks then
      match rest with
      | sign :: tail =>
        if sign = '+' ∨ sign = '-' then
          let (numeral, after) := scan exponentMarks tail
          (c :: sign :: numeral, after)
        else
          let (numeral, after) := scan exponentMarks (sign :: tail)
          (c :: numeral, after)
      | [] => ([c], [])
    else if Number.isHexDigit c ∨ c = '.' then
      let (numeral, after) := scan exponentMarks rest
      (c :: numeral, after)
    else ([], c :: rest)

def split (text : List Char) : List Char × List Char :=
  match text with
  | '0' :: x :: rest =>
    if x = 'x' ∨ x = 'X' then
      let (numeral, after) := scan ['p', 'P'] rest
      ('0' :: x :: numeral, after)
    else scan ['e', 'E'] text
  | _ => scan ['e', 'E'] text

def hexadecimal? (digits : List Char) : Option Value :=
  if digits ≠ [] ∧ digits.all Number.isHexDigit then
    some (.integer (Int64.ofNat (Number.ofHexDigits digits)))
  else none

def decimal? (numeral : List Char) : Option Value :=
  match Number.IntegerKind.i64.read? (String.ofList numeral) with
  | some n => some (.integer (Int64.ofInt n))
  | none =>
    (Number.Literal.read? numeral).map fun literal =>
      .float ⟨UInt64.ofNat (literal.nearest .binary64)⟩

def value? (numeral : List Char) : Option Value :=
  match numeral with
  | '0' :: x :: digits =>
    if x = 'x' ∨ x = 'X' then hexadecimal? digits else decimal? numeral
  | _ => decimal? numeral

end ConfigScript.Numeral
