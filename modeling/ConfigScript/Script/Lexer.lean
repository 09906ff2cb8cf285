import ConfigScript.Script.Numeral
import ConfigScript.Script.Quotation
import ConfigScript.Script.Token

set_option autoImplicit false

/-!
# From text to tokens

Blanks and comments separate tokens and are dropped. A character that begins no token is an error,
also outside ASCII: names are ASCII only.
-/

namespace ConfigScript.Lexer

def isNameStart (c : Char) : Bool :=
  c.isAlpha || c = '_'

def isNameRest (c : Char) : Bool :=
  c.isAlphanum || c = '_'

def afterComment? (text : List Char) : Option (List Char) :=
  let line := text.dropWhile (fun c => !Quotation.isLineEnd c)
  match text with
  | '[' :: rest =>
    match Quotation.opening? rest with
    | some (level, body) => (Quotation.longString? level body).map (·.2)
    | none => some line
  | _ => some line

def numeral? (text : List Char) : Option (Token × List Char) :=
  let (numeral, rest) := Numeral.split text
  match rest with
  | c :: _ =>
    if isNameStart c then none
    else (Numeral.value? numeral).map fun value => (.number value, rest)
  | [] => (Numeral.value? numeral).map fun value => (.number value, rest)

def stringToken (read : List UInt8 × List Char) : Token × List Char :=
  (.string ⟨read.1.toArray⟩, read.2)

def token? (text : List Char) : Option (Token × List Char) :=
  match text with
  | [] => none
  | c :: rest =>
    if isNameStart c then
      some (.ofWord (String.ofList (text.takeWhile isNameRest)), text.dropWhile isNameRest)
    else if Number.isDigit c then numeral? text
    else if c = '.' then
      match rest with
      | digit :: _ => if Number.isDigit digit then numeral? text else none
      | [] => none
    else if c = '"' ∨ c = '\'' then
      (Quotation.short? c (rest.length + 1) [] rest).map stringToken
    else if c = '[' then
      match Quotation.opening? rest with
      | some (level, body) => (Quotation.longString? level body).map stringToken
      | none => if rest.head? = some '=' then none else some (.mark c, rest)
    else if c ∈ Token.marks then some (.mark c, rest)
    else none

def tokensFrom : Nat → List Token → List Char → Option (List Token)
  | 0, _, _ => none
  | _, newestFirst, [] => some newestFirst.reverse
  | bound + 1, newestFirst, c :: rest =>
    if Quotation.isBlank c then tokensFrom bound newestFirst rest
    else
      match c, rest with
      | '-', '-' :: comment => (afterComment? comment).bind (tokensFrom bound newestFirst)
      | _, _ =>
        match token? (c :: rest) with
        | some (token, after) => tokensFrom bound (token :: newestFirst) after
        | none => none

/-- The tokens of a script. Each round takes a character, so the bound suffices. -/
def tokens? (text : String) : Option (List Token) :=
  tokensFrom (text.toList.length + 1) [] text.toList

end ConfigScript.Lexer
