import ConfigScript.Script.Lexer

set_option autoImplicit false

/-!
# From tokens to a script

A script is either a list of expressions or a list of assignments with a `return` at the end. The
grammar is

    chunk  ::= [explist] [';'] | {stat} ['return' [explist] [';']]
    stat   ::= ['local'] Name '=' exp | ';'
    explist::= exp {',' exp}
    exp    ::= nil | true | false | number | string | table | Name | call | '-' exp
    call   ::= Name ( '(' [explist] ')' | table | string )
    table  ::= '{' [field {(','|';') field} [','|';']] '}'
    field  ::= exp | Name '=' exp | '[' exp ']' '=' exp

where the first form is tried first. Expressions are nested up to a limit. In a table, values
without a key are assigned after all others, so they win over an equal key that is written out.
-/

namespace ConfigScript.Parser

def after? (token : Token) : List Token → Option (List Token)
  | first :: rest => if first = token then some rest else none
  | [] => none

def rightBrace : Token := .mark '\x7d'

def isSeparator (token : Token) : Bool :=
  token = .mark ',' || token = .mark ';'

def isKeyed {σ : Type} : Entry σ → Bool
  | .keyed _ _ => true
  | .item _ => false

/-- The table with some fields, given newest first. It has a place for each value without a key. -/
def tableOf (newestFirst : List (Entry Expr)) : Expr :=
  let fields := newestFirst.reverse
  let items := fields.filter fun field => !isKeyed field
  .table none (some items.length) (fields.filter isKeyed ++ items)

mutual

def exp? : Nat → Nat → List Token → Option (Expr × List Token)
  | 0, _, _ => none
  | _, 0, _ => none
  | bound + 1, depth + 1, tokens =>
    match tokens with
    | .keyword word :: rest =>
      if word = "nil" then some (.literal .nil, rest)
      else if word = "true" then some (.literal (.boolean true), rest)
      else if word = "false" then some (.literal (.boolean false), rest)
      else none
    | .number value :: rest => some (.literal value, rest)
    | .string bytes :: rest => some (.literal (.string bytes), rest)
    | .mark '-' :: rest =>
      match exp? bound depth rest with
      | some (operand, after) => some (.negate operand, after)
      | none => none
    | .mark '\x7b' :: rest => fields? bound depth [] rest
    | .name name :: .mark '(' :: rest =>
      match after? (.mark ')') rest with
      | some after => some (.call name [], after)
      | none =>
        match explist? bound depth [] rest with
        | some (arguments, after) =>
          (after? (.mark ')') after).map fun after => (.call name arguments, after)
        | none => none
    | .name name :: .mark '\x7b' :: rest =>
      match fields? bound depth [] rest with
      | some (argument, after) => some (.call name [argument], after)
      | none => none
    | .name name :: .string bytes :: rest =>
      some (.call name [.literal (.string bytes)], rest)
    | .name name :: rest => some (.name name, rest)
    | _ => none

def explist? : Nat → Nat → List Expr → List Token → Option (List Expr × List Token)
  | 0, _, _, _ => none
  | bound + 1, depth, newestFirst, tokens =>
    match exp? bound depth tokens with
    | some (first, .mark ',' :: rest) => explist? bound depth (first :: newestFirst) rest
    | some (last, rest) => some ((last :: newestFirst).reverse, rest)
    | none => none

def fields? : Nat → Nat → List (Entry Expr) → List Token → Option (Expr × List Token)
  | 0, _, _, _ => none
  | bound + 1, depth, newestFirst, tokens =>
    match tokens with
    | .mark '\x7d' :: rest => some (tableOf newestFirst, rest)
    | _ =>
      match field? bound depth tokens with
      | some (field, token :: rest) =>
        if isSeparator token then fields? bound depth (field :: newestFirst) rest
        else if token = rightBrace then some (tableOf (field :: newestFirst), rest)
        else none
      | _ => none

def field? : Nat → Nat → List Token → Option (Entry Expr × List Token)
  | 0, _, _ => none
  | bound + 1, depth, tokens =>
    match tokens with
    | .name name :: .mark '=' :: rest =>
      match exp? bound depth rest with
      | some (value, after) => some (.keyed (.literal (.ofText name)) value, after)
      | none => none
    | .mark '[' :: rest =>
      match exp? bound depth rest with
      | some (key, .mark ']' :: .mark '=' :: rest) =>
        match exp? bound depth rest with
        | some (value, after) => some (.keyed key value, after)
        | none => none
      | _ => none
    | _ =>
      match exp? bound depth tokens with
      | some (value, after) => some (.item value, after)
      | none => none

end

def deepest : Nat := 198

def results? (bound : Nat) (tokens : List Token) : Option (List Expr) :=
  if tokens = [] ∨ tokens = [.mark ';'] then some []
  else
    match explist? bound deepest [] tokens with
    | some (results, rest) =>
      if rest = [] ∨ rest = [.mark ';'] then some results else none
    | none => none

def statements? : Nat → List (String × Expr) → List Token → Option Chunk
  | 0, _, _ => none
  | bound + 1, newestFirst, tokens =>
    let assignment (name : String) (rest : List Token) : Option Chunk :=
      match exp? (bound + 1) deepest rest with
      | some (value, after) => statements? bound ((name, value) :: newestFirst) after
      | none => none
    match tokens with
    | [] => some ⟨newestFirst.reverse, []⟩
    | .mark ';' :: rest => statements? bound newestFirst rest
    | .name name :: .mark '=' :: rest => assignment name rest
    | .keyword word :: rest =>
      if word = "return" then
        (results? (bound + 1) rest).map fun results => ⟨newestFirst.reverse, results⟩
      else if word = "local" then
        match rest with
        | .name name :: .mark '=' :: rest => assignment name rest
        | _ => none
      else none
    | _ => none

/-- The script that tokens spell. Each step down takes a token or is one of at most three steps
between two tokens. -/
def chunk? (tokens : List Token) : Option Chunk :=
  let bound := 4 * (tokens.length + 1)
  match results? bound tokens with
  | some results => some ⟨[], results⟩
  | none => statements? bound [] tokens

end ConfigScript.Parser
