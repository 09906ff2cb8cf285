import ConfigScript.Untyped
import ConfigScript.Number.Layout

set_option autoImplicit false

/-!
# JSON

Values without a schema as JSON: an object holds each key once, the last value of a key being kept,
and lists its members by key. Numbers that JSON has no form for become null.
-/

namespace ConfigScript

inductive Json where
  | null
  | bool (value : Bool)
  | integer (value : Int)
  | float (value : Number.Double)
  | string (value : String)
  | array (items : List Json)
  /-- Members in increasing order of their keys. -/
  | object (members : List (String × Json))
  deriving Inhabited

namespace Json

def insert (key : String) (value : Json) : List (String × Json) → List (String × Json)
  | [] => [(key, value)]
  | member :: rest =>
    match compare key member.1 with
    | .lt => (key, value) :: member :: rest
    | .eq => (key, value) :: rest
    | .gt => member :: insert key value rest

/-- The object of some members, the last one of a key being kept. -/
def ofMembers (members : List (String × Json)) : Json :=
  .object (members.foldl (fun sorted member => insert member.1 member.2 sorted) [])

end Json

namespace Untyped

mutual

def toJson : Untyped → Json
  | .null => .null
  | .bool b => .bool b
  | .integer n => .integer n
  | .natural n => .integer n
  | .float x => if x.isFinite then .float x else .null
  | .text s => .string s
  | .list items => .array (itemsToJson items)
  | .map entries => Json.ofMembers (entriesToJson entries)

def itemsToJson : List Untyped → List Json
  | [] => []
  | value :: rest => value.toJson :: itemsToJson rest

def entriesToJson : List (String × Untyped) → List (String × Json)
  | [] => []
  | (key, value) :: rest => (key, value.toJson) :: entriesToJson rest

end

end Untyped

namespace Json

def escape (c : Char) : List Char :=
  if c = '"' then ['\\', '"']
  else if c = '\\' then ['\\', '\\']
  else if c = '\x08' then ['\\', 'b']
  else if c = '\x09' then ['\\', 't']
  else if c = '\x0a' then ['\\', 'n']
  else if c = '\x0c' then ['\\', 'f']
  else if c = '\x0d' then ['\\', 'r']
  else if c.toNat < 0x20 then
    ['\\', 'u', '0', '0', Nat.digitChar (c.toNat / 16), Nat.digitChar (c.toNat % 16)]
  else [c]

def renderString (text : String) : String :=
  String.ofList ('"' :: (text.toList.flatMap escape ++ ['"']))

def newLine (depth : Nat) : String :=
  "\n" ++ String.ofList (List.replicate (2 * depth) ' ')

def bracketed (left right : String) (depth : Nat) (lines : List String) : String :=
  if lines.isEmpty then left ++ right
  else
    left ++ newLine (depth + 1) ++ ("," ++ newLine (depth + 1)).intercalate lines ++
      newLine depth ++ right

mutual

def render (depth : Nat) : Json → String
  | .null => "null"
  | .bool true => "true"
  | .bool false => "false"
  | .integer n => toString n
  | .float x => x.render .json
  | .string s => renderString s
  | .array items => bracketed "[" "]" depth (renderItems (depth + 1) items)
  | .object members => bracketed "\x7b" "\x7d" depth (renderMembers (depth + 1) members)

def renderItems (depth : Nat) : List Json → List String
  | [] => []
  | value :: rest => value.render depth :: renderItems depth rest

def renderMembers (depth : Nat) : List (String × Json) → List String
  | [] => []
  | (key, value) :: rest =>
    (renderString key ++ ": " ++ value.render depth) :: renderMembers depth rest

end

def pretty (value : Json) : String :=
  value.render 0

end Json

end ConfigScript
