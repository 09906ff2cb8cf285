import ConfigScript.Number.Digits

set_option autoImplicit false

/-!
# Quoted strings

The strings of a script. Between quotes a backslash begins an escape and a line must not end;
between long brackets everything stands for itself. What a string denotes is a list of bytes.
-/

namespace ConfigScript.Quotation

def isLineEnd (c : Char) : Bool :=
  c = '\n' || c = '\r'

def isBlank (c : Char) : Bool :=
  c = ' ' || ('\x09' ≤ c && c ≤ '\x0d')

def afterLineEnd : List Char → List Char
  | '\n' :: '\r' :: rest => rest
  | '\r' :: '\n' :: rest => rest
  | _ :: rest => rest
  | [] => []

/-- The bytes of a code point, also of those that are no characters: a first byte that tells the
number of bytes, then six bits in each byte. -/
def codePointBytes (code : Nat) : List UInt8 :=
  let continuation (shift : Nat) : UInt8 := UInt8.ofNat (0x80 + (code >>> shift) % 0x40)
  let leading (mark shift : Nat) : UInt8 := UInt8.ofNat (mark + (code >>> shift))
  if code < 0x80 then [UInt8.ofNat code]
  else if code < 0x800 then [leading 0xC0 6, continuation 0]
  else if code < 0x10000 then [leading 0xE0 12, continuation 6, continuation 0]
  else if code < 0x200000 then
    [leading 0xF0 18, continuation 12, continuation 6, continuation 0]
  else if code < 0x4000000 then
    [leading 0xF8 24, continuation 18, continuation 12, continuation 6, continuation 0]
  else
    [leading 0xFC 30, continuation 24, continuation 18, continuation 12, continuation 6,
      continuation 0]

def letterByte? : Char → Option UInt8
  | 'a' => some 7
  | 'b' => some 8
  | 't' => some 9
  | 'n' => some 10
  | 'v' => some 11
  | 'f' => some 12
  | 'r' => some 13
  | '\\' => some 92
  | '"' => some 34
  | '\'' => some 39
  | _ => none

def escape? : List Char → Option (List UInt8 × List Char)
  | [] => none
  | c :: rest =>
    match letterByte? c with
    | some byte => some ([byte], rest)
    | none =>
      if isLineEnd c then some ([10], afterLineEnd (c :: rest))
      else if c = 'z' then some ([], rest.dropWhile isBlank)
      else if c = 'x' then
        match rest with
        | high :: low :: tail =>
          match Number.hexValue? high, Number.hexValue? low with
          | some h, some l => some ([UInt8.ofNat (16 * h + l)], tail)
          | _, _ => none
        | _ => none
      else if c = 'u' then
        match rest with
        | '\x7b' :: tail =>
          let digits := tail.takeWhile Number.isHexDigit
          let code := Number.ofHexDigits digits
          match tail.dropWhile Number.isHexDigit with
          | '\x7d' :: after =>
            if digits ≠ [] ∧ code < 0x80000000 then some (codePointBytes code, after) else none
          | _ => none
        | _ => none
      else if Number.isDigit c then
        let digits := ((c :: rest).take 3).takeWhile Number.isDigit
        let byte := Number.ofDigits digits
        if byte < 256 then some ([UInt8.ofNat byte], (c :: rest).drop digits.length) else none
      else none

def short? (quote : Char) : Nat → List UInt8 → List Char → Option (List UInt8 × List Char)
  | 0, _, _ => none
  | _, _, [] => none
  | bound + 1, newestFirst, c :: rest =>
    if c = quote then some (newestFirst.reverse, rest)
    else if isLineEnd c then none
    else if c = '\\' then
      match escape? rest with
      | some (bytes, after) => short? quote bound (bytes.reverse ++ newestFirst) after
      | none => none
    else short? quote bound ((String.utf8EncodeChar c).reverse ++ newestFirst) rest

/-- The number of `=` in an opening long bracket and the text after the bracket, if the text after
a first `[` makes one. -/
def opening? (text : List Char) : Option (Nat × List Char) :=
  match text.dropWhile (· = '=') with
  | '[' :: rest => some ((text.takeWhile (· = '=')).length, rest)
  | _ => none

def closing? (level : Nat) (text : List Char) : Option (List Char) :=
  match text.dropWhile (· = '=') with
  | ']' :: rest => if (text.takeWhile (· = '=')).length = level then some rest else none
  | _ => none

/-- Reads up to the closing long bracket. Every line end stands for one byte. -/
def long? (level : Nat) : Nat → List UInt8 → List Char → Option (List UInt8 × List Char)
  | 0, _, _ => none
  | _, _, [] => none
  | bound + 1, newestFirst, c :: rest =>
    match (if c = ']' then closing? level rest else none) with
    | some after => some (newestFirst.reverse, after)
    | none =>
      if isLineEnd c then long? level bound (10 :: newestFirst) (afterLineEnd (c :: rest))
      else long? level bound ((String.utf8EncodeChar c).reverse ++ newestFirst) rest

def longString? (level : Nat) (text : List Char) : Option (List UInt8 × List Char) :=
  let body :=
    match text with
    | c :: _ => if isLineEnd c then afterLineEnd text else text
    | [] => text
  long? level (text.length + 1) [] body

end ConfigScript.Quotation
