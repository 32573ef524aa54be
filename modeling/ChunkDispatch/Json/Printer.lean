import ChunkDispatch.Json
import ChunkDispatch.Text.Integer

/-!
# The text of a JSON value

A value is written on one line without blanks.  In strings the quotation mark, the backslash
and the control characters are escaped, and nothing else; five of the control characters have
a letter for that.
-/

namespace ChunkDispatch.Json

open Text

/-- The hexadecimal digit of a number below 16. -/
def hexDigit (n : Nat) : Char :=
  if n < 10 then Char.ofNat ('0'.toNat + n) else Char.ofNat ('a'.toNat + (n - 10))

/-- A character as it stands in a JSON string. -/
def escaped (c : Char) : List Char :=
  if c = '"' then ['\\', '"']
  else if c = '\\' then ['\\', '\\']
  else if c = '\x08' then ['\\', 'b']
  else if c = '\t' then ['\\', 't']
  else if c = '\n' then ['\\', 'n']
  else if c = '\x0c' then ['\\', 'f']
  else if c = '\r' then ['\\', 'r']
  else if c.toNat < 0x20 then
    ['\\', 'u', '0', '0', hexDigit (c.toNat / 16), hexDigit (c.toNat % 16)]
  else [c]

/-- A JSON string. -/
def quoted (s : String) : String :=
  "\"" ++ String.ofList (s.toList.flatMap escaped) ++ "\""

mutual

/-- The text of a value. -/
def render : Json → String
  | null => "null"
  | bool true => "true"
  | bool false => "false"
  | integer n => Integer.render n
  | decimal coefficient exponent => Integer.render coefficient ++ "e" ++ Integer.render exponent
  | string s => quoted s
  | array items => "[" ++ renderItems items ++ "]"
  | object members => "\x7b" ++ renderMembers members ++ "\x7d"

/-- The texts of the items of an array, with commas between them. -/
def renderItems : List Json → String
  | [] => ""
  | [j] => render j
  | j :: j' :: rest => render j ++ "," ++ renderItems (j' :: rest)

/-- The texts of the members of an object, with commas between them. -/
def renderMembers : List (String × Json) → String
  | [] => ""
  | [(name, j)] => quoted name ++ ":" ++ render j
  | (name, j) :: m :: rest => quoted name ++ ":" ++ render j ++ "," ++ renderMembers (m :: rest)

end

end ChunkDispatch.Json
