import ChunkDispatch.Json

/-!
# Reading JSON

`Json.parse?` gives the value of a JSON text.  Where an object has several members under one
name, the last of them stays.  A number is an integer if it has neither a fraction nor an
exponent, save that a negative zero is a decimal.
-/

namespace ChunkDispatch.Json

/-- The characters after the white space of JSON. -/
def dropSpace (cs : List Char) : List Char :=
  cs.dropWhile (fun c => c = ' ' || c = '\n' || c = '\r' || c = '\t')

/-- The value of a hexadecimal digit. -/
def hexValue? (c : Char) : Option Nat :=
  if c.isDigit then some (c.toNat - '0'.toNat)
  else if 'a' ≤ c ∧ c ≤ 'f' then some (c.toNat - 'a'.toNat + 10)
  else if 'A' ≤ c ∧ c ≤ 'F' then some (c.toNat - 'A'.toNat + 10)
  else none

/-- A UTF-16 unit written as four hexadecimal digits. -/
def readUnit? : List Char → Option (Nat × List Char)
  | a :: b :: c :: d :: rest => do
    let n := (← hexValue? a) * 4096 + (← hexValue? b) * 256 + (← hexValue? c) * 16
      + (← hexValue? d)
    some (n, rest)
  | _ => none

/-- The character an escape stands for, after its backslash. -/
def readEscape? : List Char → Option (Char × List Char)
  | '"' :: rest => some ('"', rest)
  | '\\' :: rest => some ('\\', rest)
  | '/' :: rest => some ('/', rest)
  | 'b' :: rest => some ('\x08', rest)
  | 'f' :: rest => some ('\x0c', rest)
  | 'n' :: rest => some ('\n', rest)
  | 'r' :: rest => some ('\r', rest)
  | 't' :: rest => some ('\t', rest)
  | 'u' :: rest => do
    let (high, rest) ← readUnit? rest
    if 0xD800 ≤ high ∧ high < 0xDC00 then
      match rest with
      | '\\' :: 'u' :: rest =>
        let (low, rest) ← readUnit? rest
        if 0xDC00 ≤ low ∧ low < 0xE000 then
          some (Char.ofNat (0x10000 + (high - 0xD800) * 0x400 + (low - 0xDC00)), rest)
        else none
      | _ => none
    else if 0xDC00 ≤ high ∧ high < 0xE000 then none
    else some (Char.ofNat high, rest)
  | _ => none

/-- A string after its first quotation mark; `read` holds the characters so far, last first. -/
def readString? : Nat → List Char → List Char → Option (String × List Char)
  | 0, _, _ => none
  | fuel + 1, read, cs =>
    match cs with
    | '"' :: rest => some (String.ofList read.reverse, rest)
    | '\\' :: rest =>
      match readEscape? rest with
      | some (c, rest) => readString? fuel (c :: read) rest
      | none => none
    | c :: rest => if c.toNat < 0x20 then none else readString? fuel (c :: read) rest
    | [] => none

/-- The digits at the start of a text, at least one. -/
def readDigits? (cs : List Char) : Option (List Char × List Char) :=
  let ds := cs.takeWhile Char.isDigit
  if ds.isEmpty then none else some (ds, cs.drop ds.length)

/-- The fraction of a number, if it has one: its digits. -/
def readFraction? : List Char → Option (Option (List Char) × List Char)
  | '.' :: cs => (readDigits? cs).map (fun (ds, rest) => (some ds, rest))
  | cs => some (none, cs)

/-- The exponent of a number, if it has one. -/
def readExponent? : List Char → Option (Option Int × List Char)
  | c :: cs =>
    if c = 'e' ∨ c = 'E' then
      let value (ds : List Char) : Int := Nat.ofDigitChars 10 ds 0
      match cs with
      | '-' :: cs => (readDigits? cs).map (fun (ds, rest) => (some (-value ds), rest))
      | '+' :: cs => (readDigits? cs).map (fun (ds, rest) => (some (value ds), rest))
      | cs => (readDigits? cs).map (fun (ds, rest) => (some (value ds), rest))
    else some (none, c :: cs)
  | [] => some (none, [])

/-- A number after its sign. -/
def readMagnitude? (negative : Bool) (cs : List Char) : Option (Json × List Char) := do
  let (whole, cs) ← readDigits? cs
  if whole.head? = some '0' ∧ 1 < whole.length then none
  let (fraction, cs) ← readFraction? cs
  let (exponent, cs) ← readExponent? cs
  let digits := whole ++ fraction.getD []
  let magnitude : Int := Nat.ofDigitChars 10 digits 0
  let coefficient := if negative then -magnitude else magnitude
  if fraction.isNone ∧ exponent.isNone ∧ ¬ (negative ∧ magnitude = 0) then
    some (integer coefficient, cs)
  else
    some (decimal coefficient (exponent.getD 0 - (fraction.getD []).length), cs)

/-- The characters after `word`, if it comes first. -/
def readWord? (word : String) (cs : List Char) : Option (List Char) :=
  if word.toList.isPrefixOf cs then some (cs.drop word.length) else none

mutual

/-- A value; `fuel` bounds the number of values and separators read. -/
def readValue? : Nat → List Char → Option (Json × List Char)
  | 0, _ => none
  | fuel + 1, cs =>
    match dropSpace cs with
    | '"' :: rest => (readString? rest.length.succ [] rest).map (fun (s, rest) => (string s, rest))
    | '[' :: rest =>
      match dropSpace rest with
      | ']' :: rest => some (array [], rest)
      | rest => readItems? fuel [] rest
    | '\x7b' :: rest =>
      match dropSpace rest with
      | '\x7d' :: rest => some (object [], rest)
      | rest => readMembers? fuel [] rest
    | '-' :: rest => readMagnitude? true rest
    | 't' :: rest => (readWord? "rue" rest).map (fun rest => (bool true, rest))
    | 'f' :: rest => (readWord? "alse" rest).map (fun rest => (bool false, rest))
    | 'n' :: rest => (readWord? "ull" rest).map (fun rest => (null, rest))
    | rest => readMagnitude? false rest

/-- The items of an array up to its end, after the items `read`, last first. -/
def readItems? : Nat → List Json → List Char → Option (Json × List Char)
  | 0, _, _ => none
  | fuel + 1, read, cs =>
    match readValue? fuel cs with
    | none => none
    | some (j, rest) =>
      match dropSpace rest with
      | ',' :: rest => readItems? fuel (j :: read) rest
      | ']' :: rest => some (array (j :: read).reverse, rest)
      | _ => none

/-- The members of an object up to its end, after the members `read`. -/
def readMembers? : Nat → List (String × Json) → List Char → Option (Json × List Char)
  | 0, _, _ => none
  | fuel + 1, read, cs =>
    match dropSpace cs with
    | '"' :: rest =>
      match readString? rest.length.succ [] rest with
      | none => none
      | some (name, rest) =>
        match dropSpace rest with
        | ':' :: rest =>
          match readValue? fuel rest with
          | none => none
          | some (j, rest) =>
            match dropSpace rest with
            | ',' :: rest => readMembers? fuel (putMember name j read) rest
            | '\x7d' :: rest => some (object (putMember name j read), rest)
            | _ => none
        | _ => none
    | _ => none

end

/-- The value of a text. -/
def parse? (s : String) : Option Json :=
  let cs := s.toList
  match readValue? (2 * cs.length + 2) cs with
  | some (j, rest) => if (dropSpace rest).isEmpty then some j else none
  | none => none

end ChunkDispatch.Json
