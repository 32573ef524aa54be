/-!
# Integers in decimal digits

An integer is written as digits 0 to 9, at least one, after an optional sign.  A number read
into a range may fail in four ways (`Integer.Fault`); the fault found first from the left is
the one reported, so digits which leave the range win over a wrong character after them.
-/

namespace ChunkDispatch.Text.Integer

/-- Why a text is no integer of a range. -/
inductive Fault where
  | empty
  | notDigit
  | tooLarge
  | tooSmall
deriving DecidableEq, Repr

/-- The wording of a fault. -/
def Fault.message : Fault → String
  | .empty => "cannot parse integer from empty string"
  | .notDigit => "invalid digit found in string"
  | .tooLarge => "number too large to fit in target type"
  | .tooSmall => "number too small to fit in target type"

/-- The value of a decimal digit. -/
def digit? (c : Char) : Option Nat :=
  if c.isDigit then some (c.toNat - '0'.toNat) else none

/-- Reads digits on top of the value `n` so far, up to `limit`; `fault` is a value beyond it. -/
def readDigits (limit : Nat) (fault : Fault) : Nat → List Char → Except Fault Nat
  | n, [] => .ok n
  | n, c :: cs =>
    match digit? c with
    | none => .error .notDigit
    | some d =>
      if 10 * n + d ≤ limit then readDigits limit fault (10 * n + d) cs
      else .error fault

/-- Reads a natural number up to `limit`: digits after an optional plus sign. -/
def readNat (limit : Nat) : List Char → Except Fault Nat
  | [] => .error .empty
  | ['+'] => .error .notDigit
  | '+' :: cs => readDigits limit .tooLarge 0 cs
  | cs => readDigits limit .tooLarge 0 cs

/-- Reads an integer from `-below` to `above`: digits after an optional sign. -/
def readInt (below above : Nat) : List Char → Except Fault Int
  | [] => .error .empty
  | ['+'] => .error .notDigit
  | ['-'] => .error .notDigit
  | '-' :: cs => (readDigits below .tooSmall 0 cs).map (fun n => -(n : Int))
  | '+' :: cs => (readDigits above .tooLarge 0 cs).map (fun n => (n : Int))
  | cs => (readDigits above .tooLarge 0 cs).map (fun n => (n : Int))

/-- Reads a 32 bit integer. -/
def readInt32 (cs : List Char) : Except Fault Int32 :=
  (readInt 2147483648 2147483647 cs).map Int32.ofInt

/-- Reads a natural number of 64 bits. -/
def readNat64 (cs : List Char) : Except Fault Nat :=
  readNat 18446744073709551615 cs

/-- The digits of an integer, after a minus sign if it is negative. -/
def render (n : Int) : String :=
  match n with
  | .ofNat m => m.repr
  | .negSucc m => "-" ++ (m + 1).repr

/-- The digits of a natural number, after as many zeros as make `width` characters. -/
def padded (width n : Nat) : String :=
  String.ofList (List.replicate (width - n.repr.length) '0') ++ n.repr

end ChunkDispatch.Text.Integer
