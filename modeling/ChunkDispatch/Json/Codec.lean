import ChunkDispatch.Instant.Rfc3339
import ChunkDispatch.Json
import ChunkDispatch.SortedSet

/-!
# Values as JSON

A type with a *codec* has a JSON form: `Codec.encode` gives the form of a value and
`Codec.decode?` the value of a form.  A *record* is an object with a member for every field;
members which are no fields are passed over, and a record is also read from the array of its
fields.  A set is the array of its members, in any order and with any repetitions when it is read.
-/

namespace ChunkDispatch

universe u

/-- A type whose values have a JSON form. -/
class Codec (α : Type u) where
  encode : α → Json
  decode? : Json → Option α
  /-- The value of a missing field, if the field may be missing. -/
  missing? : Option α := none

export Codec (encode decode?)

namespace Json

/-- The integer a value is, if it lies between `low` and `high`. -/
def integerIn? (low high : Int) : Json → Option Int
  | integer n => if low ≤ n ∧ n ≤ high then some n else none
  | _ => none

/-- The 32 bit integer a value is. -/
def int32? : Json → Option Int :=
  integerIn? (-2147483648) 2147483647

/-- The natural number of 64 bits a value is. -/
def nat64? (j : Json) : Option Nat :=
  (j.integerIn? 0 18446744073709551615).map Int.toNat

/--
The choice a value names.  The name is a string, or the only name of an object in which it
stands for null.
-/
def choice? {α : Type u} (ofTag? : String → Option α) : Json → Option α
  | string s => ofTag? s
  | object [(s, null)] => ofTag? s
  | _ => none

/--
The choice a value names inside a record which says itself of which kind it is.  There the only
name of an object may also stand for an object without members.
-/
def innerChoice? {α : Type u} (ofTag? : String → Option α) : Json → Option α
  | object [(s, object [])] => ofTag? s
  | j => j.choice? ofTag?

/-- The field of an object under a name. -/
def field? {α : Type u} [Codec α] (name : String) (j : Json) : Option α :=
  match j.member? name with
  | none => Codec.missing?
  | some v => decode? v

/-- The object with the items of an array as members, if there are as many of them as names. -/
def named (names : List String) : Json → Json
  | array items => if items.length = names.length then object (names.zip items) else array items
  | j => j

end Json

/-! ### Single values -/

instance : Codec Int32 where
  encode n := .integer n.toInt
  decode? j := j.int32?.map Int32.ofInt

/-- A natural number has 64 bits in records. -/
instance : Codec Nat where
  encode n := .integer n
  decode? := Json.nat64?

instance : Codec String where
  encode := .string
  decode?
    | .string s => some s
    | _ => none

instance : Codec Instant where
  encode t := .string t.render
  decode?
    | .string s => Instant.parse? s
    | _ => none

instance {α : Type u} [Codec α] : Codec (Option α) where
  encode
    | none => .null
    | some a => encode a
  decode?
    | .null => some none
    | j => (decode? j).map some
  missing? := some none

/-- Choices are known by their names. -/
@[reducible]
def Codec.choice {α : Type u} (tag : α → String) (ofTag? : String → Option α) : Codec α where
  encode a := .string (tag a)
  decode? := Json.choice? ofTag?

/-! ### Lists and sets -/

instance {α : Type u} [Codec α] : Codec (List α) where
  encode l := .array (l.map encode)
  decode?
    | .array items => items.mapM decode?
    | _ => none

instance {α : Type u} [Codec α] [LT α] [DecidableLT α] [LE α] [Std.IsLinearOrder α]
    [Std.LawfulOrderLT α] : Codec (SortedSet α) where
  encode s := encode s.toList
  decode? j := (decode? j : Option (List α)).map SortedSet.ofList

/-! ### Records -/

/-- Values which may be the fields of a record, one after another. -/
class Fields (α : Type) where
  /-- The members for the values, under the given names. -/
  members : List String → α → List (String × Json)
  /-- The values of the members under the given names. -/
  read? : List String → Json → Option α

instance : Fields Unit where
  members _ _ := []
  read? _ _ := some ()

instance {α β : Type} [Codec α] [Fields β] : Fields (α × β) where
  members
    | [], _ => []
    | name :: names, (a, rest) => (name, encode a) :: Fields.members names rest
  read?
    | [], _ => none
    | name :: names, j => do
      some (← j.field? name, ← Fields.read? names j)

/-- A record is made of its fields, which have names. -/
@[reducible]
def Codec.record {α β : Type} [Fields β] (names : List String) (fields : α → β)
    (make : β → α) : Codec α where
  encode a := .object (Fields.members names (fields a))
  decode? j := (Fields.read? names (j.named names)).map make

end ChunkDispatch
