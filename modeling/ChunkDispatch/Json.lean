/-!
# JSON values

A *JSON value* is what a JSON text stands for.  A number written with digits alone is an
integer; one with a fraction or an exponent is a decimal, a coefficient times a power of ten,
even where its value is whole.  The members of an object stand in the order in which they were
written, under distinct names.
-/

namespace ChunkDispatch

/-- A JSON value. -/
inductive Json where
  | null
  | bool (b : Bool)
  | integer (n : Int)
  | decimal (coefficient exponent : Int)
  | string (s : String)
  | array (items : List Json)
  | object (members : List (String × Json))
deriving Repr, Inhabited

namespace Json

/-- The member of an object under a name. -/
def member? (name : String) : Json → Option Json
  | object members => members.lookup name
  | _ => none

/-- The value is null. -/
def isNull : Json → Bool
  | null => true
  | _ => false

/-- Adds a member to a list of members; one which was there under its name is dropped. -/
def putMember (name : String) (j : Json) (members : List (String × Json)) :
    List (String × Json) :=
  members.filter (fun m => m.1 ≠ name) ++ [(name, j)]

end Json

end ChunkDispatch
