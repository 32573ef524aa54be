/-!
# Arguments

The *arguments* of a command are texts.  Those which start with two hyphens are *options*, each
with a value: the next argument, or what follows an equals sign.  The others are known by their
*places*.  An argument of two hyphens alone ends the options, and all after it are places; before
it, a value or a place may start with a hyphen only if it is a hyphen.
-/

namespace ChunkDispatch.CommandLine

/-- The arguments of a command: those known by their places, and the options with their values. -/
structure Arguments where
  places : List String
  options : List (String × String)
deriving DecidableEq, Repr

namespace Arguments

/-- What the option `name` is set to. -/
def option? (name : String) (a : Arguments) : Option String :=
  a.options.lookup name

/-- The arguments with one more place before the others. -/
def addPlace (place : String) (a : Arguments) : Arguments :=
  { a with places := place :: a.places }

/-- The arguments with one more option, which must not be set already. -/
def addOption? (name value : String) (a : Arguments) : Option Arguments :=
  if (a.option? name).isSome then none
  else some { a with options := (name, value) :: a.options }

/-- The name an option is given by, and its value if that is in the same argument. -/
def splitOption? (arg : String) : Option (String × Option String) :=
  match arg.toList with
  | '-' :: '-' :: cs =>
    match cs.span (· ≠ '=') with
    | (name, []) => some (String.ofList name, none)
    | (name, _ :: value) => some (String.ofList name, some (String.ofList value))
  | _ => none

/-- Whether an argument can be a value or a place. -/
def isPlain (arg : String) : Bool :=
  arg = "-" ∨ arg.toList.head? ≠ some '-'

/-- Reads arguments of a command which has the options of the given names. -/
def read? (names : List String) : List String → Option Arguments
  | [] => some ⟨[], []⟩
  | arg :: rest =>
    if arg = "--" then some ⟨rest, []⟩
    else
      match splitOption? arg with
      | none => if isPlain arg then (read? names rest).map (addPlace arg) else none
      | some (name, value) =>
        if name ∉ names then none
        else
          match value, rest with
          | some value, rest => (read? names rest).bind (addOption? name value)
          | none, [] => none
          | none, value :: rest =>
            if isPlain value then (read? names rest).bind (addOption? name value) else none

end Arguments

end ChunkDispatch.CommandLine
