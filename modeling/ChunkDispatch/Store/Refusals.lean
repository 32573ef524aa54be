/-!
# Refusals

A service may refuse what it is asked for.  Which of the requests to come are refused is laid
down beforehand, by their numbers, counted from 0.
-/

namespace ChunkDispatch

/-- Which requests are refused, and how many were made. -/
structure Refusals where
  refuses : Nat → Bool
  asked : Nat

namespace Refusals

/-- No request is refused. -/
def none : Refusals :=
  ⟨fun _ => false, 0⟩

/-- All requests are refused. -/
def all : Refusals :=
  ⟨fun _ => true, 0⟩

/-- All requests after the next `n` are refused. -/
def after (n : Nat) : Refusals :=
  ⟨fun i => n ≤ i, 0⟩

/-- Whether the next request is refused. -/
def next (r : Refusals) : Bool :=
  r.refuses r.asked

/-- One request more was made. -/
def advance (r : Refusals) : Refusals :=
  { r with asked := r.asked + 1 }

end Refusals

end ChunkDispatch
