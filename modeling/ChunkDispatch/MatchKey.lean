import ChunkDispatch.SortedSet
import ChunkDispatch.Text.Units

/-!
# Match keys

A *match key* is a text which identifies a record touched by a chunk; two chunks which share a
match key touch the same record.  Chunks are compared by the *hashes* of their match keys, the
values of a polynomial over the UTF-16 units of the key in 32 bit arithmetic.
-/

namespace ChunkDispatch.MatchKey

open Text

/-- The hash of a match key: the units are the digits of a number in base 31, kept to 32 bits. -/
def hash (key : String) : Int32 :=
  (units key).foldl (fun h u => h * 31 + Int32.ofNat u) 0

/-- The hashes of a set of match keys, ascending and without repetition. -/
def hashes (keys : SortedSet String) : List Int32 :=
  (SortedSet.ofList (keys.toList.map hash)).toList

theorem mem_hashes {keys : SortedSet String} {h : Int32} :
  h ∈ hashes keys ↔ ∃ key ∈ keys, hash key = h
  := by
  rw [hashes, ← SortedSet.mem_iff, SortedSet.mem_ofList, List.mem_map]
  rfl

theorem pairwise_hashes (keys : SortedSet String) :
  (hashes keys).Pairwise (· < ·)
  := SortedSet.ascending _

/--
Whether `h` is on an ascending list: the list is halved, and the half which may hold `h` is
searched on, until one hash is left.
-/
def isOn (h : Int32) : Nat → List Int32 → Bool
  | 0, ℓ => ℓ.head? = some h
  | fuel + 1, ℓ =>
    let half := ℓ.length / 2
    match ℓ.drop half with
    | [] => false
    | middle :: upper =>
      if half = 0 then middle = h
      else if h < middle then isOn h fuel (ℓ.take half)
      else isOn h fuel (middle :: upper)

/-- Binary search for `h` in an ascending list of hashes. -/
def search (h : Int32) (ℓ : List Int32) : Bool :=
  isOn h ℓ.length ℓ

end ChunkDispatch.MatchKey
