/-!
# Instants

An *instant* is a point of time: whole seconds since the start of 1970 in universal time, and
nanoseconds beyond.  During a leap second the nanoseconds count on past the full second, so they
stay below two thousand millions.  Instants are ordered by second, then by nanosecond.
-/

namespace ChunkDispatch

/-- A point of time. -/
structure Instant where
  second : Int
  nano : Fin 2000000000
deriving DecidableEq, Repr, Inhabited

namespace Instant

instance : LT Instant where
  lt a b := a.second < b.second ∨ a.second = b.second ∧ a.nano < b.nano

instance : DecidableLT Instant :=
  fun a b =>
    inferInstanceAs (Decidable (a.second < b.second ∨ a.second = b.second ∧ a.nano < b.nano))

/-- The instant `n` microseconds after the start of 1970. -/
def ofMicros (n : Int) : Instant :=
  ⟨n / 1000000, ⟨(n % 1000000).toNat * 1000, by omega⟩⟩

/-- The microseconds from the start of 1970 to an instant, rounded down. -/
def micros (t : Instant) : Int :=
  t.second * 1000000 + t.nano.val / 1000

/-- The instant without the part of it below a microsecond. -/
def wholeMicros (t : Instant) : Instant :=
  ⟨t.second, ⟨t.nano.val / 1000 * 1000, by omega⟩⟩

/--
The nanoseconds from `t` to `t'`.  An instant within a leap second has this second still to come; it
is counted if the other instant is later in its day.
-/
def nanosUntil (t t' : Instant) : Int :=
  let leap : Int :=
    if t.second % 86400 < t'.second % 86400 ∧ 1000000000 ≤ t.nano.val then 1
    else if t'.second % 86400 < t.second % 86400 ∧ 1000000000 ≤ t'.nano.val then -1
    else 0
  (t'.second - t.second + leap) * 1000000000 + (t'.nano.val - t.nano.val : Int)

/-- The instant `n` seconds before `t`. -/
def before (t : Instant) (n : Int) : Instant :=
  ⟨t.second - n, t.nano⟩

end Instant

end ChunkDispatch
