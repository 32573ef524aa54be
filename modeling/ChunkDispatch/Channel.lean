import ChunkDispatch.Json.Codec
import ChunkDispatch.Lexicographic

/-!
# Lanes and channels

A *lane* is one sink and one submitter.  A *channel* is the hash of a match key within a lane;
chunks are kept in order only along the channels they share.  Lanes are ordered by sink, then by
submitter, and channels by lane, then by hash.
-/

namespace ChunkDispatch

/-- A sink and a submitter. -/
structure Lane where
  sink : Int32
  submitter : Int32
deriving DecidableEq, Repr

namespace Lane

instance : LE Lane where
  le := LexLE sink submitter

instance : LT Lane where
  lt := LexLT sink submitter

instance : DecidableLT Lane :=
  fun a b => inferInstanceAs (Decidable (LexLT sink submitter a b))

theorem eq_of_sink_of_submitter {a b : Lane}
    (hsink : a.sink = b.sink) (hsubmitter : a.submitter = b.submitter) :
  a = b
  := by
  cases a
  cases b
  cases hsink
  cases hsubmitter
  rfl

instance : Std.IsLinearOrder Lane :=
  isLinearOrder_of_lexLE Iff.rfl eq_of_sink_of_submitter

instance : Std.LawfulOrderLT Lane :=
  lawfulOrderLT_of_lexLT Iff.rfl Iff.rfl

end Lane

/-- A match key hash within a lane. -/
structure Channel where
  lane : Lane
  hash : Int32
deriving DecidableEq, Repr

namespace Channel

instance : LE Channel where
  le := LexLE lane hash

instance : LT Channel where
  lt := LexLT lane hash

instance : DecidableLT Channel :=
  fun c d => inferInstanceAs (Decidable (LexLT lane hash c d))

theorem eq_of_lane_of_hash {c d : Channel} (hlane : c.lane = d.lane) (hhash : c.hash = d.hash) :
  c = d
  := by
  cases c
  cases d
  cases hlane
  cases hhash
  rfl

instance : Std.IsLinearOrder Channel :=
  isLinearOrder_of_lexLE Iff.rfl eq_of_lane_of_hash

instance : Std.LawfulOrderLT Channel :=
  lawfulOrderLT_of_lexLT Iff.rfl Iff.rfl

instance : Codec Channel :=
  .record ["sinkId", "submitter", "hash"] (fun c => (c.lane.sink, c.lane.submitter, c.hash, ()))
    (fun (sink, submitter, hash, ()) => ⟨⟨sink, submitter⟩, hash⟩)

end Channel

end ChunkDispatch
