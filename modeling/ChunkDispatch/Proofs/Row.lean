import ChunkDispatch.Proofs.Attempt
import ChunkDispatch.Proofs.Grid
import ChunkDispatch.Proofs.Records
import ChunkDispatch.Store.Row

/-!
# Trackers and their rows

The columns of a row which hold sets are JSON forms, and a status is read back from its code; so a
tracker is read back from its row, if its hashes are those of its match keys, from which they are
made anew.  A tracker which a table can hold exactly is *storable*: the instant of its last change
is kept to the microsecond, as the column for it is.
-/

namespace ChunkDispatch

namespace Tracker

/-- What is read back of a tracker. -/
def readBack (t : Tracker) : Tracker :=
  { t with hashes := MatchKey.hashes t.matchKeys, lastModified := t.lastModified.wholeMicros }

/-- The tracker as a table holds it exactly. -/
structure Storable (t : Tracker) : Prop where
  hashes : t.hashes = MatchKey.hashes t.matchKeys
  lastModified : t.lastModified = t.lastModified.wholeMicros

theorem Storable.readBack {t : Tracker} (ht : t.Storable) :
  t.readBack = t
  := by
  rw [Tracker.readBack, ← ht.hashes, ← ht.lastModified]

end Tracker

namespace Row

/-- A set is read back from its column. -/
theorem readSet_encode {α : Type} [LT α] [DecidableLT α] [LE α] [Std.IsLinearOrder α]
    [Std.LawfulOrderLT α] [Codec α] [LawfulCodec α] [TotalCodec α] (s : SortedSet α) :
  readSet (encode s) = .ok s
  := by
  have harray : (encode s).isNull = false := rfl
  rw [readSet, harray, decode?_encode (TotalCodec.expressible s)]
  rfl

theorem readStatus_code (s : Status) :
  readStatus s.code = .ok s
  := by
  rw [readStatus, Status.ofCode?_code]

/-- The hashes of a tracker which is read from a row are those of its match keys. -/
theorem hashes_of_tracker {r : Row} {t : Tracker} (h : r.tracker = .ok t) :
  t.hashes = MatchKey.hashes t.matchKeys
  := by
  simp only [tracker, Attempt.except_bind_ok_iff] at h
  obtain ⟨status, -, waitingOn, -, keys, -, ⟨⟩⟩ := h
  rfl

/-- Every tracker which was written is read. -/
theorem tracker_ofTracker (t : Tracker) :
  (ofTracker t).tracker = .ok t.readBack
  := by
  rw [tracker]
  simp only [ofTracker, readStatus_code, readSet_encode]
  rfl

/-- A storable tracker is read back from its row. -/
theorem tracker_of_storable {t : Tracker} (ht : t.Storable) :
  (ofTracker t).tracker = .ok t
  := by
  rw [tracker_ofTracker, ht.readBack]

end Row

end ChunkDispatch
