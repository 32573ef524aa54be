import ChunkDispatch.Json.Codec
import ChunkDispatch.Lexicographic
import ChunkDispatch.Text.Blank
import ChunkDispatch.Text.Integer

/-!
# Keys

A *chunk* is a part of a job.  Its *key* is the number of the job and the number of the chunk
within the job.  Keys are ordered by job, then by chunk, so every chunk of a later job comes
after every chunk of an earlier one; the *latest* of several chunks is the one with the
greatest key.  The text of a key is the two numbers with a slash between them.
-/

namespace ChunkDispatch

open Text

/-- The identity of a chunk. -/
structure Key where
  job : Int32
  chunk : Int32
deriving DecidableEq, Repr, Inhabited

namespace Key

/-! ### Order -/

instance : LE Key where
  le := LexLE job chunk

instance : LT Key where
  lt := LexLT job chunk

instance : DecidableLE Key :=
  fun a b => inferInstanceAs (Decidable (LexLE job chunk a b))

instance : DecidableLT Key :=
  fun a b => inferInstanceAs (Decidable (LexLT job chunk a b))

theorem eq_of_job_of_chunk {a b : Key} (hjob : a.job = b.job) (hchunk : a.chunk = b.chunk) :
  a = b
  := by
  cases a
  cases b
  cases hjob
  cases hchunk
  rfl

instance : Std.IsLinearOrder Key :=
  isLinearOrder_of_lexLE Iff.rfl eq_of_job_of_chunk

instance : Std.LawfulOrderLT Key :=
  lawfulOrderLT_of_lexLT Iff.rfl Iff.rfl

/-! ### Text -/

/-- The text of a key: `job/chunk`. -/
def render (k : Key) : String :=
  Integer.render k.job.toInt ++ "/" ++ Integer.render k.chunk.toInt

/-- What is wrong with a text that is no key. -/
inductive Fault where
  | noSlash
  | badJob
  | badChunk
deriving DecidableEq, Repr

/-- The wording of a fault found in the text `s`. -/
def Fault.message (s : String) : Fault → String
  | .noSlash => s!"invalid tracking key '{s}', expected job/chunk"
  | .badJob => s!"invalid job id in tracking key '{s}'"
  | .badChunk => s!"invalid chunk id in tracking key '{s}'"

/--
The key a text stands for: before and after its first slash a 32 bit integer, each of which may
have blanks around it.
-/
def parse (s : String) : Except Fault Key :=
  let (job, rest) := s.toList.span (· ≠ '/')
  match rest with
  | [] => .error .noSlash
  | _ :: chunk =>
    match Integer.readInt32 (trim job) with
    | .error _ => .error .badJob
    | .ok j =>
      match Integer.readInt32 (trim chunk) with
      | .error _ => .error .badChunk
      | .ok c => .ok ⟨j, c⟩

instance : Codec Key :=
  .record ["jobId", "chunkId"] (fun k => (k.job, k.chunk, ()))
    (fun (job, chunk, ()) => ⟨job, chunk⟩)

end Key

end ChunkDispatch
