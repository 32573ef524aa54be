import ChunkDispatch.Key
import ChunkDispatch.Proofs.Numeral
import Mathlib.Data.List.TakeDrop

/-!
# The text of a key

The *fields* of a text are what stands before its first slash and what stands after it.  A field
*holds* a number if it denotes it once the blanks around it are taken off.  So the texts which are
read as a key are those whose fields hold its numbers, all others have one first fault, and what is
written for a key is read as that key.
-/

namespace ChunkDispatch.Key

open Text Integer

/-- The fields of a text: what stands before its first slash, and what after it. -/
def HasFields (s : String) (job chunk : List Char) : Prop :=
  s.toList = job ++ '/' :: chunk ∧ '/' ∉ job

/-- The field denotes the number, with nothing but blanks around it. -/
def Holds (field : List Char) (n : Int32) : Prop :=
  ∃ core, IsPadded core field ∧ Denotes core n.toInt

/-! ### Fields -/

theorem HasFields.span {s : String} {job chunk : List Char} (h : HasFields s job chunk) :
  s.toList.span (· ≠ '/') = (job, '/' :: chunk)
  := by
  have hjob : ∀ c ∈ job, decide (c ≠ '/') = true := by
    intro c hc
    apply decide_eq_true
    rintro rfl
    exact h.2 hc
  rw [List.span_eq_takeWhile_dropWhile, h.1, List.takeWhile_append_of_pos hjob,
    List.dropWhile_append_of_pos hjob]
  simp

/-- A text with a slash has fields. -/
theorem exists_hasFields {s : String} (h : '/' ∈ s.toList) :
  ∃ job chunk, HasFields s job chunk
  := by
  obtain ⟨job, chunk, hs, hjob⟩ := List.eq_append_cons_of_mem h
  exact ⟨job, chunk, hs, hjob⟩

/-- A field holds the number which is read from it. -/
theorem holds_iff {field : List Char} {n : Int32} :
  Holds field n ↔ readInt32 (trim field) = .ok n
  := by
  rw [readInt32_ok_iff]
  constructor
  · rintro ⟨core, hpadded, hcore⟩
    rwa [(trim_eq_iff_isPadded (fun _ hc => hcore.isBlank hc)).mpr hpadded]
  · intro h
    exact ⟨trim field, isPadded_trim field, h⟩

/-- What is written for a number holds it. -/
theorem holds_render (n : Int32) :
  Holds (Integer.render n.toInt).toList n
  := by
  refine ⟨_, ⟨[], [], ?_, ?_, ?_⟩, denotes_render n.toInt⟩
  · rw [List.nil_append, List.append_nil]
  · exact fun _ h => absurd h List.not_mem_nil
  · exact fun _ h => absurd h List.not_mem_nil

/-- The fields of what is written for a key are the texts of its numbers. -/
theorem hasFields_render (k : Key) :
  HasFields k.render (Integer.render k.job.toInt).toList (Integer.render k.chunk.toInt).toList
  := by
  constructor
  · rw [render, String.toList_append, String.toList_append, List.append_assoc]
    rfl
  · intro hslash
    rcases (denotes_render k.job.toInt).mem hslash with h | h | h
    · cases h
    · cases h
    · cases h

/-! ### Reading -/

/-- A text with fields is read as the numbers they hold; the first field which holds none is the
fault. -/
theorem HasFields.parse_cases {s : String} {job chunk : List Char} (h : HasFields s job chunk) :
  (∃ k : Key, Holds job k.job ∧ Holds chunk k.chunk ∧ parse s = .ok k)
    ∨ ((∀ n, ¬ Holds job n) ∧ parse s = .error .badJob)
    ∨ ((∃ n, Holds job n) ∧ (∀ n, ¬ Holds chunk n) ∧ parse s = .error .badChunk)
  := by
  simp only [holds_iff, parse, h.span]
  cases readInt32 (trim job) with
  | error _ => simp
  | ok j =>
    cases readInt32 (trim chunk) with
    | error _ => simp
    | ok c =>
      left
      use ⟨j, c⟩

theorem parse_of_not_mem {s : String} (h : '/' ∉ s.toList) :
  parse s = .error .noSlash
  := by
  have hspan : s.toList.span (· ≠ '/') = (s.toList, []) := by
    have hall : ∀ c ∈ s.toList, decide (c ≠ '/') = true := by
      intro c hc
      apply decide_eq_true
      rintro rfl
      exact h hc
    rw [List.span_eq_takeWhile_dropWhile, List.takeWhile_eq_self_iff.mpr hall,
      List.dropWhile_eq_nil_iff.mpr hall]
  rw [parse, hspan]

/-- A text has one pair of fields, so what is said of some fields is said of these. -/
theorem HasFields.exists_iff {s : String} {job chunk : List Char} (h : HasFields s job chunk)
    {P : List Char → List Char → Prop} :
  (∃ job' chunk', HasFields s job' chunk' ∧ P job' chunk') ↔ P job chunk
  := by
  constructor
  · rintro ⟨job', chunk', h', hP⟩
    have hpair := h'.span.symm.trans h.span
    obtain ⟨rfl, rfl⟩ : job' = job ∧ chunk' = chunk := by simpa using hpair
    exact hP
  · exact fun hP => ⟨job, chunk, h, hP⟩

theorem not_exists_hasFields {s : String} (h : '/' ∉ s.toList)
    {P : List Char → List Char → Prop} :
  ¬ ∃ job chunk, HasFields s job chunk ∧ P job chunk
  := by
  rintro ⟨job, chunk, hs, -⟩
  apply h
  rw [hs.1]
  exact List.mem_append_right _ List.mem_cons_self

/-- A field holds one number. -/
theorem Holds.unique {field : List Char} {m n : Int32} (hm : Holds field m) (hn : Holds field n) :
  m = n
  := by
  rw [holds_iff] at hm hn
  exact Except.ok.inj (hm.symm.trans hn)

theorem parse_ok_iff {s : String} {k : Key} :
  parse s = .ok k ↔ ∃ job chunk, HasFields s job chunk ∧ Holds job k.job ∧ Holds chunk k.chunk
  := by
  by_cases hs : '/' ∈ s.toList
  · obtain ⟨job, chunk, h⟩ := exists_hasFields hs
    rw [h.exists_iff]
    rcases h.parse_cases with ⟨k', hjob, hchunk, hk'⟩ | ⟨hjob, herror⟩ | ⟨-, hchunk, herror⟩
    · rw [hk']
      constructor
      · rintro ⟨⟩
        exact ⟨hjob, hchunk⟩
      · rintro ⟨hj, hc⟩
        rw [eq_of_job_of_chunk (hjob.unique hj) (hchunk.unique hc)]
    · simp [herror, hjob]
    · simp [herror, hchunk]
  · simp [parse_of_not_mem hs, not_exists_hasFields hs]

theorem parse_noSlash_iff {s : String} :
  parse s = .error .noSlash ↔ '/' ∉ s.toList
  := by
  constructor
  · intro hparse hs
    obtain ⟨job, chunk, h⟩ := exists_hasFields hs
    rcases h.parse_cases with ⟨_, -, -, hk⟩ | ⟨-, herror⟩ | ⟨-, -, herror⟩
    · cases hparse.symm.trans hk
    · cases hparse.symm.trans herror
    · cases hparse.symm.trans herror
  · exact parse_of_not_mem

theorem parse_badJob_iff {s : String} :
  parse s = .error .badJob ↔ ∃ job chunk, HasFields s job chunk ∧ ∀ n, ¬ Holds job n
  := by
  by_cases hs : '/' ∈ s.toList
  · obtain ⟨job, chunk, h⟩ := exists_hasFields hs
    rw [h.exists_iff (P := fun job _ => ∀ n, ¬ Holds job n)]
    rcases h.parse_cases with ⟨k, hjob, -, hk⟩ | ⟨hjob, herror⟩ | ⟨⟨n, hjob⟩, -, herror⟩
    · rw [hk]
      exact iff_of_false (by simp) (fun hnot => hnot _ hjob)
    · exact ⟨fun _ => hjob, fun _ => herror⟩
    · rw [herror]
      exact iff_of_false (by simp) (fun hnot => hnot n hjob)
  · rw [parse_of_not_mem hs]
    exact iff_of_false (by simp) (not_exists_hasFields hs)

theorem parse_badChunk_iff {s : String} :
  parse s = .error .badChunk
    ↔ ∃ job chunk, HasFields s job chunk ∧ (∃ n, Holds job n) ∧ ∀ n, ¬ Holds chunk n
  := by
  by_cases hs : '/' ∈ s.toList
  · obtain ⟨job, chunk, h⟩ := exists_hasFields hs
    rw [h.exists_iff]
    rcases h.parse_cases with ⟨k, -, hchunk, hk⟩ | ⟨hjob, herror⟩ | ⟨hjob, hchunk, herror⟩
    · rw [hk]
      exact iff_of_false (by simp) (fun hnot => hnot.2 _ hchunk)
    · rw [herror]
      exact iff_of_false (by simp) (fun hnot => hnot.1.elim hjob)
    · exact ⟨fun _ => ⟨hjob, hchunk⟩, fun _ => herror⟩
  · simp [parse_of_not_mem hs, not_exists_hasFields hs]

/-- What is written for a key is read as that key. -/
theorem parse_render (k : Key) :
  parse k.render = .ok k
  := parse_ok_iff.mpr ⟨_, _, hasFields_render k, holds_render k.job, holds_render k.chunk⟩

/--
A text is read as a key exactly if its fields hold the numbers of the key.  Otherwise it has no
slash, or else its first field holds no number, or else its second field holds none, and this is
what reading it fails with.  What is written for a key is read as that key, so no two keys are
written alike.
-/
theorem read_exactly_by_fields :
  (∀ s k, parse s = .ok k
    ↔ ∃ job chunk, HasFields s job chunk ∧ Holds job k.job ∧ Holds chunk k.chunk) ∧
  (∀ s, parse s = .error .noSlash ↔ '/' ∉ s.toList) ∧
  (∀ s, parse s = .error .badJob
    ↔ ∃ job chunk, HasFields s job chunk ∧ ∀ n, ¬ Holds job n) ∧
  (∀ s, parse s = .error .badChunk
    ↔ ∃ job chunk, HasFields s job chunk ∧ (∃ n, Holds job n) ∧ ∀ n, ¬ Holds chunk n) ∧
  (∀ k : Key, parse k.render = .ok k) ∧
  ∀ k k' : Key, k.render = k'.render → k = k'
  := by
  refine ⟨fun _ _ => parse_ok_iff, fun _ => parse_noSlash_iff, fun _ => parse_badJob_iff,
    fun _ => parse_badChunk_iff, parse_render, ?_⟩
  intro k k' hrender
  have hparse := parse_render k
  rw [hrender, parse_render k'] at hparse
  exact (Except.ok.inj hparse).symm

end ChunkDispatch.Key
