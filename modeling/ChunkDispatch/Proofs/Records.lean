import ChunkDispatch.Change
import ChunkDispatch.Event
import ChunkDispatch.Proofs.Codec
import ChunkDispatch.Query
import ChunkDispatch.Sink
import ChunkDispatch.Tally

/-!
# Round trips of records

A type makes *round trips* if its values are read back from their JSON forms and from the texts of
these, and if whatever a value has been read from, it is read again from its own form and text.  All
records make round trips as far as their numbers have the bits there are for them and their instants
are readable (`records_roundTrip`).
-/

namespace ChunkDispatch

/--
The values `Within` are read back from their forms and texts; and any value which has been read is
one of them, so it is read again from its own form and text, and has that form again.
-/
structure RoundTrips (α : Type) [Codec α] (Within : α → Prop) : Prop where
  back : ∀ a, Within a →
    decode? (encode a) = some a ∧ (Json.parse? (encode a).render).bind decode? = some a
  again : ∀ (j : Json) (a : α), decode? j = some a →
    Within a ∧ decode? (encode a) = some a ∧
      (Json.parse? (encode a).render).bind decode? = some a ∧
      (decode? (encode a) : Option α).map encode = some (encode a)

/-- What is expressible makes round trips. -/
theorem LawfulCodec.roundTrips {α : Type} [Codec α] [LawfulCodec α] {Within : α → Prop}
    (hwithin : ∀ a : α, Within a ↔ Expressible a) :
  RoundTrips α Within
  := by
  have hback : ∀ a : α, Expressible a →
      decode? (encode a) = some a ∧ (Json.parse? (encode a).render).bind decode? = some a := by
    intro a ha
    refine ⟨decode?_encode ha, ?_⟩
    rw [Json.parse?_render (plain_encode a), Option.bind_some, decode?_encode ha]
  constructor
  · exact fun a ha => hback a ((hwithin a).mp ha)
  · intro j a h
    have ha := expressible_of_decode? h
    obtain ⟨hform, htext⟩ := hback a ha
    refine ⟨(hwithin a).mpr ha, hform, htext, ?_⟩
    rw [hform, Option.map_some]

/-- A record of lawful fields makes round trips as far as its fields are expressible. -/
theorem LawfulFields.roundTrips {α β : Type} [Fields β] [LawfulFields β] {names : List String}
    {fields : α → β} {make : β → α} {Within : α → Prop} (hnames : names.Nodup)
    (hwidth : names.length = LawfulFields.width β) (hmake : ∀ a, make (fields a) = a)
    (hfields : ∀ b, fields (make b) = b)
    (hwithin : ∀ a, Within a ↔ LawfulFields.Expressible (fields a)) :
  @RoundTrips α (.record names fields make) Within
  :=
  letI : Codec α := .record names fields make
  letI : LawfulCodec α := .record hnames hwidth hmake hfields
  LawfulCodec.roundTrips hwithin

theorem TotalFields.roundTrips {α β : Type} [Fields β] [LawfulFields β] [TotalFields β]
    {names : List String} {fields : α → β} {make : β → α} (hnames : names.Nodup)
    (hwidth : names.length = LawfulFields.width β) (hmake : ∀ a, make (fields a) = a)
    (hfields : ∀ b, fields (make b) = b) :
  @RoundTrips α (.record names fields make) (fun _ => True)
  := LawfulFields.roundTrips hnames hwidth hmake hfields
    fun _ => iff_of_true trivial (TotalFields.expressible _)

/-! ### Lawful choices and records -/

instance : LawfulCodec Status := .choice Status.ofTag?_tag

instance : TotalCodec Status := ⟨fun _ => trivial⟩

instance : LawfulCodec Phase := .choice Phase.ofTag?_tag

instance : LawfulCodec SubmitMode := .choice SubmitMode.ofTag?_tag

instance : LawfulCodec (Option Int32) := .option (fun _ => nofun)

instance : TotalCodec (Option Int32) := ⟨fun _ _ _ => trivial⟩

instance : LawfulCodec Key := .record (by decide) rfl (fun _ => rfl) (fun _ => rfl)

instance : TotalCodec Key := ⟨fun k => TotalFields.expressible (k.job, k.chunk, ())⟩

instance : LawfulCodec Queue := .record (by decide) rfl (fun _ => rfl) (fun _ => rfl)

namespace EventKind

/-- Every event is read back, though inside it a status may be written in more ways. -/
theorem decode?_encode (e : EventKind) :
  decode? (encode e) = some e
  := by
  have hkey : ∀ k : Key, decode? (encode k) = some k :=
    fun k => LawfulCodec.decode?_encode (TotalCodec.expressible k)
  have hsink : ∀ n : Int32, decode? (encode n) = some n :=
    fun n => LawfulCodec.decode?_encode (TotalCodec.expressible n)
  have hstatus : ∀ s : Status, Json.innerChoice? Status.ofTag? (encode s) = some s :=
    Status.ofTag?_tag
  cases e with
  | added k sink status =>
    change (decode? (encode k)).bind (fun k => (decode? (encode sink)).bind fun sink =>
      (Json.innerChoice? Status.ofTag? (encode status)).bind fun status =>
        some (added k sink status)) = _
    rw [hkey, hsink, hstatus]
    rfl
  | updated k sink source target =>
    change (decode? (encode k)).bind (fun k => (decode? (encode sink)).bind fun sink =>
      (Json.innerChoice? Status.ofTag? (encode source)).bind fun source =>
        (Json.innerChoice? Status.ofTag? (encode target)).bind fun target =>
          some (updated k sink source target)) = _
    rw [hkey, hsink, hstatus, hstatus]
    rfl
  | removed k sink status =>
    change (decode? (encode k)).bind (fun k => (decode? (encode sink)).bind fun sink =>
      (Json.innerChoice? Status.ofTag? (encode status)).bind fun status =>
        some (removed k sink status)) = _
    rw [hkey, hsink, hstatus]
    rfl

/-- Members with a type before them are plain. -/
theorem plain_object {α : Type} [Fields α] [LawfulFields α] (type : String) (names : List String)
    (fields : α) (hnames : ("type" :: names).Nodup)
    (hwidth : names.length = LawfulFields.width α) :
  Json.Plain (.object (("type", .string type) :: Fields.members names fields))
  := by
  apply Json.Plain.object
  · rwa [List.map_cons, LawfulFields.map_fst_members hwidth]
  · exact List.forall_mem_cons.mpr ⟨.string type, LawfulFields.plain_members names fields⟩

theorem plain_encode (e : EventKind) :
  (encode e).Plain
  := by
  cases e with
  | added k sink status =>
    exact plain_object "tracker_added" ["key", "sink_id", "status"]
      (k, sink, status, ()) (by decide) rfl
  | updated k sink source target =>
    exact plain_object "tracker_updated" ["key", "sink_id", "from", "to"]
      (k, sink, source, target, ()) (by decide) rfl
  | removed k sink status =>
    exact plain_object "tracker_removed" ["key", "sink_id", "status"]
      (k, sink, status, ()) (by decide) rfl

instance : LawfulCodec EventKind where
  Expressible _ := True
  decode?_encode {e} _ := decode?_encode e
  expressible_of_decode? _ := trivial
  plain_encode := plain_encode

end EventKind

/-! ### Round trips -/

/-- The numbers of the queue have 64 bits, and it is in its mode since a readable instant. -/
structure Queue.Recordable (q : Queue) : Prop where
  ready : q.ready < 2 ^ 64
  enqueued : q.enqueued < 2 ^ 64
  modeChangedAt : q.modeChangedAt.Readable

/-- The instant of the last change is readable. -/
structure Tracker.Recordable (t : Tracker) : Prop where
  lastModified : t.lastModified.Readable

theorem Queue.recordable_iff (q : Queue) :
  q.Recordable ↔ Expressible q
  := by
  constructor
  · rintro ⟨hready, henqueued, hmode⟩
    exact ⟨hready, henqueued, trivial, hmode, trivial⟩
  · rintro ⟨hready, henqueued, -, hmode, -⟩
    exact ⟨hready, henqueued, hmode⟩

theorem SinkStatus.roundTrips :
  RoundTrips SinkStatus (fun s =>
    s.processing.Recordable ∧ s.delivering.Recordable ∧ s.blocked < 2 ^ 64 ∧ s.completed < 2 ^ 64)
  := by
  apply LawfulFields.roundTrips (by decide) rfl (fun _ => rfl) (fun _ => rfl)
  intro s
  rw [Queue.recordable_iff, Queue.recordable_iff]
  constructor
  · rintro ⟨hprocessing, hdelivering, hblocked, hcompleted⟩
    exact ⟨hprocessing, hdelivering, hblocked, hcompleted, trivial⟩
  · rintro ⟨hprocessing, hdelivering, hblocked, hcompleted, -⟩
    exact ⟨hprocessing, hdelivering, hblocked, hcompleted⟩

theorem Tracker.roundTrips :
  RoundTrips Tracker Tracker.Recordable
  := by
  apply LawfulFields.roundTrips (by decide) rfl (fun _ => rfl) (fun _ => rfl)
  intro t
  constructor
  · rintro ⟨hmodified⟩
    exact ⟨TotalCodec.expressible t.key, trivial, trivial, trivial,
      TotalCodec.expressible t.waitingOn, TotalCodec.expressible t.matchKeys,
      TotalCodec.expressible t.hashes, trivial, trivial, hmodified, trivial⟩
  · rintro ⟨-, -, -, -, -, -, -, -, -, hmodified, -⟩
    exact ⟨hmodified⟩

theorem Event.roundTrips :
  RoundTrips Event (fun e => e.seq < 2 ^ 64 ∧ e.timestamp.Readable)
  := by
  apply LawfulFields.roundTrips (by decide) rfl (fun _ => rfl) (fun _ => rfl)
  intro e
  constructor
  · rintro ⟨hseq, htimestamp⟩
    exact ⟨hseq, htimestamp, trivial, trivial⟩
  · rintro ⟨hseq, htimestamp, -, -⟩
    exact ⟨hseq, htimestamp⟩

theorem Tally.JobCount.roundTrips :
  RoundTrips JobCount (fun c => c.jobs < 2 ^ 64 ∧ c.chunks < 2 ^ 64)
  := by
  apply LawfulFields.roundTrips (by decide) rfl (fun _ => rfl) (fun _ => rfl)
  intro c
  constructor
  · rintro ⟨hjobs, hchunks⟩
    exact ⟨hjobs, hchunks, trivial⟩
  · rintro ⟨hjobs, hchunks, -⟩
    exact ⟨hjobs, hchunks⟩

theorem Query.Stale.roundTrips :
  RoundTrips Stale (fun q => q.olderThan.Readable)
  := by
  apply LawfulFields.roundTrips (by decide) rfl (fun _ => rfl) (fun _ => rfl)
  intro q
  constructor
  · intro holder
    exact ⟨trivial, holder, trivial⟩
  · rintro ⟨-, holder, -⟩
    exact holder

theorem Query.roundTrips :
  RoundTrips ByStatus (fun _ => True) ∧
    RoundTrips Sharing (fun _ => True) ∧
    RoundTrips JobBarrier (fun _ => True) ∧
    RoundTrips FirstKey (fun _ => True) ∧
    RoundTrips WaitingFor (fun _ => True) ∧
    RoundTrips OfJob (fun _ => True) ∧
    RoundTrips Stale (fun q => q.olderThan.Readable) ∧
    RoundTrips InJobs (fun _ => True)
  := by
  refine ⟨?_, ?_, ?_, ?_, ?_, ?_, Stale.roundTrips, ?_⟩
  all_goals exact TotalFields.roundTrips (by decide) rfl (fun _ => rfl) (fun _ => rfl)

instance : LawfulCodec Change.Resend where
  Expressible _ := True
  decode?_encode _ := rfl
  expressible_of_decode? _ := trivial
  plain_encode _ := .null

theorem Change.roundTrips :
  RoundTrips Release (fun _ => True) ∧
    RoundTrips Force (fun _ => True) ∧
    RoundTrips Move (fun _ => True) ∧
    RoundTrips Raise (fun _ => True) ∧
    RoundTrips Resend (fun _ => True)
  := by
  refine ⟨?_, ?_, ?_, ?_, LawfulCodec.roundTrips fun _ => Iff.rfl⟩
  all_goals exact TotalFields.roundTrips (by decide) rfl (fun _ => rfl) (fun _ => rfl)

/--
All records make round trips, and the instants of the years from 0 to 9999 which are no leap seconds
are readable.
-/
theorem records_roundTrip :
  (RoundTrips Key (fun _ => True) ∧
    RoundTrips Status (fun _ => True) ∧
    RoundTrips Phase (fun _ => True) ∧
    RoundTrips SubmitMode (fun _ => True) ∧
    RoundTrips Queue Queue.Recordable ∧
    RoundTrips SinkStatus (fun s =>
      s.processing.Recordable ∧ s.delivering.Recordable ∧ s.blocked < 2 ^ 64 ∧
        s.completed < 2 ^ 64) ∧
    RoundTrips Channel (fun _ => True) ∧
    RoundTrips Tracker Tracker.Recordable ∧
    RoundTrips EventKind (fun _ => True) ∧
    RoundTrips Event (fun e => e.seq < 2 ^ 64 ∧ e.timestamp.Readable) ∧
    RoundTrips Tally.JobCount (fun c => c.jobs < 2 ^ 64 ∧ c.chunks < 2 ^ 64)) ∧
  (RoundTrips Query.ByStatus (fun _ => True) ∧
    RoundTrips Query.Sharing (fun _ => True) ∧
    RoundTrips Query.JobBarrier (fun _ => True) ∧
    RoundTrips Query.FirstKey (fun _ => True) ∧
    RoundTrips Query.WaitingFor (fun _ => True) ∧
    RoundTrips Query.OfJob (fun _ => True) ∧
    RoundTrips Query.Stale (fun q => q.olderThan.Readable) ∧
    RoundTrips Query.InJobs (fun _ => True)) ∧
  (RoundTrips Change.Release (fun _ => True) ∧
    RoundTrips Change.Force (fun _ => True) ∧
    RoundTrips Change.Move (fun _ => True) ∧
    RoundTrips Change.Raise (fun _ => True) ∧
    RoundTrips Change.Resend (fun _ => True)) ∧
  ∀ t : Instant, 0 ≤ t.date.year ∧ t.date.year ≤ 9999 → t.nano.val < 1000000000 → t.Readable
  := by
  refine ⟨⟨?_, ?_, ?_, ?_, ?_, SinkStatus.roundTrips, ?_, Tracker.roundTrips, ?_, Event.roundTrips,
    Tally.JobCount.roundTrips⟩, Query.roundTrips, Change.roundTrips,
    fun _ => Instant.readable_of_year⟩
  · exact TotalFields.roundTrips (by decide) rfl (fun _ => rfl) (fun _ => rfl)
  · exact LawfulCodec.roundTrips fun _ => Iff.rfl
  · exact LawfulCodec.roundTrips fun _ => Iff.rfl
  · exact LawfulCodec.roundTrips fun _ => Iff.rfl
  · exact LawfulCodec.roundTrips Queue.recordable_iff
  · exact TotalFields.roundTrips (by decide) rfl (fun _ => rfl) (fun _ => rfl)
  · exact LawfulCodec.roundTrips fun _ => Iff.rfl

/-- A query for what has not changed since three o'clock, with its fields in another order. -/
example : (decode? (.object [("olderThan", .string "2020-01-02T05:00:00.50+02:00"), ("note", .null),
    ("status", .string "BLOCKED")]) : Option Query.Stale).map encode
    = some (.object [("status", .string "BLOCKED"),
      ("olderThan", .string "2020-01-02T03:00:00.500Z")]) := by
  cbv

end ChunkDispatch
