import ChunkDispatch.Proofs.Coherence
import ChunkDispatch.Proofs.Step

/-!
# The log of changes

The *projection* of a grid has the sink and the status of every tracked chunk.  A listener who
keeps a projection *replays* the events: an added chunk is inserted, an updated one replaced, a
removed one deleted.  An event *fits* a projection if what it says of the time before it is what
stands there.  A mutation takes a board through *passes*, each of which exchanges the store, places
a tracker or drops a key.  On every board passed the events so far are numbered without gaps, each
fits what the events before it leave, and together they make of the projection at the start that of
the board.
-/

namespace ChunkDispatch

open Attempt

/-- The sink and the status of each chunk a listener knows of. -/
abbrev Projection :=
  Key → Option (Int32 × Status)

/-- What is to be known of what is found under a key. -/
def Tracker.shown (found : Option Tracker) : Option (Int32 × Status) :=
  found.map (fun t => (t.sink, t.status))

/-- The sink and the status of each chunk which is tracked. -/
def Grid.projection {p : Partitioner} (g : Grid p) : Projection :=
  fun k => Tracker.shown (g.find? k)

/-! ### Replaying events -/

namespace EventKind

/-- The projection after an event. -/
def replay (π : Projection) : EventKind → Projection
  | added k sink status => Function.update π k (some (sink, status))
  | updated k sink _ target => Function.update π k (some (sink, target))
  | removed k _ _ => Function.update π k none

/-- What the event says of the time before it stands in the projection. -/
def Fits (π : Projection) : EventKind → Prop
  | added k _ _ => π k = none
  | updated k _ source _ => (π k).map Prod.snd = some source
  | removed k sink status => π k = some (sink, status)

/-- The event of a change under a key fits what was found there, and leaves what is there now. -/
theorem ofChange?_fits {π : Projection} {k : Key} {old new : Option Tracker} {kind : EventKind}
    (h : ofChange? old new = some kind) (hold : ∀ t, old = some t → t.key = k)
    (hnew : ∀ t, new = some t → t.key = k) (hπ : π k = Tracker.shown old) :
  kind.key = k ∧ kind.Fits π ∧ kind.replay π = Function.update π k (Tracker.shown new)
  := by
  cases old with
  | none =>
    cases new with
    | none => cases h
    | some t =>
      obtain rfl := Option.some.inj h
      obtain rfl := hnew t rfl
      exact ⟨rfl, hπ, rfl⟩
  | some o =>
    obtain rfl := hold o rfl
    cases new with
    | none =>
      obtain rfl := Option.some.inj h
      exact ⟨rfl, hπ, rfl⟩
    | some t =>
      obtain rfl := Option.some.inj h
      have hkey := hnew t rfl
      refine ⟨hkey, ?_, ?_⟩
      · rw [Fits, hkey, hπ]
        rfl
      · rw [replay, hkey]
        rfl

end EventKind

namespace Event

/-- The projection after some events. -/
def replay (π : Projection) (es : List Event) : Projection :=
  es.foldl (fun π e => e.kind.replay π) π

/-- Each event fits what those before it leave. -/
def Fit (π : Projection) : List Event → Prop
  | [] => True
  | e :: rest => e.kind.Fits π ∧ Fit (e.kind.replay π) rest

theorem replay_append (π : Projection) (es es' : List Event) :
  replay π (es ++ es') = replay (replay π es) es'
  := List.foldl_append

theorem fit_append {π : Projection} {es es' : List Event} :
  Fit π (es ++ es') ↔ Fit π es ∧ Fit (replay π es) es'
  := by
  induction es generalizing π with
  | nil => simp [Event.Fit, Event.replay]
  | cons e rest ih =>
    rw [List.cons_append, Fit, Fit, ih, and_assoc]
    rfl

end Event

namespace Board

variable {p : Partitioner} {σ : Type} {b c d : Board p σ}

/--
The events from `b` to `c` are numbered one by one after the last event before them, each fits what
those before it leave, and they make of the projection of `b` that of `c`.
-/
structure Told (b c : Board p σ) (es : List Event) : Prop where
  log : c.log = b.log ++ es
  numbered : es.map Event.seq = List.range' (b.lastSeq + 1) es.length
  lastSeq : c.lastSeq = b.lastSeq + es.length
  fit : Event.Fit b.grid.projection es
  replayed : Event.replay b.grid.projection es = c.grid.projection

/-- Where the projection and the log stay as they are there is nothing to tell. -/
theorem told_nil (hlog : c.log = b.log) (hseq : c.lastSeq = b.lastSeq)
    (hgrid : c.grid.projection = b.grid.projection) :
  b.Told c []
  where
  log := by rw [hlog, List.append_nil]
  numbered := rfl
  lastSeq := hseq
  fit := trivial
  replayed := hgrid.symm

theorem Told.append {es es' : List Event} (h : b.Told c es) (h' : c.Told d es') :
  b.Told d (es ++ es')
  where
  log := by rw [h'.log, h.log, List.append_assoc]
  numbered := by
    rw [List.map_append, h.numbered, h'.numbered, h.lastSeq, List.length_append,
      Nat.add_right_comm, List.range'_append_1]
  lastSeq := by rw [h'.lastSeq, h.lastSeq, List.length_append, Nat.add_assoc]
  fit := by
    rw [Event.fit_append, h.replayed]
    exact ⟨h.fit, h'.fit⟩
  replayed := by rw [Event.replay_append, h.replayed, h'.replayed]

/-- The event of a change under one key tells all of it. -/
theorem emit_told (now : Instant) {k : Key} {new : Option Tracker} {g : Grid p}
    (hold : ∀ t, b.grid.find? k = some t → t.key = k) (hnew : ∀ t, new = some t → t.key = k)
    (hg : ∀ k', g.find? k' = if k' = k then new else b.grid.find? k') :
  ∃ es, b.Told (emit now (b.grid.find? k) new { b with grid := g }) es ∧
    es.map (fun e => e.kind.key)
      = if ((b.grid.find? k).or new).isSome then [k] else []
  := by
  have hprojection : g.projection
      = Function.update b.grid.projection k (Tracker.shown new) := by
    funext k'
    rw [Function.update_apply, Grid.projection, hg]
    split <;> rfl
  rw [emit]
  split
  · rename_i hnone
    have hsame : b.grid.find? k = none ∧ new = none := by
      revert hnone
      cases b.grid.find? k <;> cases new <;> simp [EventKind.ofChange?]
    refine ⟨[], told_nil rfl rfl ?_, ?_⟩
    · change g.projection = _
      rw [hprojection, hsame.2, Function.update_eq_self_iff, Grid.projection, hsame.1]
    · rw [hsame.1, hsame.2]
      rfl
  · rename_i kind hkind
    have hthere : ((b.grid.find? k).or new).isSome = true := by
      revert hkind
      cases b.grid.find? k <;> cases new <;> simp [EventKind.ofChange?]
    obtain ⟨hkey, hfits, hreplay⟩ :=
      EventKind.ofChange?_fits (π := b.grid.projection) hkind hold hnew rfl
    refine ⟨[⟨b.lastSeq + 1, now, kind⟩], ?_, ?_⟩
    · constructor
      · rfl
      · rfl
      · rfl
      · exact ⟨hfits, trivial⟩
      · exact hreplay.trans hprojection.symm
    · rw [if_pos hthere, ← hkey]
      rfl

/-- Placing a tracker is told by one event of its key. -/
theorem place_told (hb : b.grid.WellFiled) (now : Instant) (t : Tracker) :
  ∃ es, b.Told (place now t b) es ∧ es.map (fun e => e.kind.key) = [t.key]
  := by
  obtain ⟨es, htold, hkeys⟩ := emit_told now (fun _ => hb.key)
    (fun u hu => by rw [Option.some.inj hu]) (b.grid.find?_insert t)
  use es, htold
  rw [hkeys, if_pos]
  cases b.grid.find? t.key <;> rfl

/-- Dropping a key is told by an event of the key, or nothing was there. -/
theorem drop_told (hb : b.grid.WellFiled) (now : Instant) (k : Key) :
  ∃ es, b.Told (drop now k b) es ∧ (es.map (fun e => e.kind.key)).Sublist [k]
  := by
  obtain ⟨es, htold, hkeys⟩ := emit_told now (fun _ => hb.key)
    (fun u (hu : none = some u) => by cases hu) (b.grid.find?_erase k)
  use es, htold
  rw [hkeys]
  split
  · exact List.Sublist.refl _
  · apply List.nil_sublist

/-! ### Passes -/

/-- The store is exchanged, a tracker is placed or a key is dropped. -/
inductive Pass (b : Board p σ) : Board p σ → Prop where
  | store (s : σ) : Pass b { b with store := s }
  | place (now : Instant) (t : Tracker) : Pass b (place now t b)
  | drop (now : Instant) (k : Key) : Pass b (drop now k b)

/-- Passes lead from one board to the other. -/
def Passes : Board p σ → Board p σ → Prop :=
  Relation.ReflTransGen Pass

instance : Composes (Passes (p := p) (σ := σ)) Passes where
  refl _ := Relation.ReflTransGen.refl
  trans := Relation.ReflTransGen.trans
  last := Relation.ReflTransGen.trans

theorem steps_passes (now : Instant) :
  Steps (p := p) (σ := σ) now Passes Passes
  := by
  constructor
  · intro α x b
    rw [onStore, ends_within]
    apply ends_of_forall
    · exact fun _ s => .single (.store s)
    · exact fun _ s => .single (.store s)
  · exact fun t b => .single (.place now t)
  · exact fun k b => .single (.drop now k)

/-- One pass is told by its events. -/
theorem Pass.told (h : b.Pass c) (hb : b.grid.WellFiled) :
  c.grid.WellFiled ∧ ∃ es, b.Told c es
  := by
  cases h with
  | store s => exact ⟨hb, [], told_nil rfl rfl rfl⟩
  | place now t =>
    obtain ⟨es, htold, -⟩ := place_told hb now t
    refine ⟨?_, es, htold⟩
    rw [place_grid]
    apply hb.insert
  | drop now k =>
    obtain ⟨es, htold, -⟩ := drop_told hb now k
    refine ⟨?_, es, htold⟩
    rw [drop_grid]
    apply hb.erase

/-- On every board passed the events so far tell what has become of the grid. -/
theorem Passes.told (h : b.Passes c) (hb : b.grid.WellFiled) :
  c.grid.WellFiled ∧ ∃ es, b.Told c es
  := by
  induction h with
  | refl => exact ⟨hb, [], told_nil rfl rfl rfl⟩
  | tail _ hpass ih =>
    obtain ⟨hc, es, hes⟩ := ih
    obtain ⟨hd, es', hes'⟩ := hpass.told hc
    exact ⟨hd, es ++ es', hes.append hes'⟩

end Board

/-- The run of mutations other than loading goes by passes. -/
theorem Mutation.run_passes {p : Partitioner} {σ : Type} [Store σ] (b : Board p σ)
    {ms : List (Instant × Mutation)} (hms : ∀ m ∈ ms, m.2 ≠ loadAll) :
  b.Passes (run b ms)
  := by
  induction ms generalizing b with
  | nil => exact .refl
  | cons m rest ih =>
    obtain ⟨hm, hrest⟩ := List.forall_mem_cons.mp hms
    have hfirst : b.Passes ((m.2.perform m.1).stateAfter b) :=
      Ends.stateAfter ((Board.steps_passes m.1).writes.walks_perform hm b)
    exact hfirst.trans (ih _ hrest)

/-! ### Events and writes -/

/-- The keys which a write puts or deletes. -/
def Write.keys : Write → List Key
  | put k => [k]
  | putAll ks => ks
  | delete k => [k]
  | deleteAll ks => ks

namespace Board

section About

variable {p : Partitioner} {σ : Type} {b c d : Board p σ} {ks ks' : List Key}

/-- The events from `b` to `c` are about some keys, about each no more often than it is listed. -/
def About (ks : List Key) (b c : Board p σ) : Prop :=
  ∃ es, c.log = b.log ++ es ∧ (es.map (fun e => e.kind.key)).Subperm ks

theorem about_nil (h : c.log = b.log) :
  About [] b c
  := by
  refine ⟨[], ?_, List.Subperm.refl _⟩
  rw [h, List.append_nil]

theorem About.append (h : About ks b c) (h' : About ks' c d) :
  About (ks ++ ks') b d
  := by
  obtain ⟨es, hlog, hkeys⟩ := h
  obtain ⟨es', hlog', hkeys'⟩ := h'
  use es ++ es'
  constructor
  · rw [hlog', hlog, List.append_assoc]
  · rw [List.map_append]
    apply hkeys.append hkeys'

/-- Trackers placed one after another are told by an event each. -/
theorem foldl_place_about (now : Instant) (ts : List Tracker) (hb : b.grid.WellFiled) :
  About (ts.map Tracker.key) b (ts.foldl (fun b t => b.place now t) b)
  := by
  induction ts generalizing b with
  | nil => apply about_nil rfl
  | cons t rest ih =>
    obtain ⟨es, htold, hkeys⟩ := place_told hb now t
    have hfirst : About [t.key] b (place now t b) := ⟨es, htold.log, hkeys ▸ List.Subperm.refl _⟩
    apply hfirst.append
    apply ih
    rw [place_grid]
    apply hb.insert

theorem foldl_drop_about (now : Instant) (ks : List Key) (hb : b.grid.WellFiled) :
  About ks b (ks.foldl (fun b k => b.drop now k) b)
  := by
  induction ks generalizing b with
  | nil => apply about_nil rfl
  | cons k rest ih =>
    obtain ⟨es, htold, hkeys⟩ := drop_told hb now k
    have hfirst : About [k] b (drop now k b) := ⟨es, htold.log, hkeys.subperm⟩
    rw [← List.singleton_append]
    apply hfirst.append
    apply ih
    rw [drop_grid]
    apply hb.erase

/-- The trackers of a list, put partition by partition, are those of the list. -/
theorem perm_flatMap_inPartition (ts : List Tracker) :
  (((Grid.indices p).flatMap (fun i => inPartition i ts)).map Tracker.key).Perm
    (ts.map Tracker.key)
  := by
  apply List.perm_iff_count.mpr
  intro k
  rw [List.count, List.countP_map, List.countP_map, List.countP_eq_length_filter,
    List.countP_eq_length_filter]
  exact congrArg List.length (filter_flatMap_inPartition ts k)

end About

variable {p : Partitioner} {σ : Type}

/-- The writes `ws` were taken, and the events are about their keys. -/
def Wrote (ws : List Write) (b c : Board p (Scripted σ)) : Prop :=
  c.store.writes = b.store.writes ++ ws ∧ About (ws.flatMap Write.keys) b c

/-- Some writes were taken, the next one failed, and the events are about the keys of the former. -/
def FailedAfter (ws : List Write) (b c : Board p (Scripted σ)) : Prop :=
  ∃ w, c.store.writes = b.store.writes ++ (ws ++ [w]) ∧ About (ws.flatMap Write.keys) b c

/-- From a well filed board, all writes were taken, and reported. -/
def Reports (b c : Board p (Scripted σ)) : Prop :=
  b.grid.WellFiled → c.grid.WellFiled ∧ ∃ ws, Wrote ws b c

/-- From a well filed board, a write failed, and those before it were reported. -/
def BreaksOff (b c : Board p (Scripted σ)) : Prop :=
  b.grid.WellFiled → ∃ ws, FailedAfter ws b c

instance : Composes (Reports (p := p) (σ := σ)) BreaksOff where
  refl b hb := ⟨hb, [], (List.append_nil _).symm, about_nil rfl⟩
  trans h h' hb := by
    obtain ⟨hc, ws, hwrites, habout⟩ := h hb
    obtain ⟨hd, ws', hwrites', habout'⟩ := h' hc
    refine ⟨hd, ws ++ ws', ?_, ?_⟩
    · rw [hwrites', hwrites, List.append_assoc]
    · rw [List.flatMap_append]
      apply habout.append habout'
  last h h' hb := by
    obtain ⟨hc, ws, hwrites, habout⟩ := h hb
    obtain ⟨ws', w, hwrites', habout'⟩ := h' hc
    refine ⟨ws ++ ws', w, ?_, ?_⟩
    · rw [hwrites', hwrites, List.append_assoc, List.append_assoc]
    · rw [List.flatMap_append]
      apply habout.append habout'

/-- A write after which the keys written are told of. -/
theorem write_reports (w : Write) (x : Attempt σ Unit)
    {f : Board p (Scripted σ) → Board p (Scripted σ)}
    (hf : ∀ b, b.grid.WellFiled →
      (f b).grid.WellFiled ∧ (f b).store = b.store ∧ About w.keys b (f b)) :
  (do
    onStore (Scripted.write w x)
    modify f : Attempt (Board p (Scripted σ)) PUnit).Walks Reports BreaksOff
  := by
  intro b
  apply ends_imp
  intro hb
  rw [ends_bind, onStore, ends_within]
  apply (Scripted.write_ends w x b.store).mono
  · rintro _ s ⟨hwrites, -⟩
    rw [ends_modify]
    obtain ⟨hc, hstore, habout⟩ := hf { b with store := s } hb
    refine ⟨hc, [w], ?_, ?_⟩
    · rw [hstore, ← hwrites]
    · rw [List.flatMap_singleton]
      apply habout
  · intro _ s hwrites
    exact ⟨[], w, hwrites, about_nil rfl⟩

theorem put_reports (now : Instant) (w : Write) (x : Attempt σ Unit) (ts : List Tracker)
    (hw : (ts.map Tracker.key).Subperm w.keys) :
  (do
    onStore (Scripted.write w x)
    modify (fun b => ts.foldl (fun b t => b.place now t) b)
      : Attempt (Board p (Scripted σ)) PUnit).Walks Reports BreaksOff
  := by
  apply write_reports
  intro b hb
  obtain ⟨es, hlog, hkeys⟩ := foldl_place_about now ts hb
  rw [(foldl_place now ts b).1, (foldl_place now ts b).2]
  exact ⟨hb.insertAll ts, rfl, es, hlog, hkeys.trans hw⟩

theorem delete_reports (now : Instant) (w : Write) (x : Attempt σ Unit) :
  (do
    onStore (Scripted.write w x)
    modify (fun b => w.keys.foldl (fun b k => b.drop now k) b)
      : Attempt (Board p (Scripted σ)) PUnit).Walks Reports BreaksOff
  := by
  apply write_reports
  intro b hb
  rw [(foldl_drop now w.keys b).1, (foldl_drop now w.keys b).2]
  exact ⟨hb.eraseAll w.keys, rfl, foldl_drop_about now w.keys hb⟩

/-- The events of each write are about the keys written. -/
theorem writes_report [Store σ] (now : Instant) :
  Writes (p := p) (σ := Scripted σ) now Reports BreaksOff
  where
  set t := put_reports now (.put t.key) _ [t] (List.Subperm.refl _)
  setAll ts := by
    apply walks_ite
    · exact fun _ => walks_pure _
    · exact fun _ => put_reports now _ _ _ (perm_flatMap_inPartition ts).subperm
  putAll ts := put_reports now (.putAll (ts.map Tracker.key)) _ ts (List.Subperm.refl _)
  delete k := delete_reports now (.delete k) _
  deleteAll ks := delete_reports now (.deleteAll ks) _

end Board

variable {p : Partitioner} {σ : Type} [Store σ]

/-! ### The log -/

/--
Whatever writes the store refuses, mutations go by passes, and on every board passed the events so
far are numbered without gaps, each fits the projection that those before it leave, and they make of
the projection at the start that of the board.  From there, a mutation tells of the keys of the
writes which were taken, of each key no more often than it was written; of the write by which it
fails it tells nothing.
-/
theorem Mutation.run_told {b : Board p (Scripted σ)} (hb : b.grid.WellFiled)
    {ms : List (Instant × Mutation)} (hms : ∀ m ∈ ms, m.2 ≠ loadAll) :
  b.Passes (run b ms) ∧
    ∀ c, b.Passes c → (∃ es, b.Told c es) ∧
      ∀ now m, m ≠ loadAll → (m.perform now).Ends c
        (fun _ c' => ∃ ws, c.Wrote ws c') (fun _ c' => ∃ ws, c.FailedAfter ws c')
  := by
  use run_passes b hms
  intro c hpasses
  obtain ⟨hc, htold⟩ := hpasses.told hb
  use htold
  intro now m hm
  apply ((Board.writes_report now).walks_perform hm c).mono
  · exact fun _ _ h => (h hc).2
  · exact fun _ _ h => h hc

/--
Of two trackers put with one key the first is added and updated to the second; one whose removal the
store refuses is told of only when it is removed again.
-/
theorem Mutation.run_told_of_stubborn :
  let b := Board.start (.ofCount 2) Scripted.stubborn
  let t := (Chunk.sample 1 1 []).track default
  let ms := [
    (default, setAll [t, (Chunk.sample 1 2 []).track default, { t with status := .blocked }]),
    (default, remove ⟨1, 2⟩), (default, adjust ⟨1, 1⟩ (.force ⟨.completed⟩)),
    (default, remove ⟨1, 2⟩)]
  b.grid.WellFiled ∧ (∀ m ∈ ms, m.2 ≠ loadAll) ∧
    (∃ es, b.Told (run b ms) es ∧ (es.map Event.kind).Perm [
      .added ⟨1, 1⟩ 1 .readyForProcessing, .updated ⟨1, 1⟩ 1 .readyForProcessing .blocked,
      .added ⟨1, 2⟩ 1 .readyForProcessing, .updated ⟨1, 1⟩ 1 .blocked .completed,
      .removed ⟨1, 2⟩ 1 .readyForProcessing]) ∧
    ((remove ⟨1, 2⟩).perform default).Ends (run b (ms.take 1)) (fun _ _ => False)
      (fun _ c => ∃ ws, (run b (ms.take 1)).FailedAfter ws c)
  := by
  intro b t ms
  have hms : ∀ m ∈ ms, m.2 ≠ loadAll := by decide
  have hkinds : ((run b ms).log.map Event.kind).Perm [
      .added ⟨1, 1⟩ 1 .readyForProcessing, .updated ⟨1, 1⟩ 1 .readyForProcessing .blocked,
      .added ⟨1, 2⟩ 1 .readyForProcessing, .updated ⟨1, 1⟩ 1 .blocked .completed,
      .removed ⟨1, 2⟩ 1 .readyForProcessing] := by
    decide +kernel
  have hrefused : ((remove ⟨1, 2⟩).perform default).outcome (run b (ms.take 1))
      = .error .writeRefused := by
    decide +kernel
  obtain ⟨hpasses, htold⟩ := run_told (b := b) Grid.wellFiled_empty hms
  have htake : ∀ m ∈ ms.take 1, m.2 ≠ loadAll := fun m hm => hms m (List.mem_of_mem_take hm)
  obtain ⟨hfirst, -⟩ := run_told (b := b) Grid.wellFiled_empty htake
  refine ⟨Grid.wellFiled_empty, hms, ?_, ?_⟩
  · obtain ⟨es, hes⟩ := (htold _ hpasses).1
    use es, hes
    rwa [hes.log] at hkinds
  · apply ((ends_of_outcome hrefused).and
      ((htold _ hfirst).2 default (remove ⟨1, 2⟩) (by decide))).mono
    · exact fun _ _ h => h.1
    · exact fun _ _ h => h.2

end ChunkDispatch
