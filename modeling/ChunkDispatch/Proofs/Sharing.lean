import ChunkDispatch.Proofs.Evolution
import ChunkDispatch.Proofs.Invariant
import ChunkDispatch.Proofs.MatchKey
import ChunkDispatch.Proofs.Row
import ChunkDispatch.Store.Memory

/-!
# Sharing a hash

A tracker is *hashed* if its list of hashes is that of its match keys: ascending, without
repetition, and with the hashes of the match keys as its members.  Every tracker is *made* in one
of a few ways, and hashed; changes leave it hashed.  So the binary search for a hash tells whether
one of the match keys has it, and the query for a list of hashes whether one of the match keys has
a hash on the list.
-/

namespace ChunkDispatch

open Attempt

namespace Tracker

/-- The list of hashes is that of the match keys. -/
def Hashed (t : Tracker) : Prop :=
  t.hashes = MatchKey.hashes t.matchKeys

/-- The binary search on a list of the hashes of some keys finds the hashes of the keys. -/
theorem hasHash_iff_of_hashes {t : Tracker} {keys : SortedSet String}
    (ht : t.hashes = MatchKey.hashes keys) (h : Int32) :
  t.hasHash h = true ↔ ∃ key ∈ keys, MatchKey.hash key = h
  := by
  have hascending : t.hashes.Pairwise (· ≤ ·) := by
    rw [ht]
    exact (MatchKey.pairwise_hashes keys).imp Std.le_of_lt
  rw [hasHash_iff hascending, ht, MatchKey.mem_hashes]

theorem Evolves.hashed {t t' : Tracker} (h : t.Evolves t') (ht : t.Hashed) :
  t'.Hashed
  := by
  rw [Hashed, h.hashes, h.matchKeys]
  exact ht

end Tracker

/-! ### Queries -/

theorem Query.Sharing.holds_iff {t : Tracker} (ht : t.Hashed) {sink submitter : Int32}
    {hashes : List Int32} {barrier : Option String} :
  (of sink submitter hashes barrier).holds t = true ↔
    t.isLive = true ∧ t.sink = sink ∧ t.submitter = submitter ∧
      ∃ key ∈ t.matchKeys, MatchKey.hash key ∈ hashes ∨
        ∃ b, barrier = some b ∧ MatchKey.hash b = MatchKey.hash key
  := by
  have hany : (of sink submitter hashes barrier).hashes.any t.hasHash = true ↔
      ∃ key ∈ t.matchKeys, MatchKey.hash key ∈ hashes ∨
        ∃ b, barrier = some b ∧ MatchKey.hash b = MatchKey.hash key := by
    simp only [List.any_eq_true, mem_of_hashes, Tracker.hasHash_iff_of_hashes ht]
    constructor
    · rintro ⟨_, hh, key, hkey, rfl⟩
      exact ⟨key, hkey, hh⟩
    · rintro ⟨key, hkey, hh⟩
      exact ⟨_, hh, key, hkey, rfl⟩
  rw [holds, decide_eq_true_eq, hany]
  rfl

/-! ### Registering -/

namespace Grid

variable {p : Partitioner} {k : Key}

/-- What is found under the key is hashed. -/
def HashedAt (g : Grid p) (k : Key) : Prop :=
  ∀ t, g.find? k = some t → t.Hashed

theorem HashedAt.insert {g : Grid p} (hg : g.HashedAt k) {t : Tracker} (ht : t.Hashed) :
  (g.insert t).HashedAt k
  := by
  intro u hu
  rw [find?_insert] at hu
  split at hu
  · obtain rfl := Option.some.inj hu
    exact ht
  · exact hg u hu

end Grid

namespace Scheduler

variable {p : Partitioner} {σ : Type} {now : Instant} {c : Chunk}

/-- What is found under the key stays hashed. -/
def StaysHashed (k : Key) (s s' : Scheduler p σ) : Prop :=
  s.grid.HashedAt k → s'.grid.HashedAt k

instance (k : Key) : Composes (StaysHashed (p := p) (σ := σ) k) (StaysHashed k) where
  refl _ := id
  trans h h' := h' ∘ h
  last h h' := h' ∘ h

theorem planNew_hashed (s : Scheduler p σ) (now : Instant) (c : Chunk) (barrier : Option String) :
  (s.planNew now c barrier).1.Hashed
  := by
  rw [planNew]
  simp only []
  split <;> rfl

variable [Store σ]

/-- Adjusting a key by a change which leaves trackers hashed leaves what is found there hashed. -/
theorem staysHashed_adjust {α : Type} (now : Instant) (k : Key) {f : Tracker → α × Tracker}
    (hf : ∀ t : Tracker, t.Hashed → (f t).2.Hashed) :
  (onBoard (Board.adjust now k f) : Attempt (Scheduler p σ) (Option α)).Walks (StaysHashed k)
    (StaysHashed k)
  := by
  intro s
  rw [ends_onBoard, Board.adjust, ends_bind, ends_get]
  cases ht : s.board.grid.find? k with
  | none => exact id
  | some t =>
    simp only []
    cases hu : Board.changed? now t (f t).2 with
    | none => exact id
    | some u =>
      simp only []
      rw [ends_bind, Board.set, ends_bind, Board.onStore, ends_within]
      apply ends_of_forall
      · intro _ store
        rw [ends_modify, ends_pure]
        intro hs
        have hhashed : u.Hashed := by
          obtain ⟨-, rfl⟩ : (f t).2 ≠ t ∧ (f t).2.touch now = u := by
            simpa [Board.changed?] using hu
          exact hf t (hs t ht)
        rw [withBoard_grid, Board.place_grid]
        exact hs.insert hhashed
      · exact fun _ _ => id

/-- What is left of a hashed tracker when keys are taken out of its wait set is hashed. -/
theorem dropFrom_hashed {s : Scheduler p σ} {t : Tracker} (ht : t.Hashed)
    (hs : s.grid.HashedAt t.key) (gone : List Key) :
  (dropFrom now t gone).Ends s (fun t' _ => t'.Hashed) (fun _ _ => True)
  := by
  rw [dropFrom]
  split
  · exact ht
  · rw [ends_bind]
    have hloop := walks_forM (T := StaysHashed (p := p) (σ := σ) t.key)
      (E := StaysHashed (p := p) (σ := σ) t.key) (ℓ := gone) (fun j _ => walks_bind_pure
        (staysHashed_adjust now t.key (fun u => (Change.Release.persists ⟨j⟩ u).hashed))
        (fun _ => PUnit.unit))
    apply (hloop s).mono
    · intro _ s' h
      rw [ends_bind, ends_get, ends_pure]
      cases hfound : s'.find? t.key with
      | none => exact ht
      | some u => exact h hs u hfound
    · exact fun _ _ _ => trivial

theorem carryOut_hashed_of_enrol {s : Scheduler p σ} {t : Tracker} (ht : t.Hashed) :
  (carryOut now (.enrol t)).Ends s (fun t' _ => t'.Hashed) (fun _ _ => True)
  := by
  rw [carryOut, ends_bind, ends_onBoard, Board.set, ends_bind, Board.onStore, ends_within]
  apply ends_of_forall
  · intro _ store
    rw [ends_modify, ends_bind, ends_get, ends_bind]
    apply (dropFrom_hashed ht _ _).mono
    · intro t' s' ht'
      split <;> exact ht'
    · exact fun _ _ _ => trivial
    · rw [withBoard_grid, Board.place_grid]
      intro u hu
      rw [Grid.find?_insert, if_pos rfl] at hu
      obtain rfl := Option.some.inj hu
      exact ht
  · exact fun _ _ => trivial

/--
The tracker of a chunk which is registered is hashed, if the chunk is new or all trackers of the
scheduler are hashed.
-/
theorem register_hashed {s : Scheduler p σ} (now : Instant) (barrier : Option String)
    (hs : s.grid.isLive c.key = true → ∀ k, s.grid.HashedAt k) :
  (register now c barrier).Ends s (fun t _ => t.Hashed) (fun _ _ => True)
  := by
  rw [register, ends_bind, ends_modifyGet]
  cases hlive : s.grid.isLive c.key with
  | true =>
    obtain ⟨t, ht, hlive'⟩ := Grid.isLive_iff.mp hlive
    rw [plan_of_live ht hlive', carryOut, ends_bind]
    apply (dropFrom_hashed (hs hlive _ t ht) (hs hlive t.key) _).mono
    · intro t' s' ht'
      split <;> exact ht'
    · exact fun _ _ _ => trivial
  | false =>
    rw [plan_of_not_live hlive]
    exact carryOut_hashed_of_enrol (planNew_hashed s now c barrier)

end Scheduler

/-! ### Runs -/

variable {p : Partitioner} {σ : Type} [Store σ] [LawfulStore σ]

/-- What trackers keep when they are amended, and those planned for new chunks have, is passed
on. -/
theorem Operation.passesOn_of_amend {P : Tracker → Prop} (now : Instant)
    (hamend : ∀ {α : Type} {f : Tracker → α × Tracker} {t : Tracker}, t.Evolves (f t).2 → P t →
      P (Board.amend now f t))
    (hplanned : ∀ (s : Scheduler p σ) (c : Chunk) (barrier : Option String),
      P (s.planNew now c barrier).1)
    {o : Operation} (hload : o ≠ load) :
  Scheduler.CommitsOnly (PassesOn P) True (o.perform now : Attempt (Scheduler p σ) Answer)
  := by
  have hpasses : ∀ {α : Type} {f : Tracker → α × Tracker} {t : Tracker}, t.Evolves (f t).2 →
      PassesOn P (some t) (some (Board.amend now f t)) := by
    rintro α f t hf hold _ ⟨⟩
    exact hamend hf (hold t rfl)
  by_cases hregister : ∃ c barrier, o = register c barrier
  · obtain ⟨c, barrier, rfl⟩ := hregister
    apply walks_bind_pure
    apply Scheduler.commitsOnly_register_of_planned
    · exact fun j u => hpasses (Change.Release.persists ⟨j⟩ u).toEvolves
    · rintro s - - _ ⟨⟩
      apply hplanned
  · have hallows : Allows now (PassesOn P) :=
      { release c t := hpasses (c.persists t).toEvolves
        force c t := hpasses (c.persists t).toEvolves
        move hsource htarget t := hpasses (Change.Move.persists hsource htarget t).toEvolves
        raise c t := hpasses (c.persists t).toEvolves
        remove _ _ _ hnone := nomatch hnone
        resend c t := hpasses (c.evolves t) }
    apply commitsOnly_of_allows hallows hload
    exact fun c barrier heq => hregister ⟨c, barrier, heq⟩

/-- Whatever an operation writes leaves trackers hashed. -/
theorem Operation.passesOn_hashed (now : Instant) {o : Operation} (hload : o ≠ load) :
  Scheduler.CommitsOnly (PassesOn Tracker.Hashed) True
    (o.perform now : Attempt (Scheduler p σ) Answer)
  := by
  apply passesOn_of_amend now _ _ hload
  · exact fun hf ht => (Board.evolves_amend now hf).hashed ht
  · exact fun s => Scheduler.planNew_hashed s now

/-- Over a store with hashed rows all trackers are hashed, after whatever operations. -/
theorem Reachable.hashed {settings : Settings} {listening : Bool} {store : σ}
    {permitted : Scheduler (.ofCount settings.partitions) σ → Operation → Prop}
    {s : Scheduler (.ofCount settings.partitions) σ}
    (hrows : ∀ k t, (LawfulStore.rows store).find? k = some t → t.Hashed)
    (hs : Reachable permitted (Scheduler.start settings listening store) s) (k : Key) :
  s.grid.HashedAt k
  := (hs.all (fun now _ => Operation.passesOn_hashed now) hrows).tracked k

/-! ### How trackers come about -/

/--
The ways in which a tracker is made: of a chunk, by giving it match keys, by reading a row, by
registering a chunk, and by operations on trackers which were made before.
-/
inductive Tracker.Made : Tracker → Prop
  | tracked (now : Instant) (c : Chunk) : Made (c.track now)
  | rekeyed (keys : SortedSet String) (t : Tracker) : Made (t.withMatchKeys keys)
  | read {r : Row} {t : Tracker} (h : r.tracker = .ok t) : Made t
  | registered {p : Partitioner} {σ : Type} [Store σ] {s : Scheduler p σ} {now : Instant}
      {c : Chunk} {barrier : Option String} {t : Tracker}
      (hs : s.grid.isLive c.key = true → ∀ k u, s.grid.find? k = some u → Made u)
      (h : (Scheduler.register now c barrier).outcome s = .ok t) : Made t
  | found {σ : Type} [Store σ] [LawfulStore σ] {settings : Settings} {listening : Bool}
      {store : σ} {s : Scheduler (.ofCount settings.partitions) σ} {k : Key} {t : Tracker}
      (hrows : ∀ k u, (LawfulStore.rows store).find? k = some u → Made u)
      (hs : Reachable (fun _ _ => True) (Scheduler.start settings listening store) s)
      (h : s.grid.find? k = some t) : Made t

theorem Tracker.Made.hashed {t : Tracker} (ht : t.Made) :
  t.Hashed
  := by
  induction ht with
  | tracked now c => rfl
  | rekeyed keys t => rfl
  | read h => exact Row.hashes_of_tracker h
  | @registered _ _ _ s now c barrier t _ h ih =>
    rcases (Scheduler.register_hashed now barrier ih).outcome_cases with
      ⟨u, hu, hhashed⟩ | ⟨e, he, -⟩
    · cases hu.symm.trans h
      exact hhashed
    · cases he.symm.trans h
  | found _ hs h ih => exact hs.hashed ih _ _ h

/--
The hashes of match keys ascend, each once, and a tracker with this list has just these hashes.
Every tracker made has the list of its own match keys.  So the query for some hashes and a barrier
holds of it exactly if it is live, of the lane asked for, and one of its match keys has one of the
hashes or that of the barrier.
-/
theorem lookup_means_sharing :
  (∀ keys, (MatchKey.hashes keys).Pairwise (· < ·) ∧
    ∀ h, h ∈ MatchKey.hashes keys ↔ ∃ key ∈ keys, MatchKey.hash key = h) ∧
  (∀ (keys : SortedSet String) (t : Tracker), t.hashes = MatchKey.hashes keys →
    ∀ h, t.hasHash h = true ↔ h ∈ MatchKey.hashes keys) ∧
  (∀ t : Tracker, t.Made → t.hashes = MatchKey.hashes t.matchKeys) ∧
  ∀ t : Tracker, t.Made →
    ∀ (sink submitter : Int32) (hashes : List Int32) (barrier : Option String),
    (Query.Sharing.of sink submitter hashes barrier).holds t = true ↔
      t.isLive = true ∧ t.sink = sink ∧ t.submitter = submitter ∧
        ∃ key ∈ t.matchKeys, MatchKey.hash key ∈ hashes ∨
          ∃ b, barrier = some b ∧ MatchKey.hash b = MatchKey.hash key
  := by
  refine ⟨?_, ?_, fun _ ht => ht.hashed, fun _ ht _ _ _ _ => Query.Sharing.holds_iff ht.hashed⟩
  · exact fun keys => ⟨MatchKey.pairwise_hashes keys, fun _ => MatchKey.mem_hashes⟩
  · intro keys t ht h
    rw [MatchKey.mem_hashes, Tracker.hasHash_iff_of_hashes ht]

/-- The match keys "Aa" and "BB" have one hash; the chunk with the first shares it with the
second. -/
theorem lookup_means_sharing_of_collision :
  let s := Scheduler.start .standard true (Memory.ofList [])
  let t : Tracker := { ((Chunk.sample 1 1 ["Aa"]).withMatchKey "b").track default with
    status := .queuedForProcessing }
  (Scheduler.register default (.sample 1 1 ["Aa"]) (some "b")).outcome s = .ok t ∧
    t.hashes = MatchKey.hashes t.matchKeys ∧ t.hasHash (MatchKey.hash "b") = true ∧
    (Query.Sharing.of 1 1 [MatchKey.hash "BB", 7, MatchKey.hash "BB"] none).holds t = true
  := by
  intro s t
  have hnew : s.grid.isLive (Chunk.sample 1 1 ["Aa"]).key = false := by decide +kernel
  have hregistered : (Scheduler.register default (.sample 1 1 ["Aa"]) (some "b")).outcome s
      = .ok t := by
    decide +kernel
  have ht : t.Made := .registered (fun hlive => nomatch hnew.symm.trans hlive) hregistered
  obtain ⟨hkeys, hhas, hmade, hholds⟩ := lookup_means_sharing
  have hhashes := hmade t ht
  refine ⟨hregistered, hhashes, ?_, ?_⟩
  · apply (hhas t.matchKeys t hhashes _).mpr
    apply ((hkeys t.matchKeys).2 _).mpr ⟨"b", by decide +kernel, rfl⟩
  · apply (hholds t ht _ _ _ _).mpr
    exact ⟨rfl, rfl, rfl, "Aa", by decide +kernel, Or.inl (by decide +kernel)⟩

end ChunkDispatch
