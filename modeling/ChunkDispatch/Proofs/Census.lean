import ChunkDispatch.Proofs.Operation
import ChunkDispatch.Proofs.Step
import ChunkDispatch.Proofs.Tally
import ChunkDispatch.Proofs.Run

/-!
# The census

The *census* of a grid says how many trackers there are of a sink in a status, and the book *counts*
a status rightly if it says the same of every sink.  An event takes one chunk off a count, or gives
one to it, or both.  The events of whatever is committed keep the book right in a status, as long as
no tracker in that status is replaced by one of another sink; then every chunk they take off was
counted before.  No live tracker is ever replaced so, hence the live counts are always right.
-/

namespace ChunkDispatch

open Attempt

/-! ### The census of a grid -/

/-- The tracker is one of a sink in a status. -/
def Tracker.isOf (sink : Int32) (status : Status) (t : Tracker) : Bool :=
  t.sink = sink ∧ t.status = status

namespace Grid

variable {p : Partitioner} {g : Grid p} {sink : Int32} {status : Status}

/-- How many trackers there are of a sink in a status. -/
def census (g : Grid p) (sink : Int32) (status : Status) : Nat :=
  g.trackers.countP (Tracker.isOf sink status)

/-- A tracker inserted comes to those with other keys. -/
theorem perm_insert (hg : g.WellFiled) (t : Tracker) :
  (g.insert t).trackers.Perm (t :: (g.erase t.key).trackers)
  := by
  have hmem : ∀ u, u ∈ (g.erase t.key).trackers ↔ u.key ≠ t.key ∧ u ∈ g.trackers := by
    intro u
    rw [mem_trackers (hg.erase _), mem_trackers hg, find?_erase]
    by_cases hu : u.key = t.key <;> simp [hu]
  apply (List.perm_ext_iff_of_nodup (nodup_trackers (hg.insert t)) _).mpr
  · intro u
    rw [mem_trackers (hg.insert t), find?_insert, List.mem_cons, hmem, mem_trackers hg]
    by_cases hu : u.key = t.key
    · simp [hu, eq_comm]
    · have hne : u ≠ t := fun heq => hu (congrArg Tracker.key heq)
      simp [hu, hne]
  · apply List.nodup_cons.mpr ⟨_, nodup_trackers (hg.erase _)⟩
    exact fun ht => ((hmem t).mp ht).1 rfl

/-- A key which is not tracked is erased in vain. -/
theorem erase_eq_of_find? (hg : g.WellFiled) {k : Key} (hk : g.find? k = none) :
  g.erase k = g
  := by
  apply (hg.erase k).ext hg
  intro j
  rw [find?_erase]
  split
  · rename_i hj
    rw [hj, hk]
  · rfl

theorem census_insert (hg : g.WellFiled) (t : Tracker) :
  (g.insert t).census sink status
    = (g.erase t.key).census sink status + (t.isOf sink status).toNat
  := by
  rw [census, (perm_insert hg t).countP_eq, List.countP_cons, census]
  cases t.isOf sink status <;> rfl

theorem census_erase (hg : g.WellFiled) (k : Key) :
  g.census sink status
    = (g.erase k).census sink status + ((g.find? k).any (Tracker.isOf sink status)).toNat
  := by
  cases ht : g.find? k with
  | none =>
    rw [erase_eq_of_find? hg ht]
    rfl
  | some t =>
    obtain rfl := hg.key ht
    have hsame : g.insert t = g := by
      apply (hg.insert t).ext hg
      intro j
      rw [find?_insert]
      split
      · rename_i hj
        rw [hj, ht]
      · rfl
    conv_lhs => rw [← hsame, census_insert hg]
    rfl

end Grid

/-! ### What events do to a book -/

namespace EventKind

/-- The event takes a chunk of a sink out of a status. -/
def takes (sink : Int32) (status : Status) : EventKind → Bool
  | added _ _ _ => false
  | updated _ sink' source target => sink' = sink ∧ source = status ∧ source ≠ target
  | removed _ sink' source => sink' = sink ∧ source = status

/-- The event brings a chunk of a sink into a status. -/
def gives (sink : Int32) (status : Status) : EventKind → Bool
  | added _ sink' target => sink' = sink ∧ target = status
  | updated _ sink' source target => sink' = sink ∧ target = status ∧ source ≠ target
  | removed _ _ _ => false

/-- No tracker in the status is replaced by one of another sink. -/
def KeepsSink (status : Status) (old new : Option Tracker) : Prop :=
  ∀ t u, old = some t → new = some u → t.status = status → u.sink = t.sink

/-- What an event takes was there before, and what it gives is there after it. -/
theorem ofChange?_balance {old new : Option Tracker} {kind : EventKind}
    (hkind : ofChange? old new = some kind) {status : Status} (h : KeepsSink status old new)
    (sink : Int32) :
  (kind.takes sink status = true → old.any (Tracker.isOf sink status) = true) ∧
    (old.any (Tracker.isOf sink status)).toNat + (kind.gives sink status).toNat
      = (new.any (Tracker.isOf sink status)).toNat + (kind.takes sink status).toNat
  := by
  cases old with
  | none =>
    cases new with
    | none => cases hkind
    | some u =>
      cases hkind
      simp [takes, gives, Tracker.isOf]
  | some t =>
    cases new with
    | none =>
      cases hkind
      simp [takes, gives, Tracker.isOf]
    | some u =>
      cases hkind
      have hsink := h t u rfl rfl
      by_cases ht : t.status = status
      · by_cases hu : u.status = status
        · simp [takes, gives, Tracker.isOf, ht, hu, hsink ht]
        · have hne : t.status ≠ u.status := fun heq => hu (heq.symm.trans ht)
          simp [takes, gives, Tracker.isOf, ht, hu, hsink ht, Ne.symm hu]
      · by_cases hu : u.status = status
        · simp [takes, gives, Tracker.isOf, ht, hu]
        · simp [takes, gives, Tracker.isOf, ht, hu]

end EventKind

namespace Book

variable {b : Book} {sink : Int32} {status : Status}

/-- How many chunks of a sink the book counts in a status. -/
def count (b : Book) (sink : Int32) (status : Status) : Nat :=
  SinkStatus.countIn b.sinks sink status

theorem count_get (b : Book) (now : Instant) (sink : Int32) (status : Status) :
  (b.get now sink).count status = b.count sink status
  := SinkStatus.count_getD_fresh now _ status

theorem count_put (sink' : Int32) (s : SinkStatus) :
  (b.put sink' s).count sink status = if sink = sink' then s.count status else b.count sink status
  := by
  rw [count, SinkStatus.countIn, put, SortedMap.find?_insert]
  split <;> rfl

theorem count_update (now : Instant) (sink' : Int32) (f : SinkStatus → SinkStatus) :
  (b.update now sink' f).count sink status
    = if sink = sink' then (f (b.get now sink')).count status else b.count sink status
  := count_put _ _

/-- The mode of a queue is no matter of the counts. -/
theorem count_setMode (now : Instant) (sink' : Int32) (phase : Phase) (mode : SubmitMode) :
  (b.update now sink' (·.mapQueue phase (·.setMode now mode))).count sink status
    = b.count sink status
  := by
  rw [count_update]
  split
  · rename_i hsink
    rw [SinkStatus.count_setMode, count_get, hsink]
  · rfl

theorem count_updateMode (max mark : Nat) (now : Instant) (sink' : Int32) (phase : Phase) :
  (b.updateMode max mark now sink' phase).2.count sink status = b.count sink status
  := by
  have heq : (b.updateMode max mark now sink' phase).2 = b.update now sink'
      (·.mapQueue phase
        (·.setMode now (((b.get now sink').queue phase).dueMode max mark now))) := by
    cases phase <;> rfl
  rw [heq, count_setMode]

/-- An event changes the counts by what it takes and gives. -/
theorem count_observe (e : Event) :
  (b.observe e).count sink status
    = b.count sink status - (e.kind.takes sink status).toNat + (e.kind.gives sink status).toNat
  := by
  obtain ⟨_, now, kind⟩ := e
  cases kind with
  | added k sink' target =>
    simp only [observe, count_update, SinkStatus.count_add, count_get, EventKind.takes,
      EventKind.gives]
    by_cases hsink : sink = sink'
    · by_cases hstatus : status = target <;> simp [hsink, hstatus, eq_comm]
    · simp [hsink, Ne.symm hsink]
  | removed k sink' source =>
    simp only [observe, count_update, SinkStatus.count_remove, count_get, EventKind.takes,
      EventKind.gives]
    by_cases hsink : sink = sink'
    · by_cases hstatus : status = source <;> simp [hsink, hstatus, eq_comm]
    · simp [hsink, Ne.symm hsink]
  | updated k sink' source target =>
    simp only [observe, EventKind.takes, EventKind.gives]
    split
    · rename_i hsame
      simp [hsame]
    · rename_i hne
      simp only [count_update, SinkStatus.count_add, SinkStatus.count_remove, count_get]
      by_cases hsink : sink = sink'
      · by_cases htarget : status = target
        · simp [hsink, htarget, hne, Ne.symm hne]
        · by_cases hsource : status = source <;>
            simp [hsink, htarget, hsource, Ne.symm htarget, hne, eq_comm]
      · simp [hsink, Ne.symm hsink]

/-- The book after events, one after another. -/
def observeAll (es : List Event) (b : Book) : Book :=
  es.foldl (fun b e => b.observe e) b

theorem observeAll_append (es es' : List Event) (b : Book) :
  b.observeAll (es ++ es') = (b.observeAll es).observeAll es'
  := List.foldl_append

/-- Books with the same counts have the same counts after the same events. -/
theorem count_observeAll_congr {b' : Book}
    (h : ∀ sink status, b.count sink status = b'.count sink status) (es : List Event) :
  ∀ sink status, (b.observeAll es).count sink status = (b'.observeAll es).count sink status
  := by
  induction es generalizing b b' with
  | nil => exact h
  | cons e rest ih =>
    apply ih
    intro sink status
    rw [count_observe, count_observe, h]

/-- Whatever chunks events take out of the status, the book counts before. -/
def Affords (status : Status) : Book → List Event → Prop
  | _, [] => True
  | b, e :: es =>
    (∀ sink, e.kind.takes sink status = true → 0 < b.count sink status) ∧
      Affords status (b.observe e) es

theorem affords_append {es es' : List Event} :
  b.Affords status (es ++ es') ↔ b.Affords status es ∧ (b.observeAll es).Affords status es'
  := by
  induction es generalizing b with
  | nil => simp [Affords, observeAll]
  | cons e rest ih =>
    rw [List.cons_append, Affords, Affords, ih, and_assoc]
    rfl

/-- The book counts for every sink as many chunks in the status as the grid has trackers. -/
def Counts {p : Partitioner} (status : Status) (b : Book) (g : Grid p) : Prop :=
  ∀ sink, b.count sink status = g.census sink status

end Book

/-! ### Events of what is committed -/

namespace Board

open EventKind

variable {p : Partitioner} {σ : Type} {status : Status} {b b' b'' : Board p σ}

/--
The events from `b` to `b'` take out of the status only what was counted there, and make every book
which is right in the status for `b` right for `b'`.
-/
def Accounts (status : Status) (b b' : Board p σ) : Prop :=
  ∃ es, b'.log = b.log ++ es ∧ ∀ book : Book, book.Counts status b.grid →
    book.Affords status es ∧ (book.observeAll es).Counts status b'.grid

theorem accounts_of_eq (hgrid : b'.grid = b.grid) (hlog : b'.log = b.log) :
  b.Accounts status b'
  := by
  use []
  rw [hlog, hgrid, List.append_nil]
  exact ⟨rfl, fun _ h => ⟨trivial, h⟩⟩

theorem Accounts.trans (h : b.Accounts status b') (h' : b'.Accounts status b'') :
  b.Accounts status b''
  := by
  obtain ⟨es, hlog, hes⟩ := h
  obtain ⟨es', hlog', hes'⟩ := h'
  use es ++ es'
  constructor
  · rw [hlog', hlog, List.append_assoc]
  · intro book hbook
    obtain ⟨haffords, hcounts⟩ := hes book hbook
    obtain ⟨haffords', hcounts'⟩ := hes' _ hcounts
    rw [Book.affords_append, Book.observeAll_append]
    exact ⟨⟨haffords, haffords'⟩, hcounts'⟩

/-- One event accounts for one tracker taken out of the census and one brought into it. -/
theorem emit_accounts (now : Instant) {old new : Option Tracker} {g' : Grid p}
    (hkeeps : KeepsSink status old new) (hcensus : ∀ sink, ∃ n,
      b.grid.census sink status = n + (old.any (Tracker.isOf sink status)).toNat ∧
      g'.census sink status = n + (new.any (Tracker.isOf sink status)).toNat) :
  b.Accounts status (emit now old new { b with grid := g' })
  := by
  rw [emit]
  split
  · rename_i hnone
    refine ⟨[], (List.append_nil _).symm, ?_⟩
    intro book hbook
    use trivial
    intro sink
    obtain ⟨n, hold, hnew⟩ := hcensus sink
    change book.count sink status = g'.census sink status
    rw [hbook sink, hold, hnew]
    cases old <;> cases new <;> first | rfl | cases hnone
  · rename_i kind hkind
    refine ⟨[_], rfl, ?_⟩
    intro book hbook
    refine ⟨⟨?_, trivial⟩, ?_⟩
    · intro sink htakes
      obtain ⟨n, hold, -⟩ := hcensus sink
      rw [hbook sink, hold, (ofChange?_balance hkind hkeeps sink).1 htakes]
      apply Nat.succ_pos
    · intro sink
      obtain ⟨n, hold, hnew⟩ := hcensus sink
      obtain ⟨htakes, hbalance⟩ := ofChange?_balance hkind hkeeps sink
      change (book.observe _).count sink status = g'.census sink status
      rw [Book.count_observe, hbook sink, hold, hnew]
      change _ - (kind.takes sink status).toNat + (kind.gives sink status).toNat = _
      have hle : (kind.takes sink status).toNat ≤ (old.any (Tracker.isOf sink status)).toNat := by
        cases h : kind.takes sink status with
        | false => apply Nat.zero_le
        | true => rw [htakes h]
      omega

theorem place_accounts (hb : b.grid.WellFiled) (now : Instant) {t : Tracker}
    (hkeeps : KeepsSink status (b.grid.find? t.key) (some t)) :
  b.Accounts status (place now t b)
  := by
  apply emit_accounts now hkeeps
  intro sink
  exact ⟨_, Grid.census_erase hb t.key, Grid.census_insert hb t⟩

theorem drop_accounts (hb : b.grid.WellFiled) (now : Instant) (k : Key) :
  b.Accounts status (drop now k b)
  := by
  apply emit_accounts now
  · intro _ _ _ hnew
    cases hnew
  · intro sink
    exact ⟨_, Grid.census_erase hb k, rfl⟩

section Along

/-! ### Relations along commits -/

variable {P : Option Tracker → Option Tracker → Prop} {R : Board p σ → Board p σ → Prop}
variable (hrefl : ∀ {b b' : Board p σ}, b'.grid = b.grid → b'.log = b.log → R b b')
variable (htrans : ∀ {b b' b'' : Board p σ}, R b b' → R b' b'' → R b b'')

include hrefl htrans

theorem foldl_place_along (hplace : ∀ (b : Board p σ) (now : Instant) (t : Tracker),
      b.grid.WellFiled → P (b.grid.find? t.key) (some t) → R b (place now t b))
    (now : Instant) {ts : List Tracker} (hts : (ts.map Tracker.key).Nodup)
    (hb : b.grid.WellFiled) (hP : ∀ t ∈ ts, P (b.grid.find? t.key) (some t)) :
  R b (ts.foldl (fun b t => b.place now t) b)
  := by
  induction ts generalizing b with
  | nil => apply hrefl rfl rfl
  | cons t rest ih =>
    obtain ⟨ht, hrest⟩ := List.nodup_cons.mp hts
    apply htrans (hplace b now t hb (hP t List.mem_cons_self))
    apply ih hrest
    · rw [place_grid]
      apply hb.insert
    · intro u hu
      rw [place_grid, Grid.find?_insert, if_neg]
      · apply hP u (List.mem_cons_of_mem t hu)
      · intro hkey
        apply ht
        apply List.mem_map.mpr ⟨u, hu, hkey⟩

theorem foldl_drop_along (hdrop : ∀ (b : Board p σ) (now : Instant) (k : Key),
      b.grid.WellFiled → P (b.grid.find? k) none → R b (drop now k b))
    (now : Instant) (ks : List Key) (hb : b.grid.WellFiled)
    (hP : ∀ k ∈ ks, b.grid.find? k = none ∨ P (b.grid.find? k) none) :
  R b (ks.foldl (fun b k => b.drop now k) b)
  := by
  induction ks generalizing b with
  | nil => apply hrefl rfl rfl
  | cons k rest ih =>
    have hfirst : R b (drop now k b) := by
      obtain hnone | hold := hP k List.mem_cons_self
      · -- nothing is told of a key which is dropped again
        apply hrefl
        · rw [drop_grid]
          apply Grid.erase_eq_of_find? hb hnone
        · rw [drop, hnone]
          rfl
      · apply hdrop b now k hb hold
    apply htrans hfirst
    apply ih
    · rw [drop_grid]
      apply hb.erase
    · intro j hj
      rw [drop_grid, Grid.find?_erase]
      split
      · exact Or.inl rfl
      · apply hP j (List.mem_cons_of_mem k hj)

variable [Store σ] [LawfulStore σ]

/-- What holds where nothing is told, and of each change that is told, holds along commits. -/
theorem Commits.along (hplace : ∀ (b : Board p σ) (now : Instant) (t : Tracker),
      b.grid.WellFiled → P (b.grid.find? t.key) (some t) → R b (place now t b))
    (hdrop : ∀ (b : Board p σ) (now : Instant) (k : Key),
      b.grid.WellFiled → P (b.grid.find? k) none → R b (drop now k b))
    (h : b.Commits P b') (hb : b.grid.WellFiled) :
  R b b'
  := by
  induction h with
  | refl => apply hrefl rfl rfl
  | @tail b₁ b₂ hcommits hstep ih =>
    apply htrans ih
    have hb₁ : b₁.grid.WellFiled := Commits.filed hcommits hb
    cases hstep with
    | refused h =>
      obtain ⟨-, s, -, rfl⟩ := h
      apply hrefl
      · rfl
      · rfl
    | put h hdistinct hput =>
      obtain ⟨s, -, -, rfl⟩ := h
      have hstore : R b₁ { b₁ with store := s } := hrefl rfl rfl
      apply htrans hstore
      apply foldl_place_along hrefl htrans hplace _ hdistinct
      · exact hb₁
      · exact hput
    | delete h hdelete =>
      obtain ⟨s, -, -, rfl⟩ := h
      have hstore : R b₁ { b₁ with store := s } := hrefl rfl rfl
      apply htrans hstore
      apply foldl_drop_along hrefl htrans hdrop
      · exact hb₁
      · exact fun k hk => Or.inr (hdelete k hk)
    | book h =>
      obtain ⟨book, rfl⟩ := h
      apply hrefl
      · rfl
      · rfl

end Along

variable [Store σ] [LawfulStore σ] {P : Option Tracker → Option Tracker → Prop}

/-- The events of commits account for them. -/
theorem Commits.accounts (h : b.Commits P b')
    (hP : ∀ old new, P old new → KeepsSink status old new) (hb : b.grid.WellFiled) :
  b.Accounts status b'
  := by
  apply h.along accounts_of_eq Accounts.trans _ _ hb
  · exact fun b now t hb ht => place_accounts hb now (hP _ _ ht)
  · exact fun b now k hb _ => drop_accounts hb now k

theorem Commit.accounts (h : b.Commit P b') (hP : ∀ old new, P old new → KeepsSink status old new)
    (hb : b.grid.WellFiled) :
  b.Accounts status b'
  := Commits.accounts (Relation.ReflTransGen.single h) hP hb

end Board

end ChunkDispatch
