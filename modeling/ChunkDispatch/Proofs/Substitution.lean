import ChunkDispatch.Proofs.Correspondence

/-!
# Schedulers over two stores

Operations other than loading reach the store through its four writes alone.  So if these writes are
alike in two stores, with states related by `S`, then a scheduler and one which has the other store
in the place of its own, in a state related by `S`, correspond: whatever they are asked to do, they
answer alike and differ in their stores alone.
-/

namespace ChunkDispatch

open Attempt

variable {p : Partitioner} {σ τ : Type} {S : σ → τ → Prop}

/-- The writes of both stores are alike under `S`. -/
structure Store.WritesAlike [Store σ] [Store τ] (S : σ → τ → Prop) : Prop where
  put {a : σ} {b : τ} : S a b → ∀ t, Alike S (Store.put t) a (Store.put t) b
  putAll {a : σ} {b : τ} : S a b → ∀ ts, Alike S (Store.putAll ts) a (Store.putAll ts) b
  delete {a : σ} {b : τ} : S a b → ∀ k, Alike S (Store.delete k) a (Store.delete k) b
  deleteAll {a : σ} {b : τ} : S a b → ∀ ks, Alike S (Store.deleteAll ks) a (Store.deleteAll ks) b

namespace Board

/-- The boards are well filed and differ in nothing but their stores, which are related by `S`. -/
structure Over (S : σ → τ → Prop) (b : Board p σ) (b' : Board p τ) : Prop where
  store : S b.store b'.store
  grid : b.grid = b'.grid
  lastSeq : b.lastSeq = b'.lastSeq
  log : b.log = b'.log
  book : b.book = b'.book
  filed : b'.grid.WellFiled

namespace Over

variable {b : Board p σ} {b' : Board p τ} (h : b.Over S b') {now : Instant}

include h

theorem emit (old new : Option Tracker) :
  (b.emit now old new).Over S (b'.emit now old new)
  := by
  rw [Board.emit, Board.emit]
  split
  · exact h
  · rw [← h.lastSeq, ← h.log, ← h.book]
    exact ⟨h.store, h.grid, rfl, rfl, rfl, h.filed⟩

theorem place (t : Tracker) :
  (b.place now t).Over S (b'.place now t)
  := by
  rw [Board.place, Board.place, h.grid]
  apply emit
  exact ⟨h.store, rfl, h.lastSeq, h.log, h.book, h.filed.insert t⟩

theorem drop (k : Key) :
  (b.drop now k).Over S (b'.drop now k)
  := by
  rw [Board.drop, Board.drop, h.grid]
  apply emit
  exact ⟨h.store, rfl, h.lastSeq, h.log, h.book, h.filed.erase k⟩

theorem foldl_place (ts : List Tracker) :
  (ts.foldl (fun b t => b.place now t) b).Over S (ts.foldl (fun b t => b.place now t) b')
  := by
  induction ts generalizing b b' with
  | nil => exact h
  | cons t rest ih => apply ih (h.place t)

theorem foldl_drop (ks : List Key) :
  (ks.foldl (fun b k => b.drop now k) b).Over S (ks.foldl (fun b k => b.drop now k) b')
  := by
  induction ks generalizing b b' with
  | nil => exact h
  | cons k rest ih => apply ih (h.drop k)

theorem onStore_alike {α : Type} {x : Attempt σ α} {y : Attempt τ α}
    (hxy : Alike S x b.store y b'.store) :
  Alike (Over S) (onStore x) b (onStore y) b'
  := by
  apply alike_within hxy
  exact fun _ _ hS => ⟨hS, h.grid, h.lastSeq, h.log, h.book, h.filed⟩

/-! ### Actions -/

variable [Store σ] [Store τ] (hS : Store.WritesAlike S)

include hS

theorem set_alike (t : Tracker) :
  Alike (Over S) (set now t) b (set now t) b'
  := by
  apply (h.onStore_alike (hS.put h.store t)).bind
  exact fun _ _ _ ht => alike_modify (ht.place t)

theorem remove_alike (k : Key) :
  Alike (Over S) (remove now k) b (remove now k) b'
  := by
  apply (h.onStore_alike (hS.delete h.store k)).bind
  intro _ c c' hc
  apply alike_get
  rw [hc.grid]
  apply (alike_modify (hc.drop k)).bind_pure

theorem removeWhere_alike (q : Tracker → Bool) :
  Alike (Over S) (removeWhere now q) b (removeWhere now q) b'
  := by
  apply (alike_mapM _ _ h).bind_pure
  intro i c c' hc
  apply alike_get
  rw [hc.grid]
  apply alike_ite
  · exact fun _ => alike_pure [] hc
  · intro _
    apply (hc.onStore_alike (hS.deleteAll hc.store _)).bind
    intro _ d d' hd
    apply (alike_modify (hd.foldl_drop _)).bind_pure

theorem adjust_alike {α : Type} (k : Key) (f : Tracker → α × Tracker) :
  Alike (Over S) (adjust now k f) b (adjust now k f) b'
  := by
  apply alike_get
  rw [h.grid]
  cases b'.grid.find? k with
  | none => apply alike_pure none h
  | some t =>
    simp only
    cases changed? now t (f t).2 with
    | none => apply alike_pure (some (f t).1) h
    | some t' => apply (h.set_alike hS t').bind_pure

theorem adjustWhere_alike {α : Type} (q : Tracker → Bool) (f : Tracker → α × Tracker) :
  Alike (Over S) (adjustWhere now q f) b (adjustWhere now q f) b'
  := by
  apply (alike_mapM _ _ h).bind_pure
  intro i c c' hc
  apply alike_get
  rw [hc.grid]
  apply alike_ite
  · intro _
    apply (hc.onStore_alike (hS.putAll hc.store _)).bind
    intro _ d d' hd
    apply (alike_modify (hd.foldl_place _)).bind_pure
  · exact fun _ => alike_pure _ hc

end Over

end Board

namespace Scheduler

/-- The schedulers differ in nothing but the stores of their boards, which are related by `S`. -/
structure Over (S : σ → τ → Prop) (s : Scheduler p σ) (s' : Scheduler p τ) : Prop where
  board : s.board.Over S s'.board
  settings : s.settings = s'.settings
  ready : s.ready = s'.ready

namespace Over

variable {s : Scheduler p σ} {s' : Scheduler p τ} (h : s.Over S s')

include h

theorem onBoard_alike {α : Type} {x : Attempt (Board p σ) α} {y : Attempt (Board p τ) α}
    (hxy : Alike (Board.Over S) x s.board y s'.board) :
  Alike (Over S) (onBoard x) s (onBoard y) s'
  := by
  apply alike_within hxy
  exact fun _ _ hb => ⟨hb, h.settings, h.ready⟩

theorem shows :
  s.ShowsAs s'
  where
  find? k := congrArg (Grid.find? · k) h.board.grid
  values q := congrArg (Grid.values q) h.board.grid
  keys q := congrArg (Grid.keys q) h.board.grid
  size := congrArg Grid.size h.board.grid
  tally _ := congrArg (Grid.tally _) h.board.grid
  book := h.board.book
  ready := h.ready
  retention := congrArg Settings.retention h.settings
  maxEnqueued := congrArg Settings.maxEnqueued h.settings
  directMark := congrArg Settings.directMark h.settings

theorem mapBook {f f' : Book → Book} (hf : f s.book = f' s'.book) :
  (s.mapBook f).Over S (s'.mapBook f')
  := by
  obtain ⟨hstore, hgrid, hseq, hlog, -, hfiled⟩ := h.board
  exact ⟨⟨hstore, hgrid, hseq, hlog, hf, hfiled⟩, h.settings, h.ready⟩

theorem send (k : Key) :
  (s.send k).Over S (s'.send k)
  := by
  rw [Scheduler.send, Scheduler.send, h.ready]
  split
  · exact ⟨h.board, h.settings, rfl⟩
  · exact h

end Over

/-- Schedulers over stores whose writes are alike correspond. -/
theorem corresponds_over [Store σ] [Store τ] (hS : Store.WritesAlike S) (now : Instant) :
  Corresponds now (Over S : Scheduler p σ → Scheduler p τ → Prop)
  where
  filed h := h.board.filed
  shows := Over.shows
  mapBook := Over.mapBook
  send := Over.send
  set h t := h.onBoard_alike (h.board.set_alike hS t)
  remove h k := h.onBoard_alike (h.board.remove_alike hS k)
  removeWhere h q := h.onBoard_alike (h.board.removeWhere_alike hS q)
  adjust h k f := h.onBoard_alike (h.board.adjust_alike hS k f)
  adjustWhere h q f _ _ := h.onBoard_alike (h.board.adjustWhere_alike hS q f)

end Scheduler

end ChunkDispatch
