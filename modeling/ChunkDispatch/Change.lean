import ChunkDispatch.Tracker

/-!
# Changes

A *change* is applied to one tracker and has a result.  A change keeps the key of the tracker,
its lane and its match keys; a wait set it may only make smaller.
-/

namespace ChunkDispatch

namespace Change

/-- The chunk `key` need no longer be waited for. -/
structure Release where
  key : Key
deriving DecidableEq, Repr

/--
Takes the key out of the wait set.  A blocked tracker with nothing left to wait for becomes queued
for processing; the result says whether this happened.
-/
def Release.apply (c : Release) (t : Tracker) : Bool × Tracker :=
  if c.key ∈ t.waitingOn then
    let rest := t.waitingOn.erase c.key
    if rest.isEmpty ∧ t.status = .blocked then
      (true, { t with waitingOn := rest, status := .queuedForProcessing })
    else
      (false, { t with waitingOn := rest })
  else
    (false, t)

/-- The tracker shall be in a status whatever it waits for. -/
structure Force where
  status : Status
deriving DecidableEq, Repr

/--
Puts the tracker into the status, and empties its wait set unless the status is blocked.  A tracker
with nothing to wait for cannot be blocked.  The result says whether the status is another.
-/
def Force.apply (c : Force) (t : Tracker) : Bool × Tracker :=
  if c.status = .blocked then
    if t.waitingOn.isEmpty then (false, t)
    else (decide (t.status ≠ c.status), { t with status := c.status })
  else
    (decide (t.status ≠ c.status), { t with waitingOn := ∅, status := c.status })

/-- The tracker shall go from one status to another. -/
structure Move where
  source : Status
  target : Status
deriving DecidableEq, Repr

/-- Moves the tracker if it is still in the source status; the result says whether it moved. -/
def Move.apply (c : Move) (t : Tracker) : Bool × Tracker :=
  if t.status ≠ c.source ∨ c.source = c.target then (false, t)
  else (true, { t with status := c.target })

/-- The tracker shall have at least a priority. -/
structure Raise where
  priority : Int32
deriving DecidableEq, Repr

/-- Raises the priority; the result is the wait set if the priority was lower before. -/
def Raise.apply (c : Raise) (t : Tracker) : Option (SortedSet Key) × Tracker :=
  if c.priority ≤ t.priority then (none, t)
  else (some t.waitingOn, { t with priority := c.priority })

/-- The chunk shall be sent again. -/
structure Resend where
deriving DecidableEq, Repr

/--
A queued tracker goes back to ready; the result is how often it was sent again.  The count has 32
bits and wraps around.
-/
def Resend.apply (_ : Resend) (t : Tracker) : Int32 × Tracker :=
  match t.status.resendTarget? with
  | some target => (t.retries + 1, { t with status := target, retries := t.retries + 1 })
  | none => (t.retries, t)

/-! ### Records -/

instance : Codec Release :=
  .record ["key"] (fun c => (c.key, ())) (fun (key, ()) => ⟨key⟩)

instance : Codec Force :=
  .record ["status"] (fun c => (c.status, ())) (fun (status, ()) => ⟨status⟩)

instance : Codec Move :=
  .record ["from", "to"] (fun c => (c.source, c.target, ()))
    (fun (source, target, ()) => ⟨source, target⟩)

instance : Codec Raise :=
  .record ["priority"] (fun c => (c.priority, ())) (fun (priority, ()) => ⟨priority⟩)

instance : Codec Resend where
  encode _ := .null
  decode? j := if j.isNull then some ⟨⟩ else none

/-- The result of a change. -/
inductive Result where
  | flag (b : Bool)
  | prerequisites (waitingOn : Option (SortedSet Key))
  | retries (n : Int32)
deriving DecidableEq

end Change

/-- A change of a tracker. -/
inductive Change where
  | release (c : Change.Release)
  | force (c : Change.Force)
  | move (c : Change.Move)
  | raise (c : Change.Raise)
  | resend (c : Change.Resend)
deriving DecidableEq, Repr

/-- Applies a change: its result, and the tracker after it. -/
def Change.apply : Change → Tracker → Change.Result × Tracker
  | .release c, t => (c.apply t).map .flag id
  | .force c, t => (c.apply t).map .flag id
  | .move c, t => (c.apply t).map .flag id
  | .raise c, t => (c.apply t).map .prerequisites id
  | .resend c, t => (c.apply t).map .retries id

end ChunkDispatch
