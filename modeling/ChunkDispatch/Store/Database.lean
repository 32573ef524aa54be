import ChunkDispatch.SortedMap
import ChunkDispatch.Store
import ChunkDispatch.Store.Refusals
import ChunkDispatch.Store.Row

/-!
# The store in a database

This store keeps the rows of its trackers in the table of a database and works through the
statements sent to it.  Several edits sent together are a transaction: either all are made and
committed, or the table is left as it was.  The table has to be set up before it is used, which a
*migration* does once.
-/

namespace ChunkDispatch

/-- The rows of a table, by key. -/
abbrev Table := SortedMap Key Row

/-! ### Statements -/

/-- A statement which changes rows. -/
inductive Edit where
  /-- Puts a row in the place of the one with its key. -/
  | upsert (row : Row)
  /-- Deletes the row of a key. -/
  | delete (key : Key)
  /-- Deletes the rows of chunks of one job. -/
  | deleteMany (job : Int32) (chunks : List Int32)

/-- The table after an edit. -/
def Edit.apply : Edit → Table → Table
  | upsert row, t => t.insert row.key row
  | delete k, t => t.erase k
  | deleteMany job chunks, t => t.filter (fun k _ => ¬ (k.job = job ∧ k.chunk ∈ chunks))

/-- A statement sent to the database. -/
inductive Statement where
  /-- Sets the table up, if it is missing. -/
  | createTable
  /-- Reads a row, if there is one, to see whether the table can be reached. -/
  | health
  /-- Reads all keys, in ascending order. -/
  | selectKeys
  /-- Counts the rows by sink and status, ordered by both. -/
  | count
  /-- Reads the row of a key. -/
  | select (key : Key)
  /-- Reads the rows of chunks of one job, in ascending order. -/
  | selectMany (job : Int32) (chunks : List Int32)
  /-- An edit on its own. -/
  | edit (e : Edit)
  /-- A transaction which was committed. -/
  | commit (edits : List Edit)

/-- How far the table was set up by a migration. -/
inductive Migration where
  /-- It was not applied. -/
  | pending
  /-- It was applied as it is. -/
  | applied
  /-- Another migration than the present one was applied. -/
  | altered
deriving DecidableEq, Repr

/-! ### The database -/

/-- A database: its table, if it has one, and the statements which succeeded so far. -/
structure Database where
  table : Option Table
  migration : Migration
  refusals : Refusals
  statements : List Statement

namespace Database

/-- A database without the table. -/
def empty : Database :=
  ⟨none, .pending, .none, []⟩

/-- A database whose table holds the rows of a list. -/
def ofRows (rows : List Row) : Database :=
  ⟨some (SortedMap.ofList (rows.map (fun r => (r.key, r)))), .pending, .none, []⟩

/-- The rows of the table. -/
def rows (db : Database) : List Row :=
  (db.table.getD ∅).values

/-- The database after somebody else put a row into its table, if it has one. -/
def putRow (r : Row) (db : Database) : Database :=
  { db with table := db.table.map (Edit.upsert r).apply }

/-- The database after somebody else altered what it says of an applied migration. -/
def alterMigration (db : Database) : Database :=
  if db.migration = .applied then { db with migration := .altered } else db

/-- Makes a request, which may be refused. -/
def request : Attempt Database Unit := do
  let db ← get
  set { db with refusals := db.refusals.advance }
  if db.refusals.next then
    throw .database

/-- Lists a statement as one which succeeded. -/
def note (s : Statement) : Attempt Database Unit :=
  modify (fun db => { db with statements := db.statements ++ [s] })

/-- Requests something of the table, which must not be missing. -/
def onTable {α : Type} (f : Table → α × Table) : Attempt Database α := do
  request
  let db ← get
  match db.table with
  | none => throw .database
  | some t =>
    let (a, t') := f t
    set { db with table := some t' }
    return a

/-- Sends a statement which reads the table. -/
def query {α : Type} (s : Statement) (f : Table → α) : Attempt Database α := do
  let a ← onTable (fun t => (f t, t))
  note s
  return a

/-- Sends an edit. -/
def edit (e : Edit) : Attempt Database Unit :=
  onTable (fun t => ((), e.apply t))

/-- An attempt whose changes of the table are made only if it succeeds. -/
def transaction {α : Type} (x : Attempt Database α) : Attempt Database α :=
  fun db =>
    match (do let a ← x; request; return a : Attempt Database α) db with
    | .ok a db' => .ok a db'
    | .error e db' => .error e { db' with table := db.table }

/-- Sends edits as one transaction; no edits send nothing. -/
def commit (edits : List Edit) : Attempt Database Unit := do
  if edits.isEmpty then
    return
  transaction (edits.forM edit)
  note (.commit edits)

/-- The chunks of each job among some keys, in the order of the keys. -/
def byJob (ks : List Key) : SortedMap Int32 (List Int32) :=
  ks.foldl (fun m k => m.alter k.job (fun chunks => chunks.getD [] ++ [k.chunk])) ∅

/-- The rows of chunks of one job. -/
def rowsOf (job : Int32) (chunks : List Int32) (t : Table) : List Row :=
  (t.filter (fun k _ => k.job = job ∧ k.chunk ∈ chunks)).values

/-- The number of rows by sink and by status code. -/
def counts (t : Table) : SortedMap Int32 (SortedMap Int16 Nat) :=
  t.values.foldl
    (fun m r =>
      m.alter r.sink (fun codes => (codes.getD ∅).alter r.status (fun n => n.getD 0 + 1)))
    ∅

/-- The number of trackers in the table for each sink and status which has any. -/
def countBySinkAndStatus : Attempt Database (List (Int32 × Status × Nat)) := do
  let found ← query .count (fun t =>
    (counts t).toList.flatMap (fun (sink, codes) =>
      codes.toList.map (fun (code, n) => (sink, code, n))))
  found.mapM (fun (sink, code, n) => do
    let status ← Attempt.ofExcept (Row.readStatus code)
    return (sink, status, n))

/-- Fails unless the table can be reached. -/
def health : Attempt Database Unit :=
  query .health (fun _ => ())

/-- Requests that the table be set up. -/
def createTable : Attempt Database Unit := do
  request
  modify (fun db => { db with table := some (db.table.getD ∅) })

/-- Sets the table up, unless this was done before. -/
def migrate : Attempt Database Unit :=
  fun db =>
    match db.migration with
    | .applied => .ok () db
    | .altered => .error .migrationFailed db
    | .pending =>
      match transaction createTable db with
      | .ok () db' =>
        .ok () { db' with
          migration := .applied
          statements := db'.statements ++ [.createTable] }
      | .error _ db' => .error .migrationFailed db'

instance : Store Database where
  put t := do
    edit (.upsert (.ofTracker t))
    note (.edit (.upsert (.ofTracker t)))
  putAll ts := commit (ts.map (fun t => .upsert (.ofTracker t)))
  delete k := do
    edit (.delete k)
    note (.edit (.delete k))
  deleteAll ks := commit ((byJob ks).toList.map (fun (job, chunks) => .deleteMany job chunks))
  load k := do
    match ← query (.select k) (·.find? k) with
    | none => return none
    | some row => return some (← Attempt.ofExcept row.tracker)
  loadAll ks := do
    let parts ← (byJob ks).toList.mapM (fun (job, chunks) => do
      let rows ← query (.selectMany job chunks) (rowsOf job chunks)
      rows.mapM (fun row => Attempt.ofExcept row.tracker))
    return parts.flatten
  loadKeys := query .selectKeys SortedMap.keys

end Database

end ChunkDispatch
