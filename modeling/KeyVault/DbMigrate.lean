import KeyVault.Interleaving
import KeyVault.JsValue
import KeyVault.Tables
import KeyVault.Utf16
import Mathlib.Data.List.Sort
import Mathlib.Data.List.Lex

/-!
# Schema migrations

dbmigrate.js: a runner lists the migration files, reads which of them are recorded,
and applies the others in order, each in a transaction of its own. The server and
kv-admin both start with a run. The pool and the directory name, which dbInit always
passes, are not checked here.
-/

namespace DbMigrate

open JsValue Programs Interleaving Tables Utf16

/-- The order of `sort()` on strings. -/
def before (a b : String) : Prop := utf16 a ≤ utf16 b

instance : DecidableRel before := fun a b => inferInstanceAs (Decidable (utf16 a ≤ utf16 b))

/-- `/^\d+_.+\.sql$/`. -/
def isMigration (name : String) : Bool :=
  let cs := name.toList
  match cs.dropWhile (fun c => '0' ≤ c && c ≤ '9') with
  | '_' :: rest =>
    decide (rest.length + 1 < cs.length ∧ 4 < rest.length ∧
      rest.drop (rest.length - 4) = ".sql".toList) &&
      !(rest.take (rest.length - 4)).any isLineTerminator
  | _ => false

def migrationsOf (entries : List String) : List String :=
  (entries.filter isMigration).insertionSort before

/-- The migrations directory. Each runner may list the entries in an order of its own. -/
structure Directory where
  listing : ThreadId → List String
  same : ∀ i j, (listing i).Perm (listing j)
  distinct : ∀ i, (listing i).Nodup
  content : String → String

structure ReadError where
  enoent : Bool
  message : String

inductive Call where
  | readdir
  | createTable
  | selectVersions
  | readFile (file : String)
  | connect
  | begin
  /-- The text of a file; PostgreSQL does not see the name. -/
  | query (file sql : String)
  | insertVersion (version : String)
  | commit
  | rollback
  /-- `client.release(true)`: the connection is closed. -/
  | destroy

@[reducible] def Ans : Call → Type
  | .readdir => Except ReadError (List String)
  | .createTable => Except String Unit
  | .selectVersions => Except String (List String)
  | .readFile _ => Except String String
  | .connect => Except String Unit
  | .begin => Except String Unit
  | .query _ _ => Except String Unit
  | .insertVersion _ => Except String Unit
  | .commit => Except String Unit
  | .rollback => Except String Unit
  | .destroy => Except String Unit

/-- A runner throws errors with a message. -/
abbrev Runner (α : Type) := Prog Ans String α

def ask (c : Call) : Runner (Ans c) := Prog.invoke c

structure Summary where
  applied : List String
  skipped : Nat
  deriving DecidableEq

def transaction (file sql : String) : Runner Unit := do
  liftM (← ask .begin)
  liftM (← ask (.query file sql))
  liftM (← ask (.insertVersion file))
  liftM (← ask .commit)

/-- The `catch` block. -/
def giveUp (file message : String) : Runner Unit := do
  let _ ← ask .rollback
  let _ ← ask .destroy
  throw ("dbMigrate: migration " ++ file ++ " failed: " ++ message)

def applyFile (file : String) : Runner Unit := do
  let sql ← liftM (← ask (.readFile file))
  liftM (← ask .connect)
  (transaction file sql).tryCatch (giveUp file)

def applyAll (alreadyApplied : List String) : List String → List String → Runner (List String)
  | [], applied => return applied
  | file :: rest, applied =>
    if alreadyApplied.contains file then applyAll alreadyApplied rest applied
    else do
      applyFile file
      applyAll alreadyApplied rest (applied ++ [file])

def applyPending (migrations : List String) : Runner Summary := do
  liftM (← ask .createTable)
  let alreadyApplied ← liftM (← ask .selectVersions)
  let applied ← applyAll alreadyApplied migrations []
  return ⟨applied, migrations.length - applied.length⟩

def dbMigrate : Runner Summary := do
  match ← ask .readdir with
  | .error e => if e.enoent then return ⟨[], 0⟩ else throw e.message
  | .ok entries => applyPending (migrationsOf entries)

/-- `schema_migrations`, with the version as its primary key. -/
abbrev Versions := Table String (id : String → String)

/-- Committed state: everything else, and `schema_migrations` once it exists. -/
structure Database (D : Type) where
  data : D
  versions : Option Versions

/-- What a transaction has done so far. -/
inductive Work where
  | sql (file text : String)
  | version (v : String)
  deriving DecidableEq

inductive Transaction where
  | live (work : List Work)
  | aborted

structure World (D : Type) where
  db : Database D
  sessions : ThreadId → Option Transaction
  /-- The files whose SQL has been committed, in order, as often as it has been. -/
  committed : List String

variable {D : Type}

/-- The effect of one statement on the state it runs on; `sql` is what a text does. -/
def execute (sql : String → Database D → Database D) :
    Work → Database D → Except String (Database D)
  | .sql _ text, db => .ok (sql text db)
  | .version v, db =>
    match db.versions with
    | none => .error "relation \"schema_migrations\" does not exist"
    | some versions =>
      if (versions.find v).isSome then .error "duplicate key value violates unique constraint"
      else .ok { db with versions := some (versions.insert v) }

/-- A transaction takes effect as a whole, on the state at its commit, or not at all. -/
def replay (sql : String → Database D → Database D) (work : List Work) (db : Database D) :
    Except String (Database D) := work.foldlM (fun db work => execute sql work db) db

def filesOf (work : List Work) : List String :=
  work.filterMap (fun
    | .sql file _ => some file
    | .version _ => none)

def setSession (w : World D) (i : ThreadId) (t : Option Transaction) : World D :=
  { w with sessions := Function.update w.sessions i t }

/-- Work takes effect, and the session has no transaction any more. -/
def commitWork (sql : String → Database D → Database D) (i : ThreadId) (work : List Work)
    (w : World D) : Except String Unit × World D :=
  match replay sql work w.db with
  | .ok db => (.ok (), { setSession w i none with
      db := db, committed := w.committed ++ filesOf work })
  | .error message => (.error message, setSession w i none)

/-- A statement of the session: part of its transaction, or on its own. -/
def runWork (sql : String → Database D → Database D) (i : ThreadId) (work : Work)
    (w : World D) : Except String Unit × World D :=
  match w.sessions i with
  | none => commitWork sql i [work] w
  | some .aborted => (.error "current transaction is aborted", w)
  | some (.live done) =>
    match replay sql (done ++ [work]) w.db with
    | .ok _ => (.ok (), setSession w i (some (.live (done ++ [work]))))
    | .error message => (.error message, setSession w i (some .aborted))

/-- What a call does when it does not fail. -/
def effect (sql : String → Database D → Database D) (dir : Option Directory) (i : ThreadId) :
    (c : Call) → World D → Ans c × World D
  | .readdir, w =>
    (match dir with
      | none => .error ⟨true, "ENOENT"⟩
      | some dir => .ok (dir.listing i), w)
  | .createTable, w =>
    (.ok (), { w with db := { w.db with versions := some (w.db.versions.getD Table.empty) } })
  | .selectVersions, w =>
    (match w.db.versions with
      | none => .error "relation \"schema_migrations\" does not exist"
      | some versions => .ok versions.rows, w)
  | .readFile file, w =>
    (match dir with
      | none => .error "ENOENT"
      | some dir => .ok (dir.content file), w)
  | .connect, w => (.ok (), w)
  | .begin, w => (.ok (), setSession w i (some (.live [])))
  | .query file text, w => runWork sql i (.sql file text) w
  | .insertVersion v, w => runWork sql i (.version v) w
  | .commit, w =>
    match w.sessions i with
    | none => (.ok (), w)
    | some .aborted => (.ok (), setSession w i none)
    | some (.live work) => commitWork sql i work w
  | .rollback, w => (.ok (), setSession w i none)
  | .destroy, w => (.ok (), setSession w i none)

/-- The circumstances of one call: whether it fails, and whether its effect took place
although it is reported as failed. -/
structure Turn where
  fails : Option String := none
  late : Bool := false
  deriving DecidableEq

def failed (message : String) : (c : Call) → Ans c
  | .readdir => .error ⟨false, message⟩
  | .createTable => .error message
  | .selectVersions => .error message
  | .readFile _ => .error message
  | .connect => .error message
  | .begin => .error message
  | .query _ _ => .error message
  | .insertVersion _ => .error message
  | .commit => .error message
  | .rollback => .error message
  | .destroy => .error message

/-- A failed statement aborts its transaction, and a failed COMMIT ends it. -/
def afterFailure (i : ThreadId) (w : World D) : Call → World D
  | .query _ _ => setSession w i ((w.sessions i).map (fun _ => .aborted))
  | .insertVersion _ => setSession w i ((w.sessions i).map (fun _ => .aborted))
  | .commit => setSession w i none
  | _ => w

def perform (sql : String → Database D → Database D) (dir : Option Directory) :
    Perform Ans (World D) Turn := fun i t c w =>
  match t.fails with
  | none => effect sql dir i c w
  | some message =>
    (failed message c, if t.late then (effect sql dir i c w).2 else afterFailure i w c)

/-- An empty history: nothing is recorded, not even the table exists. -/
def start (data : D) : World D := ⟨⟨data, none⟩, fun _ => none, []⟩

/-- Any number of runners, each with its own connection. -/
def runs (sql : String → Database D → Database D) (dir : Option Directory) (data : D)
    (schedule : Schedule Turn) : Pool Ans String Summary (World D) :=
  Pool.exec (perform sql dir) schedule ⟨fun _ => dbMigrate, start data⟩

end DbMigrate
