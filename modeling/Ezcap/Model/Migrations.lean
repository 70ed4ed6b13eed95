import Ezcap.Library.Format
import Ezcap.Library.Transaction

/-! The migrations of the event store, from `migrations.cpp` and `sqlite_store.cpp`. A database is
what was executed on it and its `user_version`; what each call into SQLite comes to is given. -/

namespace Ezcap.Migrations

open StdString Transaction

structure Migration where
  version : UInt32
  statements : List Bytes

def kMigrations : List Migration :=
  [{ version := 1
     statements :=
      [cstr "\nCREATE TABLE IF NOT EXISTS events (\n  id INTEGER PRIMARY KEY AUTOINCREMENT,\n" ++
        cstr "  event_id TEXT NOT NULL UNIQUE,\n  schema_version INTEGER NOT NULL,\n" ++
        cstr "  event_type TEXT NOT NULL,\n  source TEXT NOT NULL,\n" ++
        cstr "  confidence REAL NOT NULL,\n  timestamp_unix_ms INTEGER NOT NULL,\n" ++
        cstr "  process_name TEXT,\n  remote_address TEXT,\n  remote_port INTEGER,\n" ++
        cstr "  url TEXT,\n  event_json TEXT NOT NULL\n)\n",
       cstr "CREATE INDEX IF NOT EXISTS idx_events_timestamp\n  ON events (timestamp_unix_ms)",
       cstr "CREATE INDEX IF NOT EXISTS idx_events_type\n" ++
        cstr "  ON events (event_type, timestamp_unix_ms)"] },
   { version := 2
     statements :=
      [cstr "CREATE TABLE IF NOT EXISTS storage_meta (\n  key TEXT PRIMARY KEY,\n" ++
        cstr "  value TEXT NOT NULL\n)",
       cstr "INSERT OR REPLACE INTO storage_meta (key, value)\n" ++
        cstr "  VALUES ('created_by', 'ezcap-daemon')"] }]

/-- `current_version` of a list of migrations. -/
def currentVersion (migrations : List Migration) : UInt32 :=
  (migrations.getLast?.map Migration.version).getD 0

structure Database where
  executed : List Bytes := []
  userVersion : UInt32 := 0
  deriving DecidableEq

/-- The SQL that `apply_migrations` executes. -/
inductive Sql where
  | begin
  | commit
  | rollback
  | statement (sql : Bytes)
  | setVersion (version : UInt32)

def Sql.command : Sql → Command Database
  | .begin => .begin
  | .commit => .commit
  | .rollback => .rollback
  | .statement sql => .change fun db => { db with executed := db.executed ++ [sql] }
  | .setVersion version => .change fun db => { db with userVersion := version }

/-- What `sqlite3_exec` comes to, with the message that it may leave. -/
structure Reply where
  outcome : Outcome
  message : Option Bytes := none

/-- The connection, the number of calls so far and the caller's error string. -/
structure Session where
  connection : Connection Database
  calls : ℕ := 0
  error : Bytes := []

section Calls

variable (replies : ℕ → Reply)

def execFixed (sql : Sql) (s : Session) : Session × Bool :=
  let reply := replies s.calls
  let s := { s with
    connection := execute s.connection sql.command reply.outcome
    calls := s.calls + 1 }
  match reply.outcome with
  | .done => (s, true)
  | .failed _ => ({ s with error := reply.message.getD (cstr "sqlite3_exec failed") }, false)

/-- What preparing and stepping `PRAGMA user_version` come to. -/
inductive VersionRead where
  | notPrepared
  | noRow
  | row
  deriving DecidableEq

def readVersion (db : Database) : VersionRead → UInt32
  | .notPrepared => 0
  | .noRow => 0
  | .row => db.userVersion

/-- The loop over the statements of a migration. -/
def execStatements : List Bytes → Session → Session × Bool
  | [], s => (s, true)
  | sql :: statements, s =>
      let (s, ok) := execFixed replies (.statement sql) s
      if ok then execStatements statements s else ((execFixed replies .rollback s).1, false)

/-- The loop over the migrations. -/
def execMigrations (since : UInt32) : List Migration → Session → Session × Bool
  | [], s => (s, true)
  | migration :: migrations, s =>
      if migration.version ≤ since then execMigrations since migrations s
      else
        let (s, ok) := execStatements replies migration.statements s
        if ok then
          let (s, ok) := execFixed replies (.setVersion migration.version) s
          if ok then execMigrations since migrations s
          else ((execFixed replies .rollback s).1, false)
        else (s, false)

def newerMessage (since target : UInt32) : Bytes :=
  cstr "database schema version " ++ Format.decimal since.toNat ++
    cstr " is newer than this daemon supports (" ++ Format.decimal target.toNat ++ cstr ")"

/-- `apply_migrations`; `since` is the source's `from`. -/
def applyMigrations (read : VersionRead) (migrations : List Migration) (s : Session) :
    Session × Bool :=
  let since := readVersion s.connection.stored read
  let target := currentVersion migrations
  if since > target then ({ s with error := newerMessage since target }, false)
  else if since = target then (s, true)
  else
    let (s, ok) := execFixed replies .begin s
    if ok then
      let (s, ok) := execMigrations replies since migrations s
      if ok then
        let (s, ok) := execFixed replies .commit s
        if ok then (s, true) else ((execFixed replies .rollback s).1, false)
      else (s, false)
    else (s, false)

end Calls

end Ezcap.Migrations
