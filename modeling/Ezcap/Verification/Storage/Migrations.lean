import Ezcap.Model.Migrations

/-! What `apply_migrations` leaves of a database. It is all or nothing as far as the version that it
starts from is read: a failure to read it is taken for version 0. -/

namespace Ezcap.Migrations

open StdString Transaction

/-- The statements of the migrations above a version, in order. -/
def pending (migrations : List Migration) (since : UInt32) : List Bytes :=
  (migrations.filter fun m => since < m.version).flatMap Migration.statements

/-- All or nothing, and forward only. -/
structure AllOrNothing (migrations : List Migration) (before : Database) (after : Session × Bool) :
    Prop where
  newer : before.userVersion > currentVersion migrations →
    after.2 = false ∧ after.1.connection.stored = before
  current : before.userVersion = currentVersion migrations →
    after.2 = true ∧ after.1.connection.stored = before
  older : before.userVersion < currentVersion migrations →
    after.2 = true ∧ after.1.connection.stored =
        { executed := before.executed ++ pending migrations before.userVersion
          userVersion := currentVersion migrations } ∨
      after.2 = false ∧ after.1.connection.stored = before

/-! ## One call -/

section Calls

variable {replies : ℕ → Reply} {sql : Sql} {s : Session}

/-- The next `n` calls succeed. -/
def AllDone (replies : ℕ → Reply) (start n : ℕ) : Prop :=
  ∀ k < n, (replies (start + k)).outcome = .done

@[simp] theorem allDone_zero (replies : ℕ → Reply) (start : ℕ) : AllDone replies start 0 := by
  simp [AllDone]

theorem allDone_add {start m n : ℕ} :
    AllDone replies start (m + n) ↔ AllDone replies start m ∧ AllDone replies (start + m) n := by
  constructor
  · intro h
    refine ⟨fun k hk => h k (by omega), fun k hk => ?_⟩
    rw [Nat.add_assoc]
    exact h (m + k) (by omega)
  · rintro ⟨hfirst, hrest⟩ k hk
    by_cases hkm : k < m
    · exact hfirst k hkm
    · have hk' := hrest (k - m) (by omega)
      rwa [Nat.add_assoc, Nat.add_sub_of_le (Nat.le_of_not_lt hkm)] at hk'

@[simp] theorem allDone_one {start : ℕ} :
    AllDone replies start 1 ↔ (replies start).outcome = .done := by
  simp [AllDone]

theorem execFixed_ok_iff (sql : Sql) :
    (execFixed replies sql s).2 = true ↔ (replies s.calls).outcome = .done := by
  cases h : (replies s.calls).outcome <;> simp [execFixed, h]

@[simp] theorem execFixed_calls : (execFixed replies sql s).1.calls = s.calls + 1 := by
  cases h : (replies s.calls).outcome <;> simp [execFixed, h]

theorem execFixed_connection :
    (execFixed replies sql s).1.connection =
      execute s.connection sql.command (replies s.calls).outcome := by
  cases h : (replies s.calls).outcome <;> simp [execFixed, h]

theorem not_done_of_not_ok (h : (execFixed replies sql s).2 = false) :
    (replies s.calls).outcome ≠ .done := by
  intro hdone
  rw [(execFixed_ok_iff sql).mpr hdone] at h
  cases h

theorem stored_execFixed_of_not_ok (h : (execFixed replies sql s).2 = false) :
    (execFixed replies sql s).1.connection.stored = s.connection.stored := by
  rw [execFixed_connection]
  cases hout : (replies s.calls).outcome with
  | done => exact absurd hout (not_done_of_not_ok h)
  | failed rolledBack => exact stored_execute_failed ..

@[simp] theorem stored_execFixed_rollback :
    (execFixed replies .rollback s).1.connection.stored = s.connection.stored := by
  rw [execFixed_connection]
  exact stored_execute_rollback ..

end Calls

/-! ## The script in the transaction -/

/-- The changes that a migration makes in the transaction. -/
inductive Sql.IsChange : Sql → Prop where
  | statement (sql : Bytes) : IsChange (.statement sql)
  | setVersion (version : UInt32) : IsChange (.setVersion version)

def Sql.effect : Sql → Database → Database
  | .statement sql, db => { db with executed := db.executed ++ [sql] }
  | .setVersion version, db => { db with userVersion := version }
  | _, db => db

theorem Sql.IsChange.command {sql : Sql} (h : sql.IsChange) : sql.command = .change sql.effect := by
  cases h <;> rfl

def Migration.script (m : Migration) : List Sql :=
  m.statements.map .statement ++ [.setVersion m.version]

/-- Both loops in one: what is executed between BEGIN and COMMIT. -/
def script (migrations : List Migration) (since : UInt32) : List Sql :=
  (migrations.filter fun m => since < m.version).flatMap Migration.script

def runScript (replies : ℕ → Reply) : List Sql → Session → Session × Bool
  | [], s => (s, true)
  | sql :: rest, s =>
      if (execFixed replies sql s).2 then runScript replies rest (execFixed replies sql s).1
      else ((execFixed replies .rollback (execFixed replies sql s).1).1, false)

section Script

variable {replies : ℕ → Reply} {s : Session}

theorem runScript_cons_of_ok {sql : Sql} {rest : List Sql}
    (hok : (execFixed replies sql s).2 = true) :
    runScript replies (sql :: rest) s = runScript replies rest (execFixed replies sql s).1 := by
  rw [runScript, if_pos hok]

theorem runScript_cons_of_not_ok {sql : Sql} {rest : List Sql}
    (hok : (execFixed replies sql s).2 = false) :
    runScript replies (sql :: rest) s =
      ((execFixed replies .rollback (execFixed replies sql s).1).1, false) := by
  rw [runScript, if_neg (by simp [hok])]

theorem runScript_append (a b : List Sql) (s : Session) :
    runScript replies (a ++ b) s =
      if (runScript replies a s).2 then runScript replies b (runScript replies a s).1
      else ((runScript replies a s).1, false) := by
  induction a generalizing s with
  | nil => rfl
  | cons sql a ih =>
      rw [List.cons_append]
      cases hok : (execFixed replies sql s).2 with
      | false => simp [runScript_cons_of_not_ok hok]
      | true =>
          rw [runScript_cons_of_ok hok, runScript_cons_of_ok hok]
          exact ih _

theorem execStatements_eq (statements : List Bytes) (s : Session) :
    execStatements replies statements s = runScript replies (statements.map .statement) s := by
  induction statements generalizing s with
  | nil => rfl
  | cons sql statements ih => simp only [execStatements, List.map_cons, runScript, ih]

theorem execMigrations_eq (since : UInt32) (migrations : List Migration) (s : Session) :
    execMigrations replies since migrations s = runScript replies (script migrations since) s := by
  induction migrations generalizing s with
  | nil => rfl
  | cons m migrations ih =>
      by_cases hm : m.version ≤ since
      · rw [execMigrations, if_pos hm, ih, script, script,
          List.filter_cons_of_neg (by simpa using hm)]
      · have hscript : script (m :: migrations) since =
            m.statements.map .statement ++ (.setVersion m.version :: script migrations since) := by
          rw [script, List.filter_cons_of_pos (by simpa using hm), List.flatMap_cons,
            Migration.script, List.append_assoc]
          rfl
        rw [execMigrations, if_neg hm, hscript, runScript_append]
        simp only [execStatements_eq, runScript, ih]

/-- The script changes the transaction only, to its end or to the first call that fails. -/
structure ScriptSpec (replies : ℕ → Reply) (changes : List Sql) (s : Session) (d : Database)
    (after : Session × Bool) : Prop where
  stored : after.1.connection.stored = s.connection.stored
  ok_iff : after.2 = true ↔ AllDone replies s.calls changes.length
  working : after.2 = true →
    after.1.connection.working = some (changes.foldl (fun d sql => sql.effect d) d)
  calls : after.2 = true → after.1.calls = s.calls + changes.length

theorem runScript_spec {changes : List Sql} (hchanges : ∀ sql ∈ changes, sql.IsChange)
    {d : Database} (hopen : s.connection.working = some d) :
    ScriptSpec replies changes s d (runScript replies changes s) := by
  induction changes generalizing s d with
  | nil => exact ⟨rfl, by simp [runScript], fun _ => hopen, fun _ => rfl⟩
  | cons sql changes ih =>
      have hcommand := (hchanges sql (by simp)).command
      cases hok : (execFixed replies sql s).2 with
      | false =>
          have hdone := not_done_of_not_ok hok
          have hall : ¬ AllDone replies s.calls (sql :: changes).length :=
            fun h => hdone (h 0 (by simp))
          rw [runScript_cons_of_not_ok hok]
          refine ⟨?_, iff_of_false (by simp) hall, by simp, by simp⟩
          rw [stored_execFixed_rollback, stored_execFixed_of_not_ok hok]
      | true =>
          have hdone := (execFixed_ok_iff sql).mp hok
          have hconnection : (execFixed replies sql s).1.connection =
              { s.connection with working := some (sql.effect d) } := by
            rw [execFixed_connection, hdone, hcommand, execute_change hopen]
          have hrest := ih (s := (execFixed replies sql s).1) (d := sql.effect d)
            (fun sql' hsql' => hchanges sql' (List.mem_cons_of_mem _ hsql'))
            (by rw [hconnection])
          rw [runScript_cons_of_ok hok]
          refine ⟨?_, ?_, ?_, ?_⟩
          · rw [hrest.stored, hconnection]
          · rw [hrest.ok_iff, execFixed_calls, List.length_cons, Nat.add_comm changes.length,
              allDone_add, allDone_one]
            exact (and_iff_right hdone).symm
          · exact hrest.working
          · intro hall
            rw [hrest.calls hall, execFixed_calls, List.length_cons]
            omega

theorem isChange_of_mem_script {migrations : List Migration} {since : UInt32} {sql : Sql}
    (h : sql ∈ script migrations since) : sql.IsChange := by
  obtain ⟨m, -, hm⟩ := List.mem_flatMap.mp h
  rcases List.mem_append.mp hm with hstatement | hversion
  · obtain ⟨text, -, rfl⟩ := List.mem_map.mp hstatement
    exact .statement text
  · rw [List.mem_singleton.mp hversion]
    exact .setVersion _

end Script

/-! ## What the script comes to -/

theorem foldl_effect_statements (statements : List Bytes) (d : Database) :
    (statements.map Sql.statement).foldl (fun d sql => sql.effect d) d =
      { d with executed := d.executed ++ statements } := by
  induction statements generalizing d with
  | nil => simp
  | cons sql statements ih =>
      rw [List.map_cons, List.foldl_cons, ih]
      simp [Sql.effect]

theorem foldl_effect_script (ms : List Migration) (d : Database) :
    (ms.flatMap Migration.script).foldl (fun d sql => sql.effect d) d =
      { executed := d.executed ++ ms.flatMap Migration.statements
        userVersion := (ms.getLast?.map Migration.version).getD d.userVersion } := by
  induction ms generalizing d with
  | nil => simp
  | cons m ms ih =>
      rw [List.flatMap_cons, List.foldl_append, ih, Migration.script, List.foldl_append,
        foldl_effect_statements]
      cases hlast : ms.getLast? <;>
        simp [Sql.effect, List.getLast?_cons, hlast, List.append_assoc]

/-- The last migration is pending as long as any is. -/
theorem getLast?_pending {migrations : List Migration} {since : UInt32}
    (h : since < currentVersion migrations) :
    (migrations.filter fun m => since < m.version).getLast? = migrations.getLast? := by
  rcases List.eq_nil_or_concat migrations with rfl | ⟨init, last, rfl⟩
  · rfl
  · have hlast : since < last.version := by simpa [currentVersion] using h
    simp [List.filter_append, hlast]

theorem foldl_script {migrations : List Migration} {since : UInt32}
    (h : since < currentVersion migrations) (d : Database) :
    (script migrations since).foldl (fun d sql => sql.effect d) d =
      { executed := d.executed ++ pending migrations since
        userVersion := currentVersion migrations } := by
  have hne : migrations.getLast? ≠ none := by
    intro hnone
    rw [currentVersion, hnone] at h
    exact absurd h (by simp)
  obtain ⟨last, hlast⟩ := Option.ne_none_iff_exists'.mp hne
  rw [script, foldl_effect_script, getLast?_pending h, currentVersion, hlast]
  rfl

/-! ## The whole of `apply_migrations` -/

section Apply

variable {replies : ℕ → Reply} {read : VersionRead} {migrations : List Migration} {s : Session}

/-- An upgrade from a version: all of it if every call from BEGIN to COMMIT succeeds, or nothing. -/
structure UpgradeSpec (replies : ℕ → Reply) (migrations : List Migration) (since : UInt32)
    (s : Session) (after : Session × Bool) : Prop where
  ok_iff : after.2 = true ↔ AllDone replies s.calls (1 + (script migrations since).length + 1)
  done : after.2 = true → after.1.connection.stored =
    { executed := s.connection.stored.executed ++ pending migrations since
      userVersion := currentVersion migrations }
  failed : after.2 = false → after.1.connection.stored = s.connection.stored

theorem connection_begin (h : (execFixed replies .begin s).2 = true) :
    (execFixed replies .begin s).1.connection =
      { s.connection with working := some s.connection.stored } := by
  rw [execFixed_connection, (execFixed_ok_iff .begin).mp h]
  rfl

theorem stored_commit {d : Database} (hopen : s.connection.working = some d)
    (h : (execFixed replies .commit s).2 = true) :
    (execFixed replies .commit s).1.connection.stored = d := by
  rw [execFixed_connection, (execFixed_ok_iff .commit).mp h]
  exact congrArg Connection.stored (execute_commit hopen)

theorem runScript_of_begin (migrations : List Migration) (since : UInt32)
    (h : (execFixed replies .begin s).2 = true) :
    ScriptSpec replies (script migrations since) (execFixed replies .begin s).1
        s.connection.stored
        (runScript replies (script migrations since) (execFixed replies .begin s).1) ∧
      (AllDone replies s.calls (1 + (script migrations since).length) ↔
        (runScript replies (script migrations since)
          (execFixed replies .begin s).1).2 = true) := by
  have hspec : ScriptSpec replies _ _ s.connection.stored
      (runScript replies (script migrations since) (execFixed replies .begin s).1) :=
    runScript_spec (fun _ => isChange_of_mem_script) (by rw [connection_begin h])
  refine ⟨hspec, ?_⟩
  rw [hspec.ok_iff, execFixed_calls, allDone_add, allDone_one]
  exact and_iff_right ((execFixed_ok_iff .begin).mp h)

theorem applyMigrations_of_lt {since : UInt32}
    (hsince : readVersion s.connection.stored read = since)
    (h : since < currentVersion migrations) :
    UpgradeSpec replies migrations since s (applyMigrations replies read migrations s) := by
  have hle : ¬ since > currentVersion migrations := UInt32.not_lt.mpr (UInt32.le_of_lt h)
  simp only [applyMigrations, hsince, if_neg hle, if_neg (UInt32.ne_of_lt h), execMigrations_eq]
  cases hbegin : (execFixed replies .begin s).2 with
  | false =>
      have hdone := not_done_of_not_ok hbegin
      refine ⟨iff_of_false (by simp) fun hall => hdone (hall 0 (by omega)), by simp, fun _ => ?_⟩
      exact stored_execFixed_of_not_ok hbegin
  | true =>
      obtain ⟨hspec, hbegun⟩ := runScript_of_begin migrations since hbegin
      have hstored := hspec.stored
      rw [connection_begin hbegin] at hstored
      generalize runScript replies (script migrations since) (execFixed replies .begin s).1 = after
        at hspec hbegun hstored
      cases hscript : after.2 with
      | false =>
          refine ⟨iff_of_false (by simp) fun hall => ?_, by simp, fun _ => by simpa using hstored⟩
          rw [hbegun.mp (allDone_add.mp hall).1] at hscript
          cases hscript
      | true =>
          have hworking := hspec.working hscript
          rw [foldl_script h] at hworking
          have hcommitted : AllDone replies s.calls (1 + (script migrations since).length + 1) ↔
              (execFixed replies .commit after.1).2 = true := by
            rw [allDone_add, allDone_one, execFixed_ok_iff, hspec.calls hscript, execFixed_calls,
              Nat.add_assoc s.calls]
            exact and_iff_right (hbegun.mpr hscript)
          cases hcommit : (execFixed replies .commit after.1).2 with
          | false =>
              rw [hcommit] at hcommitted
              refine ⟨by simpa using hcommitted, by simp, fun _ => ?_⟩
              simpa [stored_execFixed_of_not_ok hcommit] using hstored
          | true =>
              rw [hcommit] at hcommitted
              exact ⟨by simpa using hcommitted, fun _ => stored_commit hworking hcommit, by simp⟩

theorem applyMigrations_of_eq
    (h : readVersion s.connection.stored read = currentVersion migrations) :
    applyMigrations replies read migrations s = (s, true) := by
  simp [applyMigrations, h]

theorem applyMigrations_of_gt
    (h : readVersion s.connection.stored read > currentVersion migrations) :
    (applyMigrations replies read migrations s).2 = false ∧
      (applyMigrations replies read migrations s).1.connection = s.connection := by
  simp [applyMigrations, h]

/-- With the version read, whatever else fails. -/
theorem allOrNothing_of_read
    (h : readVersion s.connection.stored read = s.connection.stored.userVersion) :
    AllOrNothing migrations s.connection.stored (applyMigrations replies read migrations s) where
  newer hgt := by
    rw [← h] at hgt
    exact ⟨(applyMigrations_of_gt hgt).1, by rw [(applyMigrations_of_gt hgt).2]⟩
  current heq := by
    rw [applyMigrations_of_eq (h.trans heq)]
    exact ⟨rfl, rfl⟩
  older hlt := by
    cases hok : (applyMigrations replies read migrations s).2 with
    | false => exact .inr ⟨rfl, (applyMigrations_of_lt h hlt).failed hok⟩
    | true => exact .inl ⟨rfl, (applyMigrations_of_lt h hlt).done hok⟩

theorem pending_currentVersion (hsorted : (migrations.map Migration.version).Pairwise (· < ·)) :
    pending migrations (currentVersion migrations) = [] := by
  rcases List.eq_nil_or_concat migrations with rfl | ⟨init, last, rfl⟩
  · rfl
  · have hbelow : ∀ m ∈ init, m.version < last.version := by
      rw [List.concat_eq_append, List.map_append, List.pairwise_append] at hsorted
      intro m hm
      exact hsorted.2.2 _ (List.mem_map_of_mem hm) _ (List.mem_singleton_self _)
    have hnone : (init.filter fun m => last.version < m.version) = [] := by
      rw [List.filter_eq_nil_iff]
      intro m hm
      simpa using UInt32.le_of_lt (hbelow m hm)
    simp [pending, currentVersion, List.filter_append, hnone]

/-- A failure that changes nothing is right but for a database that needs no migration. -/
theorem allOrNothing_unchanged_iff {before : Database} {after : Session × Bool}
    (hfailed : after.2 = false) (hstored : after.1.connection.stored = before) :
    AllOrNothing migrations before after ↔ before.userVersion ≠ currentVersion migrations := by
  constructor
  · intro h heq
    have hok := (h.current heq).1
    rw [hfailed] at hok
    cases hok
  · intro hne
    exact ⟨fun _ => ⟨hfailed, hstored⟩, fun heq => absurd heq hne, fun _ => .inr ⟨hfailed, hstored⟩⟩

/-- An upgrade from any version is right if it executes what the upgrade from the database's own
version would. -/
theorem allOrNothing_upgraded_iff
    (hsorted : (migrations.map Migration.version).Pairwise (· < ·)) {since : UInt32}
    {before : Database} {after : Session × Bool} (hok : after.2 = true)
    (hstored : after.1.connection.stored =
      { executed := before.executed ++ pending migrations since
        userVersion := currentVersion migrations }) :
    AllOrNothing migrations before after ↔
      before.userVersion ≤ currentVersion migrations ∧
        pending migrations since = pending migrations before.userVersion := by
  constructor
  · intro h
    have hle : before.userVersion ≤ currentVersion migrations := by
      rw [← UInt32.not_lt]
      intro hgt
      have hfailed := (h.newer hgt).1
      rw [hok] at hfailed
      cases hfailed
    refine ⟨hle, ?_⟩
    rcases UInt32.lt_or_eq_of_le hle with hlt | heq
    · rcases h.older hlt with ⟨-, hright⟩ | ⟨hfailed, -⟩
      · rw [hstored, Database.mk.injEq, List.append_cancel_left_eq] at hright
        exact hright.1
      · rw [hok] at hfailed
        cases hfailed
    · have hright := (h.current heq).2
      rw [hstored] at hright
      have hexecuted := congrArg Database.executed hright
      rw [heq, pending_currentVersion hsorted]
      exact List.append_right_eq_self.mp hexecuted
  · rintro ⟨hle, hpending⟩
    refine ⟨fun hgt => absurd hle (UInt32.not_le.mpr hgt), fun heq => ⟨hok, ?_⟩, fun _ => ?_⟩
    · rw [hstored, hpending, heq, pending_currentVersion hsorted, List.append_nil, ← heq]
    · exact .inl ⟨hok, by rw [hstored, hpending]⟩

/-- With a version above 0 that could not be read, as for an upgrade from version 0. -/
theorem allOrNothing_of_not_read_iff
    (hsorted : (migrations.map Migration.version).Pairwise (· < ·))
    (hread : readVersion s.connection.stored read = 0)
    (hpos : s.connection.stored.userVersion ≠ 0) :
    AllOrNothing migrations s.connection.stored (applyMigrations replies read migrations s) ↔
      0 < currentVersion migrations ∧
        (AllDone replies s.calls (1 + (script migrations 0).length + 1) ∧
            s.connection.stored.userVersion ≤ currentVersion migrations ∧
            pending migrations 0 = pending migrations s.connection.stored.userVersion ∨
          ¬ AllDone replies s.calls (1 + (script migrations 0).length + 1) ∧
            s.connection.stored.userVersion ≠ currentVersion migrations) := by
  have hvpos : 0 < s.connection.stored.userVersion := UInt32.pos_iff_ne_zero.mpr hpos
  by_cases htarget : currentVersion migrations = 0
  · -- nothing to migrate to: a newer database is accepted
    refine iff_of_false (fun h => ?_) (fun h => by simp [htarget] at h)
    have hnewer := (h.newer (by rw [htarget]; exact hvpos)).1
    rw [applyMigrations_of_eq (hread.trans htarget.symm)] at hnewer
    cases hnewer
  have htarget := UInt32.pos_iff_ne_zero.mpr htarget
  have hspec : UpgradeSpec replies migrations 0 s (applyMigrations replies read migrations s) :=
    applyMigrations_of_lt hread htarget
  rw [and_iff_right htarget, ← hspec.ok_iff]
  cases hok : (applyMigrations replies read migrations s).2 with
  | false =>
      rw [allOrNothing_unchanged_iff hok (hspec.failed hok)]
      simp
  | true =>
      rw [allOrNothing_upgraded_iff hsorted hok (hspec.done hok)]
      simp

end Apply

/-- The migrations are all or nothing and forward only just as far as the version is read: if it is
not, the database is taken for one of version 0, and left right only if nothing is done to it that
its own version would not have had done. -/
theorem migrations_all_or_nothing_iff (replies : ℕ → Reply) (read : VersionRead)
    {migrations : List Migration}
    (hsorted : (migrations.map Migration.version).Pairwise (· < ·)) (s : Session) :
    AllOrNothing migrations s.connection.stored (applyMigrations replies read migrations s) ↔
      read = .row ∨ s.connection.stored.userVersion = 0 ∨
        0 < currentVersion migrations ∧
          (AllDone replies s.calls (1 + (script migrations 0).length + 1) ∧
              s.connection.stored.userVersion ≤ currentVersion migrations ∧
              pending migrations 0 = pending migrations s.connection.stored.userVersion ∨
            ¬ AllDone replies s.calls (1 + (script migrations 0).length + 1) ∧
              s.connection.stored.userVersion ≠ currentVersion migrations) := by
  by_cases hrow : read = .row
  · subst hrow
    exact iff_of_true (allOrNothing_of_read rfl) (.inl rfl)
  have hread : readVersion s.connection.stored read = 0 := by
    cases read with
    | notPrepared => rfl
    | noRow => rfl
    | row => exact absurd rfl hrow
  by_cases hzero : s.connection.stored.userVersion = 0
  · exact iff_of_true (allOrNothing_of_read (hread.trans hzero.symm)) (.inr (.inl hzero))
  · rw [allOrNothing_of_not_read_iff hsorted hread hzero]
    simp [hrow, hzero]

/-- A database of version 1 whose version is read, with the last statement failing. -/
theorem migrations_all_or_nothing_rolled_back :
    (kMigrations.map Migration.version).Pairwise (· < ·) ∧
      AllOrNothing kMigrations { userVersion := 1 }
        (applyMigrations (fun k => { outcome := if k = 2 then .failed false else .done }) .row
          kMigrations { connection := { stored := { userVersion := 1 } } }) :=
  have hsorted : (kMigrations.map Migration.version).Pairwise (· < ·) := by decide
  ⟨hsorted, (migrations_all_or_nothing_iff _ _ hsorted
    { connection := { stored := { userVersion := 1 } } }).mpr (.inl rfl)⟩

/-- A database from a later release, of version 3: if stepping `PRAGMA user_version` gives no row,
both migrations are applied and the version goes back to 2. -/
theorem unread_version_lowered :
    (applyMigrations (fun _ => { outcome := .done }) .noRow kMigrations
        { connection := { stored := { userVersion := 3 } } }).2 = true ∧
      (applyMigrations (fun _ => { outcome := .done }) .noRow kMigrations
        { connection := { stored := { userVersion := 3 } } }).1.connection.stored.userVersion = 2 ∧
      ¬ AllOrNothing kMigrations { userVersion := 3 }
        (applyMigrations (fun _ => { outcome := .done }) .noRow kMigrations
          { connection := { stored := { userVersion := 3 } } }) :=
  ⟨by decide, by decide, fun h => absurd (h.newer (by decide)).1 (by decide)⟩

end Ezcap.Migrations
