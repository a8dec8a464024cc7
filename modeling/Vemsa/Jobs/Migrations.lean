import Vemsa.Support.Machine
import Vemsa.Support.Predictions

/-!
# Jobs — Migrations

`_MIGRATIONS`, and `PostgresJobStore.open` in any number of processes, which may run different
releases, start at any moment, and die at any statement.  A transaction holds the advisory lock and
works on its own version of the schema until it commits; others go on to write the tables that it has
not locked, and PostgreSQL may abort it to break a deadlock with them.

* `migrations_predicted`: every migration goes through on whatever rows the one before it allows.
* `storeOpens`: the committed schema is always the one of a release, and only a deadlock makes `open` fail.

Left out are the types of the columns, the columns of an index that is not unique, and
`ON DELETE CASCADE`, which is part of what another transaction writes.
-/

namespace Vemsa.Jobs
open Vemsa.Support

/-! ### The migrations -/

/-- A column that may be `NULL`. -/
def nullable (name : String) : Column := { name }

def required (name : String) : Column := { name, notNull := true }

def defaulting (name value : String) : Column := { name, notNull := true, default := some value }

/-- The constraint PostgreSQL names after the column. -/
def inlineCheck (table column : String) (values : List String) : String × Check :=
  (table ++ "_" ++ column ++ "_check", .oneOf column values)

def createJobs : TableDef where
  name := "jobs"
  columns :=
    [required "id", required "client_id", required "status", required "created_at",
      required "updated_at", required "request_json", nullable "audio_path", nullable "result_json",
      nullable "error", defaulting "attempt" "0", nullable "lease_owner", nullable "lease_expires_at"]
  checks := [inlineCheck "jobs" "status" ["queued", "running", "completed", "failed"]]
  primaryKey := ["id"]

def createWorkerHeartbeats : TableDef where
  name := "worker_heartbeats"
  columns := [required "worker_id", required "updated_at"]
  primaryKey := ["worker_id"]

def createWebhookOutbox : TableDef where
  name := "webhook_outbox"
  columns :=
    [required "id", required "job_id", required "url", required "payload_json",
      defaulting "attempt" "0", nullable "next_attempt_at", nullable "lease_owner",
      nullable "lease_expires_at", nullable "last_error", required "created_at"]
  primaryKey := ["id"]
  references := [{ column := "job_id", target := "jobs", key := "id" }]

def createJobStats : TableDef where
  name := "job_stats"
  columns :=
    [required "job_id", required "client_id", required "status", required "task", nullable "engine",
      nullable "model", nullable "language", nullable "alignment", nullable "device",
      nullable "worker_id", required "attempts", required "created_at", nullable "started_at",
      required "finished_at", nullable "processing_s", nullable "audio_seconds",
      nullable "stage_seconds", nullable "error_class"]
  checks := [inlineCheck "job_stats" "status" ["completed", "failed", "cancelled"]]
  primaryKey := ["job_id"]

def createWorkerSamples : TableDef where
  name := "worker_samples"
  columns :=
    [required "worker_id", required "sampled_at", required "hostname", required "engine",
      nullable "device", nullable "gpu_name", required "in_flight", required "concurrency",
      required "gpu_concurrency", nullable "cpu_pct", nullable "load1", nullable "mem_used_bytes",
      nullable "mem_total_bytes", nullable "disk_used_bytes", nullable "disk_total_bytes",
      nullable "gpu_util_pct", nullable "gpu_mem_used_bytes", nullable "gpu_mem_total_bytes",
      nullable "gpu_temp_c"]
  primaryKey := ["worker_id", "sampled_at"]

/-- `_MIGRATIONS`.  The first one also creates `vemsa_schema_migrations` (see `Stored.versions`). -/
def migrations : List (List Statement) :=
  [[.createTable createJobs,
      .createIndex true { name := "idx_jobs_claim", table := "jobs" },
      .createIndex true { name := "idx_jobs_client_status", table := "jobs" },
      .createTable createWorkerHeartbeats,
      .createTable createWebhookOutbox,
      .createIndex true { name := "idx_webhook_outbox_due", table := "webhook_outbox" }],
    [.dropConstraint "jobs" "jobs_status_check",
      .addConstraint "jobs" "jobs_status_check"
        (.oneOf "status" ["queued", "running", "completed", "failed", "cancelled"]),
      .addColumn "jobs" true (defaulting "stage" "queued") [],
      .update "jobs" "stage" "transcribing" [("status", ["running"]), ("stage", ["queued"])],
      .update "jobs" "stage" "finalizing" [("status", ["completed", "failed"]), ("stage", ["queued"])],
      .dropConstraint "jobs" "jobs_stage_check",
      .addConstraint "jobs" "jobs_stage_check"
        (.oneOf "stage" ["queued", "transcribing", "aligning", "diarizing", "finalizing"]),
      .addColumn "jobs" true (nullable "cancellation_requested_at") []],
    [.addColumn "jobs" true (nullable "retry_after") []],
    [.addColumn "jobs" true (nullable "started_at") [],
      .createTable createJobStats,
      .createIndex true { name := "idx_job_stats_finished_at", table := "job_stats" },
      .createTable createWorkerSamples,
      .createIndex true { name := "idx_worker_samples_sampled_at", table := "worker_samples" }],
    [.addColumn "jobs" false (nullable "failure_kind")
        [inlineCheck "jobs" "failure_kind" ["input", "capacity", "provider", "internal", "cancelled"]],
      .update "jobs" "failure_kind" "cancelled" [("status", ["cancelled"])],
      .update "jobs" "failure_kind" "internal" [("status", ["failed"])]],
    [.addColumn "jobs" false (nullable "idempotency_key") [],
      .addColumn "jobs" false (nullable "request_digest") [],
      .addConstraint "jobs" "jobs_idempotency_digest_check" (.needs "idempotency_key" "request_digest"),
      .createIndex false
        { name := "idx_jobs_client_idempotency", table := "jobs"
          unique := some (["client_id", "idempotency_key"], "idempotency_key") }]]

/-- The schema after the first `k` migrations. -/
def schemaAt : ℕ → Schema
  | 0 => ⟨[], []⟩
  | k + 1 =>
    ((predictAll (migrations.getD k []) ⟨schemaAt k, []⟩).map Predicted.schema).getD ⟨[], []⟩

/-- **Every migration goes through**, whatever rows there are. -/
theorem migrations_predicted : ∀ k < migrations.length,
    (predictAll (migrations.getD k []) ⟨schemaAt k, []⟩).isSome = true := by
  decide +kernel

theorem schemaAt_extends : ∀ k ≤ migrations.length, ∀ r ≤ k, Schema.Extends (schemaAt r) (schemaAt k) := by
  decide +kernel

/-- `_JOB_COLUMNS` -/
def jobColumns : List String :=
  ["id", "client_id", "status", "stage", "created_at", "updated_at", "request_json", "audio_path",
    "error", "attempt", "lease_owner", "lease_expires_at", "cancellation_requested_at", "started_at",
    "failure_kind", "idempotency_key", "request_digest"]

theorem offers_jobColumns : (schemaAt migrations.length).Offers "jobs" jobColumns := by
  decide +kernel

/-- Where it ran before, the first migration finds everything there. -/
theorem baseline_noop : ∀ k ≤ migrations.length, 1 ≤ k →
    ∀ st ∈ migrations.getD 0 [], st.isNoop (schemaAt k) = true := by
  decide +kernel

/-- The tables that are joined by a reference. -/
def joinedTables : List String := ["jobs", "webhook_outbox"]

theorem references_joinedTables : ∀ k ≤ migrations.length, ∀ t ∈ (schemaAt k).tables, ∀ r ∈ t.references,
    t.name ∈ joinedTables ∧ r.target ∈ joinedTables := by
  decide +kernel

/-- The first migration locks them all, wherever it runs. -/
theorem baseline_locks : ∀ k ≤ migrations.length,
    joinedTables ⊆ migrationLocks (migrations.getD 0 []) (schemaAt k) := by
  decide +kernel

/-- One migration, on any rows. -/
theorem migrate_schemaAt {k : ℕ} {db : Database} (hk : k < migrations.length)
    (hschema : db.schema = schemaAt k) (hfits : db.fits = true) :
    ∃ db', migrate (migrations.getD k []) db = .ok db' ∧ db'.schema = schemaAt (k + 1) ∧
      db'.fits = true := by
  obtain ⟨p, hp⟩ := Option.isSome_iff_exists.mp (migrations_predicted k hk)
  obtain ⟨hvalid, hrelated⟩ := fits_iff.mp hfits
  have hstart : Predicted.Fits ⟨schemaAt k, []⟩ db := ⟨hschema, hvalid, by simp⟩
  obtain ⟨db', hrun, hfits', hrelated'⟩ := migrate_sound hstart hrelated hp
  refine ⟨db', hrun, ?_, fits_iff.mpr ⟨hfits'.valid, hrelated'⟩⟩
  rw [hfits'.schema, schemaAt, hp]
  rfl

/-! ### Opening a store -/

/-- A process. -/
abbrev Opener : Type := ℕ

/-- The tables, and the versions in `vemsa_schema_migrations`. -/
structure Stored where
  db : Database
  versions : List ℕ

/-- What a transaction sees, and the tables it has locked. -/
structure Tx extends Stored where
  locked : List String

/-- Another transaction may write these tables. -/
def Tx.lets (tx : Tx) (tables : List String) : Bool := tables.all (· ∉ tx.locked)

/-- After `_MIGRATIONS[i]`. -/
def Tx.migrated (tx : Tx) (db : Database) (i : ℕ) : Tx where
  db := db
  versions := tx.versions
  locked := tx.locked ++ migrationLocks (migrations.getD i []) tx.db.schema

/-- Where `open` stands in a process whose release has the first `release` migrations. -/
inductive OpenPc where
  | closed
  /-- `pg_advisory_xact_lock` -/
  | waiting (release : ℕ)
  /-- `_MIGRATIONS[0]` -/
  | baseline (release : ℕ) (tx : Tx)
  /-- `INSERT … VALUES (1) ON CONFLICT (version) DO NOTHING` -/
  | recording (release : ℕ) (tx : Tx)
  /-- `SELECT EXISTS(…)` -/
  | looking (release version : ℕ) (tx : Tx)
  | applying (release version : ℕ) (tx : Tx)
  | inserting (release version : ℕ) (tx : Tx)
  | committing (release : ℕ) (tx : Tx)
  | opened (release : ℕ)
  | failed (e : SqlError)

/-- The transaction of a process. -/
def OpenPc.tx : OpenPc → Option Tx
  | baseline _ tx | recording _ tx | looking _ _ tx | applying _ _ tx | inserting _ _ tx
  | committing _ tx => some tx
  | closed | waiting _ | opened _ | failed _ => none

/-- The same statement of a transaction that sees something else. -/
def OpenPc.withTx (tx : Tx) : OpenPc → OpenPc
  | baseline r _ => baseline r tx
  | recording r _ => recording r tx
  | looking r v _ => looking r v tx
  | applying r v _ => applying r v tx
  | inserting r v _ => inserting r v tx
  | committing r _ => committing r tx
  | pc => pc

structure OpenState where
  committed : Stored
  /-- who holds the advisory lock -/
  lock : Option Opener
  procs : Opener → OpenPc

inductive OpenEvent where
  | start (p : Opener) (release : ℕ)
  | next (p : Opener)
  /-- the process dies, or its connection -/
  | crash (p : Opener)
  /-- PostgreSQL aborts its transaction, which waits for a table -/
  | deadlock (p : Opener)
  /-- another transaction commits rows of some tables -/
  | write (tables : List String) (rows : String → List Fields)

namespace OpenState

def init : OpenState where
  committed := ⟨⟨⟨[], []⟩, fun _ => []⟩, []⟩
  lock := none
  procs _ := .closed

def set (s : OpenState) (p : Opener) (pc : OpenPc) : OpenState :=
  { s with procs := Function.update s.procs p pc }

/-- A statement failed: the transaction is rolled back and `open` raises. -/
def abort (s : OpenState) (p : Opener) (e : SqlError) : OpenState :=
  { s.set p (.failed e) with lock := none }

/-- The head of `for version, migration in enumerate(_MIGRATIONS[1:], start=2)`. -/
def loop (s : OpenState) (p : Opener) (release version : ℕ) (tx : Tx) : OpenState :=
  s.set p (if version ≤ release then .looking release version tx else .committing release tx)

/-- The next statement of `open`. -/
def next (s : OpenState) (p : Opener) : Option OpenState :=
  match s.procs p with
  | .closed | .opened _ | .failed _ => none
  | .waiting release =>
    if s.lock.isSome then none
    else some { s.set p (.baseline release { s.committed with locked := [] }) with lock := some p }
  | .baseline release tx =>
    some <|
      match migrate (migrations.getD 0 []) tx.db with
      | .error e => s.abort p e
      | .ok db => s.set p (.recording release (tx.migrated db 0))
  | .recording release tx =>
    some <| s.loop p release 2
      { tx with versions := if 1 ∈ tx.versions then tx.versions else tx.versions ++ [1] }
  | .looking release version tx =>
    some <|
      if version ∈ tx.versions then s.loop p release (version + 1) tx
      else s.set p (.applying release version tx)
  | .applying release version tx =>
    some <|
      match migrate (migrations.getD (version - 1) []) tx.db with
      | .error e => s.abort p e
      | .ok db => s.set p (.inserting release version (tx.migrated db (version - 1)))
  | .inserting release version tx =>
    some <|
      if version ∈ tx.versions then s.abort p .violation
      else s.loop p release (version + 1) { tx with versions := tx.versions ++ [version] }
  | .committing release tx =>
    some { s.set p (.opened release) with committed := tx.toStored, lock := none }

/-- Rows that another transaction commits; the migrating one sees them. -/
def write (s : OpenState) (tables : List String) (rows : String → List Fields) : Option OpenState :=
  let committed : Stored := { s.committed with db := s.committed.db.setRows tables rows }
  if !committed.db.fits then none
  else
    match s.lock with
    | none => some { s with committed }
    | some p =>
      match (s.procs p).tx with
      | none => none
      | some tx =>
        if tx.lets tables then
          some { s.set p ((s.procs p).withTx { tx with db := tx.db.setRows tables rows }) with committed }
        else none

/-- The statements that wait for a table. -/
def deadlock (s : OpenState) (p : Opener) : Option OpenState :=
  match s.procs p with
  | .baseline .. | .applying .. => some (s.abort p .deadlock)
  | _ => none

def step (s : OpenState) : OpenEvent → Option (OpenState × Unit)
  | .start p release =>
    match s.procs p with
    | .closed =>
      if 1 ≤ release ∧ release ≤ migrations.length then some (s.set p (.waiting release), ()) else none
    | _ => none
  | .next p => (s.next p).map fun s' => (s', ())
  | .crash p =>
    some ({ s.set p .closed with lock := if s.lock = some p then none else s.lock }, ())
  | .deadlock p => (s.deadlock p).map fun s' => (s', ())
  | .write tables rows => (s.write tables rows).map fun s' => (s', ())

end OpenState

/-- Any processes, on an empty database. -/
def openMachine : Machine OpenState OpenEvent Unit where
  init := .init
  step := OpenState.step

/-! ### In every run -/

/-- The first `k` migrations are there. -/
structure Stored.At (k : ℕ) (x : Stored) : Prop where
  le : k ≤ migrations.length
  versions : x.versions = List.range' 1 k
  schema : x.db.schema = schemaAt k
  fits : x.db.fits = true

/-- The next one is applied, and not recorded. -/
structure Stored.Ahead (k : ℕ) (x : Stored) : Prop where
  lt : k < migrations.length
  versions : x.versions = List.range' 1 k
  schema : x.db.schema = schemaAt (k + 1)
  fits : x.db.fits = true

/-- What a transaction has not locked, it sees as it is committed. -/
def Tx.Apart (tx : Tx) (committed : Database) : Prop :=
  ∀ name ∉ tx.locked, tx.db.view name = committed.view name

/-- A process where `k` migrations are committed. -/
def OpenPc.Sane (k : ℕ) : OpenPc → Prop
  | closed => True
  | waiting r => 1 ≤ r ∧ r ≤ migrations.length
  | baseline r tx => r ≤ migrations.length ∧ tx.At k
  | recording r tx => r ≤ migrations.length ∧ (k = 0 ∧ tx.Ahead 0 ∨ 1 ≤ k ∧ tx.At k)
  | looking r v tx => v ≤ r ∧ r ≤ migrations.length ∧ ∃ j, k ≤ j ∧ tx.At j ∧ 2 ≤ v ∧ v ≤ j + 1
  | applying r v tx => v ≤ r ∧ r ≤ migrations.length ∧ ∃ j, k ≤ j ∧ tx.At j ∧ 1 ≤ j ∧ v = j + 1
  | inserting r v tx => v ≤ r ∧ r ≤ migrations.length ∧ ∃ j, k ≤ j ∧ tx.Ahead j ∧ 1 ≤ j ∧ v = j + 1
  | committing r tx => ∃ j, k ≤ j ∧ tx.At j ∧ r ≤ j
  | opened r => r ≤ k
  | failed e => e = .deadlock

/-- From the first migration on, it has locked all that is joined by a reference. -/
def OpenPc.Guarded : OpenPc → Prop
  | closed | waiting _ | opened _ | failed _ => True
  | baseline _ tx => tx.locked = []
  | recording _ tx | looking _ _ tx | applying _ _ tx | inserting _ _ tx | committing _ tx =>
    joinedTables ⊆ tx.locked

/-- **The committed schema is that of a release, and every process is where it can go on.** -/
structure OpenState.Sane (s : OpenState) (k : ℕ) : Prop where
  committed : s.committed.At k
  procs : ∀ p, (s.procs p).Sane k
  /-- a transaction holds the lock -/
  locked : ∀ p, (s.procs p).tx.isSome ↔ s.lock = some p
  apart : ∀ p tx, (s.procs p).tx = some tx → tx.Apart s.committed.db
  guarded : ∀ p, (s.procs p).Guarded

theorem Stored.At.mem_versions {k v : ℕ} {x : Stored} (h : x.At k) : v ∈ x.versions ↔ 1 ≤ v ∧ v ≤ k := by
  rw [h.versions, List.mem_range'_1]
  omega

/-- After version `k + 1` is recorded. -/
theorem Stored.Ahead.record {k : ℕ} {x : Stored} (h : x.Ahead k) :
    Stored.At (k + 1) { x with versions := x.versions ++ [k + 1] } where
  le := h.lt
  versions := by simp [h.versions, List.range'_concat, Nat.add_comm]
  schema := h.schema
  fits := h.fits

theorem OpenPc.Sane.later {k j : ℕ} {pc : OpenPc} (h : pc.Sane k) (hle : k ≤ j) (htx : pc.tx = none) :
    pc.Sane j := by
  cases pc with
  | closed => trivial
  | waiting r => exact h
  | opened r => exact Nat.le_trans h hle
  | failed e => exact h
  | _ => cases htx

/-- A transaction sees the schema of a release, and rows that fit it. -/
theorem OpenPc.Sane.tx_sees {k : ℕ} {pc : OpenPc} {tx : Tx} (h : pc.Sane k) (htx : pc.tx = some tx) :
    ∃ j ≤ migrations.length, tx.db.schema = schemaAt j ∧ tx.db.fits = true := by
  have hat : ∀ {j} {x : Stored}, x.At j →
      ∃ j ≤ migrations.length, x.db.schema = schemaAt j ∧ x.db.fits = true := fun h =>
    ⟨_, h.le, h.schema, h.fits⟩
  have hahead : ∀ {j} {x : Stored}, x.Ahead j →
      ∃ j ≤ migrations.length, x.db.schema = schemaAt j ∧ x.db.fits = true := fun h =>
    ⟨_, h.lt, h.schema, h.fits⟩
  cases pc with
  | closed | waiting | opened | failed => cases htx
  | baseline r tx' => cases htx; exact hat h.2
  | recording r tx' => cases htx; exact h.2.elim (fun h => hahead h.2) fun h => hat h.2
  | looking r v tx' => cases htx; obtain ⟨-, -, j, -, hj, -⟩ := h; exact hat hj
  | applying r v tx' => cases htx; obtain ⟨-, -, j, -, hj, -⟩ := h; exact hat hj
  | inserting r v tx' => cases htx; obtain ⟨-, -, j, -, hj, -⟩ := h; exact hahead hj
  | committing r tx' => cases htx; obtain ⟨j, -, hj, -⟩ := h; exact hat hj

theorem OpenPc.guarded_of_tx_eq_none {pc : OpenPc} (h : pc.tx = none) : pc.Guarded := by
  cases pc with
  | closed | waiting | opened | failed => trivial
  | _ => cases h

/-- What is joined with a table that is not locked is not locked either. -/
theorem OpenPc.Guarded.joined_free {k : ℕ} {pc : OpenPc} {tx : Tx} {name other : String}
    (h : pc.Guarded) (hsane : pc.Sane k) (htx : pc.tx = some tx) (hfree : name ∉ tx.locked)
    (hjoined : other ∈ tx.db.schema.joined name) : other ∉ tx.locked := by
  obtain ⟨j, hj, hschema, -⟩ := hsane.tx_sees htx
  obtain rfl | ⟨t, ht, r, hr, hends⟩ := Schema.mem_joined.mp hjoined
  · exact hfree
  obtain ⟨hname, htarget⟩ := references_joinedTables j hj t (hschema ▸ ht) r hr
  have hin : name ∈ joinedTables := by
    obtain ⟨rfl, -⟩ | ⟨rfl, -⟩ := hends
    · exact hname
    · exact htarget
  cases pc with
  | closed | waiting | opened | failed => cases htx
  | baseline r tx' =>
      cases htx
      simp [show tx.locked = [] from h]
  | recording r tx' | looking r v tx' | applying r v tx' | inserting r v tx' | committing r tx' =>
      cases htx
      exact absurd (h hin) hfree

/-- **A migration stays apart**: it has locked what it changes. -/
theorem Tx.Apart.migrated {tx : Tx} {committed db : Database} {i : ℕ} (h : tx.Apart committed)
    (hrun : migrate (migrations.getD i []) tx.db = .ok db) : (tx.migrated db i).Apart committed := by
  intro name hname
  obtain ⟨hbefore, hnow⟩ := not_or.mp (mt List.mem_append.mpr hname)
  exact (migrate_frame hrun hnow).trans (h name hbefore)

namespace OpenState

variable {s s' : OpenState} {k : ℕ} {p : Opener}

/-- A step inside or outside of a transaction. -/
theorem Sane.set {pc : OpenPc} (h : s.Sane k) (hpc : pc.Sane k)
    (htx : pc.tx.isSome = (s.procs p).tx.isSome)
    (hapart : ∀ tx, pc.tx = some tx → tx.Apart s.committed.db) (hguarded : pc.Guarded) :
    (s.set p pc).Sane k where
  committed := h.committed
  procs q := by
    obtain rfl | hne := eq_or_ne q p
    · simpa [OpenState.set] using hpc
    · simpa [OpenState.set, Function.update_of_ne hne] using h.procs q
  locked q := by
    obtain rfl | hne := eq_or_ne q p
    · simpa [OpenState.set, htx] using h.locked q
    · simpa [OpenState.set, Function.update_of_ne hne] using h.locked q
  apart q := by
    obtain rfl | hne := eq_or_ne q p
    · simpa [OpenState.set] using hapart
    · simpa [OpenState.set, Function.update_of_ne hne] using h.apart q
  guarded q := by
    obtain rfl | hne := eq_or_ne q p
    · simpa [OpenState.set] using hguarded
    · simpa [OpenState.set, Function.update_of_ne hne] using h.guarded q

/-- Nobody else is in a transaction. -/
theorem Sane.alone {q : Opener} (h : s.Sane k) (hlock : s.lock = some p) (hne : q ≠ p) :
    (s.procs q).tx = none := by
  rw [← Option.not_isSome_iff_eq_none, h.locked q, hlock]
  simpa using hne.symm

/-- Whoever leaves a transaction frees the lock. -/
theorem Sane.free {pc : OpenPc} {x : Stored} {j : ℕ} (h : s.Sane k) (hlock : s.lock = some p)
    (hpc : pc.Sane j) (hnone : pc.tx = none) (hx : x.At j) (hle : k ≤ j) :
    Sane { s.set p pc with committed := x, lock := none } j := by
  have hnobody : ∀ q, ((s.set p pc).procs q).tx = none := fun q => by
    obtain rfl | hne := eq_or_ne q p
    · simpa [OpenState.set] using hnone
    · simpa [OpenState.set, Function.update_of_ne hne] using h.alone hlock hne
  refine ⟨hx, fun q => ?_, fun q => ?_, fun q tx htx => ?_, fun q => ?_⟩
  · obtain rfl | hne := eq_or_ne q p
    · simpa [OpenState.set] using hpc
    · simpa [OpenState.set, Function.update_of_ne hne] using
        (h.procs q).later hle (h.alone hlock hne)
  · simp only [hnobody q, Option.isSome_none, Bool.false_eq_true, reduceCtorEq]
  · rw [hnobody q] at htx
    cases htx
  · exact OpenPc.guarded_of_tx_eq_none (hnobody q)

theorem Sane.loop {release version j : ℕ} {tx : Tx} (h : s.Sane k) (hlock : s.lock = some p)
    (hr : release ≤ migrations.length) (hj : k ≤ j) (htx : tx.At j) (hv : 2 ≤ version)
    (hvj : version ≤ j + 1) (hapart : tx.Apart s.committed.db) (hguarded : joinedTables ⊆ tx.locked) :
    (s.loop p release version tx).Sane k := by
  have hsome : true = (s.procs p).tx.isSome := ((h.locked p).mpr hlock).symm
  unfold OpenState.loop
  split
  case isTrue hle =>
    exact h.set ⟨hle, hr, j, hj, htx, hv, hvj⟩ hsome (fun tx' heq => Option.some.inj heq ▸ hapart)
      hguarded
  case isFalse hle =>
    exact h.set ⟨j, hj, htx, by omega⟩ hsome (fun tx' heq => Option.some.inj heq ▸ hapart) hguarded

/-- Whoever gets the lock begins a transaction. -/
theorem Sane.acquire {release : ℕ} (h : s.Sane k) (hfree : s.lock = none)
    (hr : release ≤ migrations.length) :
    Sane { s.set p (.baseline release { s.committed with locked := [] }) with lock := some p } k := by
  refine ⟨h.committed, fun q => ?_, fun q => ?_, fun q tx htx => ?_, fun q => ?_⟩
  · obtain rfl | hne := eq_or_ne q p
    · simp only [OpenState.set, Function.update_self]
      exact ⟨hr, h.committed⟩
    · simpa [OpenState.set, Function.update_of_ne hne] using h.procs q
  · obtain rfl | hne := eq_or_ne q p
    · simp [OpenState.set, OpenPc.tx]
    · have hq := h.locked q
      rw [hfree] at hq
      simpa [OpenState.set, Function.update_of_ne hne, hne.symm] using hq
  · obtain rfl | hne := eq_or_ne q p
    · simp only [OpenState.set, Function.update_self, OpenPc.tx, Option.some.injEq] at htx
      subst htx
      exact fun _ _ => rfl
    · simp only [OpenState.set, Function.update_of_ne hne] at htx
      exact h.apart q tx htx
  · obtain rfl | hne := eq_or_ne q p
    · simp [OpenState.set, OpenPc.Guarded]
    · simpa [OpenState.set, Function.update_of_ne hne] using h.guarded q

/-- A migration has run. -/
theorem Sane.migrated {pc : OpenPc} {tx : Tx} {db : Database} {i : ℕ} (h : s.Sane k)
    (htx : (s.procs p).tx = some tx) (hrun : migrate (migrations.getD i []) tx.db = .ok db)
    (hpc : pc.Sane k) (hafter : pc.tx = some (tx.migrated db i)) (hguarded : pc.Guarded) :
    (s.set p pc).Sane k := by
  refine h.set hpc (by rw [htx, hafter]; rfl) (fun tx' htx' => ?_) hguarded
  obtain rfl := Option.some.inj (hafter.symm.trans htx')
  exact (h.apart p tx htx).migrated hrun

/-- **The next statement goes through.** -/
theorem Sane.next (h : s.Sane k) (hn : s.next p = some s') : ∃ j, s'.Sane j := by
  have hp := h.procs p
  have hl := h.locked p
  have ha := h.apart p
  have hg := h.guarded p
  unfold OpenState.next at hn
  cases hpc : s.procs p with
  | closed | opened | failed => rw [hpc] at hn; cases hn
  | waiting release =>
      rw [hpc] at hn hp
      simp only at hn
      split at hn
      case isTrue => cases hn
      case isFalse hfree =>
        cases hn
        have hnone : s.lock = none := by simpa using hfree
        exact ⟨k, h.acquire hnone hp.2⟩
  | baseline release tx =>
      have hsees : (s.procs p).tx = some tx := by rw [hpc]; rfl
      rw [hpc] at hn hp
      obtain ⟨hr, htx⟩ := hp
      have hlocks : joinedTables ⊆ tx.locked ++ migrationLocks (migrations.getD 0 []) tx.db.schema :=
        List.Subset.trans (htx.schema ▸ baseline_locks k htx.le) (List.subset_append_right _ _)
      simp only [Option.some.injEq] at hn
      obtain rfl | hpos := Nat.eq_zero_or_pos k
      · obtain ⟨db', hrun, hschema, hfits⟩ := migrate_schemaAt (by decide) htx.schema htx.fits
        rw [hrun] at hn
        subst hn
        exact ⟨0, h.migrated hsees hrun ⟨hr, .inl ⟨rfl, by decide, htx.versions, hschema, hfits⟩⟩ rfl
          hlocks⟩
      · have hrun : migrate (migrations.getD 0 []) tx.db = .ok tx.db :=
          migrate_noop htx.fits (htx.schema ▸ baseline_noop k htx.le hpos)
        rw [hrun] at hn
        subst hn
        have hafter : Stored.At k { tx with db := tx.db } := ⟨htx.le, htx.versions, htx.schema, htx.fits⟩
        exact ⟨k, h.migrated hsees hrun ⟨hr, .inr ⟨hpos, hafter⟩⟩ rfl hlocks⟩
  | recording release tx =>
      rw [hpc] at hn hp hl ha hg
      obtain ⟨hr, htx⟩ := hp
      have hapart := ha tx rfl
      simp only [Option.some.injEq] at hn
      have hlock : s.lock = some p := hl.mp rfl
      subst hn
      obtain ⟨rfl, htx⟩ | ⟨hpos, htx⟩ := htx
      · have hno : 1 ∉ tx.versions := by simp [htx.versions]
        rw [if_neg hno]
        exact ⟨0, h.loop hlock hr (Nat.zero_le 1) htx.record (by decide) le_rfl hapart hg⟩
      · rw [if_pos (htx.mem_versions.mpr ⟨le_rfl, hpos⟩)]
        exact ⟨k, h.loop hlock hr le_rfl htx (by decide) (by omega) hapart hg⟩
  | looking release version tx =>
      rw [hpc] at hn hp hl ha hg
      obtain ⟨hv, hr, j, hj, htx, h2, hvj⟩ := hp
      have hapart := ha tx rfl
      simp only [Option.some.injEq] at hn
      subst hn
      split
      case isTrue hin =>
        have hle := (htx.mem_versions.mp hin).2
        exact ⟨k, h.loop (hl.mp rfl) hr hj htx (by omega) (by omega) hapart hg⟩
      case isFalse hout =>
        have hnew : version = j + 1 := by
          have := mt htx.mem_versions.mpr hout
          omega
        exact ⟨k, h.set ⟨hv, hr, j, hj, htx, by omega, hnew⟩ (by rw [hpc]; rfl) ha hg⟩
  | applying release version tx =>
      have hsees : (s.procs p).tx = some tx := by rw [hpc]; rfl
      rw [hpc] at hn hp hg
      obtain ⟨hv, hr, j, hj, htx, hpos, rfl⟩ := hp
      simp only [Option.some.injEq] at hn
      have hlt : j < migrations.length := by omega
      obtain ⟨db', hrun, hschema, hfits⟩ := migrate_schemaAt hlt htx.schema htx.fits
      rw [Nat.add_sub_cancel, hrun] at hn
      subst hn
      exact ⟨k, h.migrated hsees hrun ⟨hv, hr, j, hj, ⟨hlt, htx.versions, hschema, hfits⟩, hpos, rfl⟩ rfl
        (List.Subset.trans hg (List.subset_append_left _ _))⟩
  | inserting release version tx =>
      rw [hpc] at hn hp hl ha hg
      obtain ⟨hv, hr, j, hj, htx, hpos, rfl⟩ := hp
      have hapart := ha tx rfl
      simp only [Option.some.injEq] at hn
      have hno : j + 1 ∉ tx.versions := by
        rw [htx.versions, List.mem_range'_1]
        omega
      rw [if_neg hno] at hn
      subst hn
      exact ⟨k, h.loop (hl.mp rfl) hr (by omega) htx.record (by omega) (by omega) hapart hg⟩
  | committing release tx =>
      rw [hpc] at hn hp hl
      obtain ⟨j, hj, htx, hrj⟩ := hp
      simp only [Option.some.injEq] at hn
      subst hn
      have hopened : (OpenPc.opened release).Sane j := hrj
      exact ⟨j, h.free (hl.mp rfl) hopened rfl htx hj⟩

/-- A process dies; its transaction, if it had one, is rolled back. -/
theorem Sane.crash (h : s.Sane k) :
    Sane { s.set p .closed with lock := if s.lock = some p then none else s.lock } k := by
  obtain hlock | hlock := eq_or_ne s.lock (some p)
  · rw [if_pos hlock]
    have hclosed : OpenPc.closed.Sane k := trivial
    exact h.free hlock hclosed rfl h.committed le_rfl
  · have hnone : (s.procs p).tx.isSome = false := by
      rw [← Bool.not_eq_true, h.locked p]
      exact hlock
    rw [if_neg hlock]
    exact h.set trivial hnone.symm (fun tx htx => nomatch htx) trivial

/-- **A deadlock** rolls the transaction back. -/
theorem Sane.deadlock (h : s.Sane k) (hd : s.deadlock p = some s') : s'.Sane k := by
  have hfailed : (OpenPc.failed .deadlock).Sane k := rfl
  have hlock : ∀ pc, s.procs p = pc → pc.tx.isSome = true → s.lock = some p := fun pc hpc hsome =>
    (h.locked p).mp (hpc ▸ hsome)
  unfold OpenState.deadlock at hd
  split at hd
  case h_1 hpc =>
    cases hd
    exact h.free (hlock _ hpc rfl) hfailed rfl h.committed le_rfl
  case h_2 hpc =>
    cases hd
    exact h.free (hlock _ hpc rfl) hfailed rfl h.committed le_rfl
  case h_3 => cases hd

/-- A transaction sees rows that others committed. -/
theorem withTx_sane {pc : OpenPc} {tx : Tx} {db : Database} (h : pc.Sane k) (htx : pc.tx = some tx)
    (hschema : db.schema = tx.db.schema) (hfits : db.fits = true) :
    (pc.withTx { tx with db }).Sane k := by
  have hat : ∀ j, tx.At j → Stored.At j { tx with db } := fun j h =>
    ⟨h.le, h.versions, hschema.trans h.schema, hfits⟩
  have hahead : ∀ j, tx.Ahead j → Stored.Ahead j { tx with db } := fun j h =>
    ⟨h.lt, h.versions, hschema.trans h.schema, hfits⟩
  cases pc with
  | closed | waiting | opened | failed => cases htx
  | baseline r tx' => cases htx; exact ⟨h.1, hat k h.2⟩
  | recording r tx' =>
      cases htx
      exact ⟨h.1, h.2.imp (And.imp_right (hahead 0)) (And.imp_right (hat k))⟩
  | looking r v tx' =>
      cases htx
      obtain ⟨hv, hr, j, hj, hj', hrest⟩ := h
      exact ⟨hv, hr, j, hj, hat j hj', hrest⟩
  | applying r v tx' =>
      cases htx
      obtain ⟨hv, hr, j, hj, hj', hrest⟩ := h
      exact ⟨hv, hr, j, hj, hat j hj', hrest⟩
  | inserting r v tx' =>
      cases htx
      obtain ⟨hv, hr, j, hj, hj', hrest⟩ := h
      exact ⟨hv, hr, j, hj, hahead j hj', hrest⟩
  | committing r tx' =>
      cases htx
      obtain ⟨j, hj, hj', hr⟩ := h
      exact ⟨j, hj, hat j hj', hr⟩

theorem withTx_guarded {pc : OpenPc} {tx : Tx} {db : Database} (h : pc.Guarded) (htx : pc.tx = some tx) :
    (pc.withTx { tx with db }).Guarded := by
  cases pc with
  | closed | waiting | opened | failed => cases htx
  | _ => cases htx; exact h

theorem tx_withTx {pc : OpenPc} {tx tx' : Tx} (h : pc.tx = some tx) :
    (pc.withTx tx').tx = some tx' := by
  cases pc with
  | closed | waiting | opened | failed => cases h
  | _ => rfl

/-- **Rows written in between** fit what the transaction sees. -/
theorem Sane.write {tables : List String} {rows : String → List Fields} (h : s.Sane k)
    (hw : s.write tables rows = some s') : s'.Sane k := by
  simp only [OpenState.write] at hw
  split at hw
  case isTrue => cases hw
  case isFalse hfits =>
    have hfits : (s.committed.db.setRows tables rows).fits = true := by simpa using hfits
    have hcommitted : Stored.At k { s.committed with db := s.committed.db.setRows tables rows } :=
      ⟨h.committed.le, h.committed.versions, h.committed.schema, hfits⟩
    split at hw
    case h_1 hlock =>
      cases hw
      refine ⟨hcommitted, h.procs, h.locked, fun q tx htx => ?_, h.guarded⟩
      have hheld := (h.locked q).mp (by rw [htx]; rfl)
      rw [hlock] at hheld
      cases hheld
    case h_2 p hlock =>
      split at hw
      case h_1 => cases hw
      case h_2 tx htx =>
        split at hw
        case isFalse => cases hw
        case isTrue hlets =>
          cases hw
          have hapart := h.apart p tx htx
          have hview : ∀ n ∈ tables, ∀ m ∈ tx.db.schema.joined n,
              tx.db.view m = s.committed.db.view m := fun n hn m hm => by
            have hfree : n ∉ tx.locked := of_decide_eq_true (List.all_eq_true.mp hlets n hn)
            exact hapart m ((h.guarded p).joined_free (h.procs p) htx hfree hm)
          obtain ⟨-, -, -, hbefore⟩ := (h.procs p).tx_sees htx
          have hsees := fits_setRows hbefore hfits hview
          have hschema : (tx.db.setRows tables rows).schema = tx.db.schema := rfl
          refine ⟨hcommitted, fun q => ?_, fun q => ?_, fun q tx' htx' => ?_, fun q => ?_⟩
          · obtain rfl | hne := eq_or_ne q p
            · simpa [OpenState.set] using withTx_sane (h.procs q) htx hschema hsees
            · simpa [OpenState.set, Function.update_of_ne hne] using h.procs q
          · obtain rfl | hne := eq_or_ne q p
            · simp [OpenState.set, tx_withTx htx, hlock]
            · simpa [OpenState.set, Function.update_of_ne hne] using h.locked q
          · obtain rfl | hne := eq_or_ne q p
            · simp only [OpenState.set, Function.update_self, tx_withTx htx, Option.some.injEq] at htx'
              subst htx'
              exact fun name hname => view_setRows (hapart name hname)
            · simp only [OpenState.set, Function.update_of_ne hne, h.alone hlock hne] at htx'
              cases htx'
          · obtain rfl | hne := eq_or_ne q p
            · simpa [OpenState.set] using withTx_guarded (h.guarded q) htx
            · simpa [OpenState.set, Function.update_of_ne hne] using h.guarded q

/-- **One step.** -/
theorem Sane.step {e : OpenEvent} {r : Unit} (h : s.Sane k) (hs : s.step e = some (s', r)) :
    ∃ j, s'.Sane j := by
  cases e with
  | start p release =>
      simp only [OpenState.step] at hs
      split at hs
      case h_1 hclosed =>
        rw [Option.ite_none_right_eq_some, Option.some.injEq] at hs
        obtain ⟨hr, hs⟩ := hs
        cases hs
        exact ⟨k, h.set hr (by rw [hclosed]; rfl) (fun tx htx => nomatch htx) trivial⟩
      case h_2 => cases hs
  | next p =>
      obtain ⟨t, ht, heq⟩ := Option.map_eq_some_iff.mp hs
      cases heq
      exact h.next ht
  | crash p =>
      cases hs
      exact ⟨k, h.crash⟩
  | deadlock p =>
      obtain ⟨t, ht, heq⟩ := Option.map_eq_some_iff.mp hs
      cases heq
      exact ⟨k, h.deadlock ht⟩
  | write tables rows =>
      obtain ⟨t, ht, heq⟩ := Option.map_eq_some_iff.mp hs
      cases heq
      exact ⟨k, h.write ht⟩

end OpenState

/-- **Opening the store**, in every run. -/
structure StoreOpens (s : OpenState) : Prop where
  /-- what is committed is the schema of a release: every migration up to it, once and in order -/
  committed : ∃ k ≤ migrations.length, s.committed.versions = List.range' 1 k ∧
    s.committed.db.schema = schemaAt k
  /-- every row is one its table accepts, no key comes twice, and what is referred to is there -/
  fits : s.committed.db.fits = true
  /-- `open` only raises where PostgreSQL broke a deadlock -/
  fails_only : ∀ p e, s.procs p = .failed e → e = .deadlock
  /-- a process whose `open` returned finds its columns, and may leave out those that are newer -/
  opened : ∀ p r, s.procs p = .opened r → Schema.Extends (schemaAt r) s.committed.db.schema
  /-- one of this release finds every column its queries name -/
  job_columns : ∀ p, s.procs p = .opened migrations.length →
    s.committed.db.schema.Offers "jobs" jobColumns
  /-- at most one process is in its transaction -/
  one_migrator : ∀ p q, (s.procs p).tx.isSome → (s.procs q).tx.isSome → p = q
  /-- it sees the tables that it has not locked as others commit them -/
  apart : ∀ p tx, (s.procs p).tx = some tx → tx.Apart s.committed.db

theorem storeOpens {h : List (Entry OpenState OpenEvent Unit)} {s : OpenState}
    (run : openMachine.Run h s) : StoreOpens s := by
  have hsane : ∃ k, s.Sane k := by
    refine Machine.Run.invariant (I := fun _ s => ∃ k, OpenState.Sane s k) ?_
      (fun _ _ _ _ _ _ ⟨_, ih⟩ hs => ih.step hs) run
    exact ⟨0, ⟨Nat.zero_le _, rfl, rfl, rfl⟩, fun _ => trivial, fun p => by
      simp [openMachine, OpenState.init, OpenPc.tx], (fun p tx htx => nomatch htx), fun _ => trivial⟩
  obtain ⟨k, hk⟩ := hsane
  have hopened : ∀ p r, s.procs p = .opened r → Schema.Extends (schemaAt r) s.committed.db.schema := by
    intro p r hp
    have hle : (OpenPc.opened r).Sane k := hp ▸ hk.procs p
    rw [hk.committed.schema]
    exact schemaAt_extends k hk.committed.le r hle
  refine ⟨⟨k, hk.committed.le, hk.committed.versions, hk.committed.schema⟩, hk.committed.fits,
    fun p e hp => ?_, hopened, fun p hp => offers_jobColumns.extends (hopened p _ hp),
    fun p q hp hq => ?_, hk.apart⟩
  · have hfailed : (OpenPc.failed e).Sane k := hp ▸ hk.procs p
    exact hfailed
  · rw [hk.locked p] at hp
    rw [hk.locked q, hp] at hq
    exact Option.some.inj hq

/-- A row of `jobs`, and one of any other table that refers to it. -/
def sampleRow (c : String) : Option String :=
  if c = "failure_kind" then none
  else if c = "stage" then some "queued"
  else if c = "status" then some "running"
  else some "0"

/-- An older release opens the store, and a newer one takes over, after a deadlock and a crash, while
a worker still writes its heartbeat. -/
def upgrade : List OpenEvent :=
  [.start 0 4] ++ List.replicate 13 (.next 0) ++
    [.write ["jobs", "webhook_outbox"] fun _ => [sampleRow],
      .start 1 6, .next 1, .deadlock 1, .crash 1, .start 1 6, .next 1, .next 1,
      .write ["worker_heartbeats"] fun _ => [sampleRow], .crash 1, .start 1 6] ++
    List.replicate 13 (.next 1)

theorem storeOpens_upgrade : ∃ s, StoreOpens s ∧ s.committed.versions = [1, 2, 3, 4, 5, 6] ∧
    ["jobs", "webhook_outbox", "worker_heartbeats"].map (fun name => (s.committed.db.rows name).length) =
      [1, 1, 1] := by
  obtain ⟨h, s, run, hone⟩ := Machine.Run.of_exec openMachine upgrade
    (fun _ s => s.committed.versions = [1, 2, 3, 4, 5, 6] ∧
      ["jobs", "webhook_outbox", "worker_heartbeats"].map
        (fun name => (s.committed.db.rows name).length) = [1, 1, 1])
    (by decide +kernel)
  exact ⟨s, storeOpens run, of_decide_eq_true hone⟩

end Vemsa.Jobs
