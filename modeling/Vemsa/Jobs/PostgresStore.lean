import Vemsa.Support.Machine
import Vemsa.Support.Table
import Vemsa.Jobs.Codec

/-!
# Jobs — PostgresStore

The job store, statement by statement.  Three tables: the jobs, the statistics row of every
terminal job, and the webhook events to deliver.  Each store call is a function on the tables;
what the database or the clock decides (the time, the row a claim picks among several, the rows
other transactions hold locked, the ids drawn) is an argument.

`storeMachine` runs the calls in any order.  `get?_step` says what one call does to one row, and
everything about whole runs is derived from it.
-/

namespace Vemsa.Jobs
open Vemsa.Support

abbrev JobId := String
abbrev WorkerId := String
abbrev EventId := String
abbrev Path := String

/-- An instant or a span, in microseconds. -/
abbrev Time := ℤ

/-! ### Rows -/

/-- A row of `jobs`. -/
structure Row where
  id : JobId
  clientId : String
  status : JobStatus
  stage : JobStage
  createdAt : Time
  updatedAt : Time
  requestJson : Json
  audioPath : Option Path := none
  resultJson : Option Json := none
  error : Option String := none
  attempt : ℕ := 0
  leaseOwner : Option WorkerId := none
  leaseExpiresAt : Option Time := none
  cancellationRequestedAt : Option Time := none
  retryAfter : Option Time := none
  startedAt : Option Time := none
  failureKind : Option FailureKind := none
  idempotencyKey : Option String := none
  requestDigest : Option String := none

/-- `JobOutcome` -/
structure JobOutcome where
  engine : String
  model : Option String := none
  alignment : Option String := none
  device : Option String := none
  processingS : PyFloat
  audioSeconds : Option PyFloat := none
  stageSeconds : List (String × PyFloat) := []
  errorClass : Option String := none

/-- A row of `job_stats`. -/
structure StatsRow where
  jobId : JobId
  clientId : String
  status : JobStatus
  task : Option String
  engine : Option String
  model : Option String
  language : Option String
  alignment : Option String
  device : Option String
  workerId : Option WorkerId
  attempts : ℕ
  createdAt : Time
  startedAt : Option Time
  finishedAt : Time
  processingS : Option PyFloat
  audioSeconds : Option PyFloat
  stageSeconds : Option (List (String × PyFloat))
  errorClass : Option String

/-- The body of a webhook event. -/
structure WebhookPayload where
  jobId : JobId
  status : JobStatus
  result : Option (TranscriptionResult PyFloat) := none
  error : Option String := none

/-- A row of `webhook_outbox`. -/
structure OutboxRow where
  id : EventId
  jobId : JobId
  url : String
  payload : WebhookPayload
  attempt : ℕ := 0
  nextAttemptAt : Option Time
  leaseOwner : Option WorkerId := none
  leaseExpiresAt : Option Time := none
  lastError : Option String := none
  createdAt : Time

structure Tables where
  jobs : Table Row.id
  jobStats : Table StatsRow.jobId
  webhookOutbox : Table OutboxRow.id

def Tables.empty : Tables := ⟨.empty, .empty, .empty⟩

/-! ### Jobs -/

/-- `Job` -/
structure Job (P : Pydantic) where
  id : JobId
  clientId : String
  status : JobStatus
  stage : JobStage := .queued
  createdAt : Time
  updatedAt : Time
  request : JobRequest P
  audioPath : Option Path := none
  error : Option String := none
  failureKind : Option FailureKind := none
  idempotencyKey : Option String := none
  requestDigest : Option String := none
  attempt : ℕ := 0
  leaseOwner : Option WorkerId := none
  leaseExpiresAt : Option Time := none
  cancellationRequestedAt : Option Time := none
  startedAt : Option Time := none

/-- `_row_to_job` -/
def rowToJob (P : Pydantic) (row : Row) : Except ErrorDetails (Job P) :=
  match modelValidate P row.requestJson with
  | .error e => .error e
  | .ok request =>
    .ok { id := row.id, clientId := row.clientId, status := row.status, stage := row.stage,
          createdAt := row.createdAt, updatedAt := row.updatedAt, request,
          audioPath := row.audioPath, error := row.error, failureKind := row.failureKind,
          idempotencyKey := row.idempotencyKey, requestDigest := row.requestDigest,
          attempt := row.attempt, leaseOwner := row.leaseOwner,
          leaseExpiresAt := row.leaseExpiresAt,
          cancellationRequestedAt := row.cancellationRequestedAt, startedAt := row.startedAt }

/-- A job about to be submitted: a drawn id, and the idempotency key with its digest. -/
structure NewJob (P : Pydantic) where
  id : JobId
  clientId : String
  now : Time
  request : JobRequest P
  audioPath : Option Path := none
  keyed : Option (String × String) := none

/-- `new_job`, with the key and the digest `create_job` adds. -/
def NewJob.job {P : Pydantic} (new : NewJob P) : Job P where
  id := new.id
  clientId := new.clientId
  status := .queued
  createdAt := new.now
  updatedAt := new.now
  request := new.request
  audioPath := new.audioPath
  idempotencyKey := new.keyed.map Prod.fst
  requestDigest := new.keyed.map Prod.snd

def JobStatus.isTerminal : JobStatus → Bool
  | completed | failed | cancelled => true
  | queued | running => false

/-- `status IN ('queued', 'running')` -/
def Row.isActive (row : Row) : Bool := row.status = .queued || row.status = .running

/-! ### Submitting -/

/-- What `create` raises. -/
inductive CreateError where
  | idempotencyConflict
  | capacity (scope : String) (active limit : ℕ)
  | undecodable (e : ErrorDetails)
  | unstorable
  | duplicate
deriving DecidableEq

section Create

variable {P : Pydantic}

/-- `SELECT … WHERE client_id = $1 AND idempotency_key = $2` -/
def lookUpKey (t : Tables) (clientId key : String) : Option Row :=
  t.jobs.rows.find? fun r => r.clientId = clientId && r.idempotencyKey = some key

/-- `create` once the key has been looked up: `some` is the answer, `none` goes on. -/
def onKeyRow (P : Pydantic) (job : Job P) (row : Option Row) : Except CreateError (Option (Job P)) :=
  match row with
  | none => .ok none
  | some row =>
    match rowToJob P row with
    | .error e => .error (.undecodable e)
    | .ok original =>
      if original.requestDigest ≠ job.requestDigest then .error .idempotencyConflict
      else .ok (some original)

/-- `SELECT COUNT(*) … WHERE status IN ('queued', 'running')`, in all and of one client -/
def activeCounts (t : Tables) (clientId : String) : ℕ × ℕ :=
  (t.jobs.matched Row.isActive, t.jobs.matched fun r => r.isActive && r.clientId = clientId)

/-- The capacity checks of `create`. -/
def onCounts (maxActive maxActivePerClient : Option ℕ) (counts : ℕ × ℕ) : Except CreateError Unit :=
  if maxActive.any (· ≤ counts.1) then
    .error (.capacity "global" counts.1 (maxActive.getD 0))
  else if maxActivePerClient.any (· ≤ counts.2) then
    .error (.capacity "client" counts.2 (maxActivePerClient.getD 0))
  else .ok ()

/-- `$7::jsonb` of the `INSERT`: `model_dump_json` raises, or the value is refused, or there is one. -/
def onRequest (request : JobRequest P) : Except CreateError Unit :=
  if request.requestJson.isSome then .ok () else .error .unstorable

/-- The row `create` inserts; the columns it leaves out take their defaults. -/
def Job.row (job : Job P) : Row where
  id := job.id
  clientId := job.clientId
  status := job.status
  stage := job.stage
  createdAt := job.createdAt
  updatedAt := job.updatedAt
  requestJson := job.request.json
  audioPath := job.audioPath
  idempotencyKey := job.idempotencyKey
  requestDigest := job.requestDigest

/-- `INSERT INTO jobs`; `none` is a violation of the primary key or of the unique index on
`(client_id, idempotency_key)`. -/
def insertJob (t : Tables) (row : Row) : Option Tables :=
  if row.idempotencyKey.any fun key => (lookUpKey t row.clientId key).isSome then none
  else (t.jobs.insert row).map fun jobs => { t with jobs }

/-- `create`, its statements under the admission lock. -/
def create (P : Pydantic) (job : Job P) (maxActive maxActivePerClient : Option ℕ) (t : Tables) :
    Except CreateError (Tables × Job P) := do
  let row := job.idempotencyKey.bind (lookUpKey t job.clientId)
  match ← onKeyRow P job row with
  | some original => return (t, original)
  | none =>
    onCounts maxActive maxActivePerClient (activeCounts t job.clientId)
    onRequest job.request
    match insertJob t job.row with
    | none => throw .duplicate
    | some t' => return (t', job)

end Create

/-! ### Claiming and holding -/

/-- The `WHERE` clause of the claim; comparing with a `NULL` lease is not true. -/
def Row.claimable (now : Time) (excludeIds : List JobId) (row : Row) : Bool :=
  ((row.status = .queued && row.retryAfter.all (· ≤ now)) ||
    (row.status = .running && row.leaseExpiresAt.any (· < now))) && !excludeIds.contains row.id

def Row.claim (worker : WorkerId) (now leaseForS : Time) (row : Row) : Row :=
  { row with
    status := .running, updatedAt := now, attempt := row.attempt + 1, leaseOwner := some worker
    leaseExpiresAt := some (now + leaseForS), retryAfter := none
    startedAt := some (row.startedAt.getD now) }

/-- The rows `FOR UPDATE SKIP LOCKED` looks at. -/
def candidates (t : Tables) (now : Time) (excludeIds locked : List JobId) : List Row :=
  t.jobs.rows.filter fun r => r.claimable now excludeIds && !locked.contains r.id

/-- `pick` is what `ORDER BY created_at LIMIT 1` may return. -/
def mayPick (t : Tables) (now : Time) (excludeIds locked : List JobId) : Option JobId → Bool
  | none => (candidates t now excludeIds locked).isEmpty
  | some id => (candidates t now excludeIds locked).any fun r => r.id = id &&
      (candidates t now excludeIds locked).all fun r' => r.createdAt ≤ r'.createdAt

/-- `claim_next_queued`; `none` when the database cannot make that choice. -/
def claimNextQueued (worker : WorkerId) (now leaseForS : Time) (excludeIds locked : List JobId)
    (pick : Option JobId) (t : Tables) : Option (Tables × Option Row) :=
  if mayPick t now excludeIds locked pick then
    let jobs := t.jobs.update (fun r => some r.id = pick) (Row.claim worker now leaseForS)
      fun _ => rfl
    some ({ t with jobs }, pick.bind jobs.get?)
  else none

/-- `WHERE id = … AND status = 'running'`, and the owner clause if a worker is given. -/
def Row.heldBy (jobId : JobId) (worker : Option WorkerId) (row : Row) : Bool :=
  row.id = jobId && row.status = .running && worker.all fun w => row.leaseOwner = some w

/-- An `UPDATE` on the rows `hit` selects, and whether it was `UPDATE 1`. -/
def Tables.updateJobs (t : Tables) (hit : Row → Bool) (f : Row → Row) (hf : ∀ r, (f r).id = r.id) :
    Tables × Bool :=
  ({ t with jobs := t.jobs.update hit f hf }, t.jobs.matched hit = 1)

def Row.release (now retryAfterS : Time) (row : Row) : Row :=
  { row with
    status := .queued, stage := .queued, leaseOwner := none, leaseExpiresAt := none
    retryAfter := some (now + retryAfterS), updatedAt := now }

/-- `release_for_retry` -/
def releaseForRetry (jobId : JobId) (worker : WorkerId) (now retryAfterS : Time) (t : Tables) :
    Tables × Bool :=
  t.updateJobs (Row.heldBy jobId (some worker)) (Row.release now retryAfterS) fun _ => rfl

/-- `set_audio_path` -/
def setAudioPath (jobId : JobId) (audioPath : Path) (now : Time) (t : Tables) : Tables :=
  (t.updateJobs (fun r => r.id = jobId)
    (fun r => { r with audioPath := some audioPath, updatedAt := now }) fun _ => rfl).1

/-- `set_stage` -/
def setStage (jobId : JobId) (stage : JobStage) (worker : Option WorkerId) (now : Time)
    (t : Tables) : Tables × Bool :=
  t.updateJobs (Row.heldBy jobId worker) (fun r => { r with stage, updatedAt := now }) fun _ => rfl

/-- `renew_lease`, which reads the clock twice -/
def renewLease (jobId : JobId) (worker : WorkerId) (leaseForS now now' : Time) (t : Tables) :
    Tables × Bool :=
  t.updateJobs (Row.heldBy jobId (some worker))
    (fun r => { r with leaseExpiresAt := some (now + leaseForS), updatedAt := now' }) fun _ => rfl

/-! ### Terminal transitions -/

/-- `request_json->>key` of a string -/
def Json.text (key : String) : Json → Option String
  | .obj fields =>
    match fields.lookup key with
    | some (.str s) => some s
    | _ => none
  | _ => none

/-- The id and the time an event is inserted with. -/
structure EventStamp where
  id : EventId
  now : Time

/-- A terminal transition: what `cancel`, `finish` and `fail` record once their update has hit. -/
structure Verdict where
  jobId : JobId
  status : JobStatus
  now : Time
  worker : Option WorkerId := none
  outcome : Option JobOutcome := none
  webhookUrl : Option String
  stamp : EventStamp
  payload : WebhookPayload

/-- The row `_insert_job_stats` selects from the row of the job. -/
def Verdict.statsRow (v : Verdict) (row : Row) : StatsRow where
  jobId := row.id
  clientId := row.clientId
  status := v.status
  task := Json.text "task" row.requestJson
  engine := v.outcome.map JobOutcome.engine
  model := v.outcome.bind JobOutcome.model
  language := Json.text "language" row.requestJson
  alignment := v.outcome.bind JobOutcome.alignment
  device := v.outcome.bind JobOutcome.device
  workerId := v.worker
  attempts := row.attempt
  createdAt := row.createdAt
  startedAt := row.startedAt
  finishedAt := v.now
  processingS := v.outcome.map JobOutcome.processingS
  audioSeconds := v.outcome.bind JobOutcome.audioSeconds
  stageSeconds := (v.outcome.map JobOutcome.stageSeconds).filter (!·.isEmpty)
  errorClass := v.outcome.bind JobOutcome.errorClass

/-- `_insert_job_stats`, with its `ON CONFLICT DO NOTHING` -/
def insertJobStats (t : Tables) (v : Verdict) : Tables :=
  match t.jobs.get? v.jobId with
  | none => t
  | some row =>
    match t.jobStats.insert (v.statsRow row) with
    | none => t
    | some jobStats => { t with jobStats }

/-- The event `_insert_webhook` inserts. -/
def Verdict.event (v : Verdict) (url : String) : OutboxRow where
  id := v.stamp.id
  jobId := v.jobId
  url := url
  payload := v.payload
  nextAttemptAt := some v.stamp.now
  createdAt := v.stamp.now

/-- `json.dumps` writes a `NaN` or an infinity out, and `jsonb` does not read that. -/
def WebhookPayload.storable (payload : WebhookPayload) : Bool :=
  payload.result.all fun result => result.Finite

/-- `_insert_webhook`, if there is a URL; `none` is an error of the database. -/
def insertWebhook (t : Tables) (v : Verdict) : Option Tables :=
  match v.webhookUrl with
  | none => some t
  | some url =>
    if v.payload.storable then
      (t.webhookOutbox.insert (v.event url)).map fun webhookOutbox => { t with webhookOutbox }
    else none

/-- The transaction of `cancel`, `finish` and `fail`: the update, and if it was `UPDATE 1` the
statistics row and the event.  `none` rolls all of it back. -/
def settle (t : Tables) (hit : Row → Bool) (f : Row → Row) (hf : ∀ r, (f r).id = r.id)
    (v : Verdict) : Option (Tables × Bool) :=
  match t.updateJobs hit f hf with
  | (t', false) => some (t', false)
  | (t', true) => (insertWebhook (insertJobStats t' v) v).map fun t'' => (t'', true)

def Row.cancel (now : Time) (row : Row) : Row :=
  { row with
    status := .cancelled, updatedAt := now, failureKind := some .cancelled
    cancellationRequestedAt := some now, leaseOwner := none, leaseExpiresAt := none }

/-- `WHERE id = … AND client_id = … AND status IN ('queued', 'running')` -/
def Row.cancellable (jobId : JobId) (clientId : String) (row : Row) : Bool :=
  row.id = jobId && row.clientId = clientId && row.isActive

/-- `cancel`, up to the row it returns -/
def cancel (jobId : JobId) (clientId : String) (webhookUrl : Option String) (stamp : EventStamp)
    (now : Time) (t : Tables) : Option (Tables × Option Row) :=
  (settle t (Row.cancellable jobId clientId) (Row.cancel now) (fun _ => rfl)
    { jobId, status := .cancelled, now, webhookUrl, stamp
      payload := { jobId, status := .cancelled } }).map
    fun (t', b) => (t', if b then t'.jobs.get? jobId else none)

def Row.finish (result : TranscriptionResult PyFloat) (now : Time) (row : Row) : Row :=
  { row with
    status := .completed, resultJson := some result.dump, updatedAt := now, leaseOwner := none
    leaseExpiresAt := none }

/-- `finish`; the result is written before any row is looked at, and `none` is also one that cannot be. -/
def finish (P : Pydantic) (jobId : JobId) (result : TranscriptionResult PyFloat)
    (worker : Option WorkerId) (webhookUrl : Option String) (outcome : Option JobOutcome)
    (stamp : EventStamp) (now : Time) (t : Tables) : Option (Tables × Bool) :=
  if (result.resultJson P).isSome then
    settle t (Row.heldBy jobId worker) (Row.finish result now) (fun _ => rfl)
      { jobId, status := .completed, now, worker, outcome, webhookUrl, stamp
        payload := { jobId, status := .completed, result := some result } }
  else none

def Row.fail (error : String) (kind : FailureKind) (now : Time) (row : Row) : Row :=
  { row with
    status := .failed, error := some error, updatedAt := now, failureKind := some kind
    leaseOwner := none, leaseExpiresAt := none }

/-- `fail` -/
def fail (jobId : JobId) (error : String) (kind : FailureKind) (worker : Option WorkerId)
    (webhookUrl : Option String) (outcome : Option JobOutcome) (stamp : EventStamp) (now : Time)
    (t : Tables) : Option (Tables × Bool) :=
  settle t (Row.heldBy jobId worker) (Row.fail error kind now) (fun _ => rfl)
    { jobId, status := .failed, now, worker, outcome, webhookUrl, stamp
      payload := { jobId, status := .failed, error := some error } }

/-! ### Reading -/

/-- `get` -/
def get (P : Pydantic) (jobId : JobId) (clientId : Option String) (t : Tables) :
    Except ErrorDetails (Option (Job P)) :=
  match (t.jobs.get? jobId).filter fun r => clientId.all (r.clientId = ·) with
  | none => .ok none
  | some row => (rowToJob P row).map some

/-- `get_result` -/
def getResult (P : Pydantic) (jobId : JobId) (clientId : Option String) (t : Tables) :
    Except ErrorDetails (Option (TranscriptionResult PyFloat)) :=
  match ((t.jobs.get? jobId).filter fun r => clientId.all (r.clientId = ·)).bind Row.resultJson with
  | none => .ok none
  | some value => (TranscriptionResult.decode P value).map some

/-! ### Retention and delivery -/

/-- `WHERE status IN ('completed', 'failed', 'cancelled') AND updated_at < cutoff` -/
def Row.expired (cutoff : Time) (row : Row) : Bool :=
  row.status.isTerminal && row.updatedAt < cutoff

/-- `purge_older_than`; the events of a deleted job go with it. -/
def purgeOlderThan (cutoff : Time) (t : Tables) : Tables × List Row :=
  let deleted := t.jobs.rows.filter (Row.expired cutoff)
  ({ t with
      jobs := t.jobs.delete (Row.expired cutoff)
      webhookOutbox := t.webhookOutbox.delete fun e => deleted.any fun r => r.id = e.jobId },
    deleted)

/-- `purge_stats_older_than`, the statement on `job_stats` -/
def purgeStatsOlderThan (cutoff : Time) (t : Tables) : Tables :=
  { t with jobStats := t.jobStats.delete fun s => s.finishedAt < cutoff }

/-- The `WHERE` clause of `claim_webhook`. -/
def OutboxRow.due (now : Time) (e : OutboxRow) : Bool :=
  e.nextAttemptAt.any (· ≤ now) && e.leaseExpiresAt.all (· < now)

/-- The event `claim_webhook` may pick, as for `claim_next_queued` -/
def mayPickWebhook (t : Tables) (now : Time) (locked : List EventId) : Option EventId → Bool :=
  let free := t.webhookOutbox.rows.filter fun e => e.due now && !locked.contains e.id
  fun
    | none => free.isEmpty
    | some id => free.any fun e => e.id = id && free.all fun e' =>
        e.nextAttemptAt.getD 0 ≤ e'.nextAttemptAt.getD 0

/-- `claim_webhook` -/
def claimWebhook (worker : WorkerId) (now leaseForS : Time) (locked : List EventId)
    (pick : Option EventId) (t : Tables) : Option (Tables × Option OutboxRow) :=
  if mayPickWebhook t now locked pick then
    let webhookOutbox := t.webhookOutbox.update (fun e => some e.id = pick)
      (fun e => { e with leaseOwner := some worker, leaseExpiresAt := some (now + leaseForS) })
      fun _ => rfl
    some ({ t with webhookOutbox }, pick.bind webhookOutbox.get?)
  else none

/-- `mark_webhook_delivered` -/
def markWebhookDelivered (id : EventId) (worker : WorkerId) (t : Tables) : Tables :=
  { t with
    webhookOutbox := t.webhookOutbox.delete fun e => e.id = id && e.leaseOwner = some worker }

/-- `reschedule_webhook` -/
def rescheduleWebhook (id : EventId) (worker : WorkerId) (error : String) (delayS now : Time)
    (maxAttempts : ℕ) (t : Tables) : Tables × Bool :=
  let hit : OutboxRow → Bool := fun e => e.id = id && e.leaseOwner = some worker
  let webhookOutbox := t.webhookOutbox.update hit
    (fun e =>
      { e with
        attempt := e.attempt + 1
        nextAttemptAt := if maxAttempts ≤ e.attempt + 1 then none else some (now + delayS)
        leaseOwner := none, leaseExpiresAt := none
        lastError := some (.ofList (error.toList.take 1000)) })
    fun _ => rfl
  ({ t with webhookOutbox },
    ((if t.webhookOutbox.matched hit = 1 then webhookOutbox.get? id else none).bind
      OutboxRow.nextAttemptAt).isNone)

end Vemsa.Jobs
