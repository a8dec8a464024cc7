import Mathlib
import Vemsa.Jobs.Lifecycle

/-!
# Jobs — Queue

The processes around the store, in any interleaving: submissions and cancellations on the API side,
any number of workers, each with a claim loop and one task per job it has in flight, the retention
purge, and the audio files they share.

A step of the system is at most one store call (`Event.call`) and then what the process that made
it does before its next one (`System.react`).  Nothing is fair: a process that stalls or dies is one
that takes no further step.
-/

namespace Vemsa.Jobs
open Vemsa.Support

/-- The settings that decide a transition, as they are validated. -/
structure Settings where
  oomMaxAttempts : ℕ
  maxQueuedJobs : ℕ
  maxQueuedJobsPerClient : ℕ
  oom_pos : 1 ≤ oomMaxAttempts
  client_pos : 0 < maxQueuedJobsPerClient
  client_le : maxQueuedJobsPerClient ≤ maxQueuedJobs

/-- `ORPHAN_MAX_AGE_S` -/
def orphanMaxAge : Time := 24 * 3600 * 1000000

/-! ### Processes -/

section Processes

variable (P : Pydantic)

/-- Where `create_job`, or `_submit`, stands in `create` and after it. -/
inductive SubmissionPc where
  | waiting
  | locked
  | lookedUp
  | counted
  | inserted
  | admitted (id : JobId)
  | refused (e : CreateError)
  | answered (r : Except CreateError JobId)

/-- The statements of `create`, the commit, and the end of `create_job`. -/
inductive Statement where
  | lockAdmission
  | lookUpKey
  | countActive
  | insert
  | commit
  | answer

structure Submission where
  new : NewJob P
  pc : SubmissionPc

/-- Where `_worker_loop` stands. -/
inductive LoopPc where
  | idle
  | claiming (excludeIds : List JobId)
  | claimed (job : Job P)

/-- Where `_process_job` stands. -/
inductive TaskPc where
  | renewing
  | fetching
  | recording
  | working
  | finalizing (result : TranscriptionResult PyFloat)
  | finishing (result : TranscriptionResult PyFloat)
  | releasing
  | failing
  /-- a guarded call returned `False`; `get` is next -/
  | asking
  /-- the `finally` clause -/
  | leaving (deleteAudio : Bool)

/-- A job task: `_run_job` of one claim. -/
structure Task where
  worker : WorkerId
  job : Job P
  audioPath : Option Path
  pc : TaskPc

/-- What a job task does next. -/
inductive Act where
  | renew (leaseForS now now' : Time)
  | fetched (path : Path) (mtime : Time)
  | record (now : Time)
  | reportStage (stage : JobStage) (now : Time)
  | produced (result : TranscriptionResult PyFloat)
  | raised (outOfMemory : Bool)
  | finalize (now : Time)
  | finish (outcome : JobOutcome) (stamp : EventStamp) (now : Time)
  | release (now retryAfterS : Time)
  | fail (error : String) (kind : FailureKind) (outcome : JobOutcome) (stamp : EventStamp)
      (now : Time)
  | ask
  | interrupt
  | leave

/-- One step of the system. -/
inductive Event where
  | submit (new : NewJob P) (mtime : Time)
  | create (id : JobId) (statement : Statement)
  | cancelJob (jobId : JobId) (clientId : String) (stamp : EventStamp) (now : Time)
  | unlinkCancelled (path : Path)
  | beginClaim (worker : WorkerId)
  | claim (worker : WorkerId) (now leaseForS : Time) (locked : List JobId) (pick : Option JobId)
  | runJob (worker : WorkerId)
  | task (n : ℕ) (act : Act)
  | purge (cutoff : Time)
  | unlinkPurged (path : Path)
  | sweep (now : Time) (path : Path)
  | background (call : Call P)

end Processes

/-- The state of all processes, the tables, and the files under `work_dir`. -/
structure System (P : Pydantic) where
  db : Db
  drawn : List JobId
  /-- the modification time of every file there is -/
  files : Path → Option Time
  /-- the job every path ever drawn was drawn for -/
  madeFor : Path → Option JobId
  admissionLock : Option JobId
  submissions : JobId → Option (Submission P)
  /-- the files `cancel_job` is about to unlink -/
  cancelled : List Path
  /-- the files `purge_once` is about to unlink -/
  purged : List Path
  loops : WorkerId → LoopPc P
  /-- `_active` of every worker -/
  active : List (WorkerId × JobId)
  tasks : ℕ → Option (Task P)
  /-- how many tasks were ever started -/
  started : ℕ

namespace System

variable {P : Pydantic}

def init (P : Pydantic) : System P where
  db := ⟨.empty, []⟩
  drawn := []
  files _ := none
  madeFor _ := none
  admissionLock := none
  submissions _ := none
  cancelled := []
  purged := []
  loops _ := .idle
  active := []
  tasks _ := none
  started := 0

/-! ### Files -/

/-- `path.unlink(missing_ok=True)`, if there is a path -/
def unlink (s : System P) (path : Option Path) : System P :=
  { s with files := fun p => if path = some p then none else s.files p }

/-- A file is written to a path nobody drew before. -/
def writeFile (s : System P) (path : Path) (id : JobId) (mtime : Time) : Option (System P) :=
  if (s.madeFor path).isSome then none
  else some
    { s with
      files := Function.update s.files path (some mtime)
      madeFor := Function.update s.madeFor path (some id) }

/-! ### Submissions -/

def setSubmission (s : System P) (new : NewJob P) (pc : SubmissionPc) : System P :=
  { s with submissions := Function.update s.submissions new.id (some ⟨new, pc⟩) }

/-- The transaction of `create` ends, and with it the lock. -/
def unlock (s : System P) : System P := { s with admissionLock := none }

/-! ### Workers -/

def setLoop (s : System P) (worker : WorkerId) (pc : LoopPc P) : System P :=
  { s with loops := Function.update s.loops worker pc }

def setTask (s : System P) (n : ℕ) (t : Task P) : System P :=
  { s with tasks := Function.update s.tasks n (some t) }

/-- `tuple(self._active)` -/
def activeIds (s : System P) (worker : WorkerId) : List JobId :=
  (s.active.filter fun a => a.1 = worker).map Prod.snd

end System

variable {P : Pydantic}

/-- The errors `create_job` unlinks the upload for. -/
def CreateError.isRefusal : CreateError → Bool
  | idempotencyConflict | capacity .. => true
  | undecodable _ | unstorable | duplicate => false

/-- `str(job.request.webhook_url) if job.request.webhook_url else None` -/
def Job.webhookUrl (job : Job P) : Option String := job.request.fields.webhookUrl.map P.urlText

/-- The store call of a task. -/
def Task.call (t : Task P) (act : Act) : Option (Call P) :=
  match t.pc, act with
  | .renewing, .renew leaseForS now now' => some (.renewLease t.job.id t.worker leaseForS now now')
  | .recording, .record now => t.audioPath.map fun path => .setAudioPath t.job.id path now
  | .working, .reportStage stage now => some (.setStage t.job.id stage t.worker now)
  | .finalizing _, .finalize now => some (.setStage t.job.id .finalizing t.worker now)
  | .finishing result, .finish outcome stamp now =>
    some (.finish t.job.id result t.worker t.job.webhookUrl (some outcome) stamp now)
  | .releasing, .release now retryAfterS =>
    some (.releaseForRetry t.job.id t.worker now retryAfterS)
  | .failing, .fail error kind outcome stamp now =>
    some (.fail t.job.id error kind t.worker t.job.webhookUrl (some outcome) stamp now)
  | _, _ => none

/-- `current is not None and current.status == JobStatus.CANCELLED`; a job that was claimed
decodes. -/
def isCancelled (P : Pydantic) (id : JobId) (tables : Tables) : Bool :=
  match get P id none tables with
  | .ok (some job) => job.status = .cancelled
  | _ => false

/-- `_process_job`, from one suspension to the next; `hit` is what the store call returned. -/
def Task.next (st : Settings) (t : Task P) (tables : Tables) (hit : Bool) (act : Act) :
    Option (Task P) :=
  match t.pc, act with
  | .renewing, .renew .. =>
    some { t with pc := if !hit then .asking else if t.audioPath.isNone then .fetching else .working }
  | .fetching, .fetched path _ => some { t with pc := .recording, audioPath := some path }
  | .recording, .record _ => some { t with pc := .working }
  | .working, .reportStage .. => some { t with pc := if hit then .working else .asking }
  | .working, .produced result => some { t with pc := .finalizing result }
  | .fetching, .raised outOfMemory | .working, .raised outOfMemory =>
    some { t with
      pc := if outOfMemory && t.job.attempt < st.oomMaxAttempts then .releasing else .failing }
  | .finalizing result, .finalize _ => some { t with pc := if hit then .finishing result else .asking }
  -- the database refuses what it is to store; that is not an out-of-memory error
  | .finishing _, .raised false => some { t with pc := .failing }
  | .finishing _, .finish .. => some { t with pc := if hit then .leaving true else .asking }
  | .releasing, .release .. => some { t with pc := if hit then .leaving false else .failing }
  | .failing, .fail .. => some { t with pc := if hit then .leaving true else .asking }
  | .asking, .ask => some { t with pc := .leaving (isCancelled P t.job.id tables) }
  | .leaving _, _ => none
  | _, .interrupt => some { t with pc := .leaving false }
  | _, _ => none

/-- The calls that change nothing else: the heartbeats of the control loop and its stage updates,
which can land late, the statistics purge, and webhook delivery. -/
def Call.isBackground : Call P → Bool
  | renewLease .. | setStage .. | purgeStatsOlderThan _ | claimWebhook .. | markWebhookDelivered ..
  | rescheduleWebhook .. => true
  | _ => false

/-- The store call of a step. -/
def Event.call (s : System P) : Event P → Option (Call P)
  | create id .commit =>
    match s.submissions id with
    | some ⟨new, .inserted⟩ => some (.create new none none)
    | _ => none
  | cancelJob jobId clientId stamp now =>
    -- what `get` saw may have changed by the time of `cancel`, but only to a status `cancel` refuses
    match get P jobId (some clientId) s.db.tables with
    | .ok (some job) =>
      if job.status.isTerminal then none
      else some (.cancel jobId clientId job.webhookUrl stamp now)
    | _ => none
  | claim worker now leaseForS locked pick =>
    match s.loops worker with
    | .claiming excludeIds => some (.claimNextQueued worker now leaseForS excludeIds locked pick)
    | _ => none
  | task n act => (s.tasks n).bind fun t => t.call act
  | purge cutoff => some (.purgeOlderThan cutoff)
  | background call => if call.isBackground then some call else none
  | _ => none

namespace System

/-- The next statement of a submission.  To the store the commit is a `create` without caps: until
then nobody sees the row, and after it everybody does. -/
def onStatement (st : Settings) (s : System P) (reply : Option (Reply P)) (new : NewJob P)
    (pc : SubmissionPc) (statement : Statement) : Option (System P) :=
  match pc, statement with
  | .waiting, .lockAdmission =>
    if s.admissionLock.isSome then none
    else some ({ s with admissionLock := some new.id }.setSubmission new .locked)
  | .locked, .lookUpKey =>
    match onKeyRow P new.job (new.job.idempotencyKey.bind (lookUpKey s.db.tables new.clientId)) with
    | .error e => some (s.unlock.setSubmission new (.refused e))
    | .ok (some original) => some (s.unlock.setSubmission new (.admitted original.id))
    | .ok none => some (s.setSubmission new .lookedUp)
  | .lookedUp, .countActive =>
    match onCounts (some st.maxQueuedJobs) (some st.maxQueuedJobsPerClient)
      (activeCounts s.db.tables new.clientId) with
    | .error e => some (s.unlock.setSubmission new (.refused e))
    | .ok () => some (s.setSubmission new .counted)
  | .counted, .insert =>
    match onRequest new.request with
    | .error e => some (s.unlock.setSubmission new (.refused e))
    | .ok () =>
      match insertJob s.db.tables new.job.row with
      | none => some (s.unlock.setSubmission new (.refused .duplicate))
      | some _ => some (s.setSubmission new .inserted)
  | .inserted, .commit =>
    match reply with
    | some (.created (.ok _)) => some (s.unlock.setSubmission new (.admitted new.id))
    | _ => none
  | .admitted id, .answer =>
    some ((if id = new.id then s else s.unlink new.audioPath).setSubmission new (.answered (.ok id)))
  | .refused e, .answer =>
    some ((if e.isRefusal then s.unlink new.audioPath else s).setSubmission new
      (.answered (.error e)))
  | _, _ => none

/-- What the process does once its store call has returned `reply`. -/
def react (st : Settings) (s : System P) (reply : Option (Reply P)) : Event P → Option (System P)
  | .submit new mtime =>
    if new.id ∈ s.drawn then none
    else
      let s := { s with drawn := new.id :: s.drawn }.setSubmission new .waiting
      match new.audioPath with
      | none => some s
      | some path => s.writeFile path new.id mtime
  | .create id statement =>
    match s.submissions id with
    | none => none
    | some ⟨new, pc⟩ => s.onStatement st reply new pc statement
  | .cancelJob .. =>
    match reply with
    | some (.row (some row)) =>
      some { s with cancelled := (if row.attempt = 0 then row.audioPath.toList else []) ++ s.cancelled }
    | some (.row none) => some s
    | _ => none
  | .unlinkCancelled path =>
    if path ∈ s.cancelled then
      some ({ s with cancelled := s.cancelled.erase path }.unlink (some path))
    else none
  | .beginClaim worker =>
    match s.loops worker with
    | .idle => some (s.setLoop worker (.claiming (s.activeIds worker)))
    | _ => none
  | .claim worker .. =>
    match s.loops worker, reply with
    | .claiming _, some (.row none) => some (s.setLoop worker .idle)
    | .claiming _, some (.row (some row)) =>
      match rowToJob P row with
      | .error _ => some (s.setLoop worker .idle)
      | .ok job => some (s.setLoop worker (.claimed job))
    | _, _ => none
  | .runJob worker =>
    match s.loops worker with
    | .claimed job =>
      some { (s.setLoop worker .idle).setTask s.started ⟨worker, job, job.audioPath, .renewing⟩ with
        active := (worker, job.id) :: s.active, started := s.started + 1 }
    | _ => none
  | .task n act =>
    match s.tasks n with
    | none => none
    | some t =>
      match act with
      | .leave =>
        match t.pc with
        | .leaving deleteAudio =>
          some { (if deleteAudio then s.unlink t.audioPath else s) with
            tasks := Function.update s.tasks n none
            active := s.active.filter fun a => a ≠ (t.worker, t.job.id) }
        | _ => none
      | .fetched path mtime =>
        (t.next st s.db.tables false act).bind fun t' =>
          (s.setTask n t').writeFile path t.job.id mtime
      | act => (t.next st s.db.tables (reply.any Reply.positive) act).map (s.setTask n)
  | .purge _ =>
    match reply with
    | some (.rows rows) =>
      -- a row that does not decode keeps `purge_once` from unlinking anything
      let paths := if rows.all fun row => (rowToJob P row).isOk then rows.filterMap Row.audioPath else []
      some { s with purged := paths ++ s.purged }
    | _ => none
  | .unlinkPurged path =>
    if path ∈ s.purged then some ({ s with purged := s.purged.erase path }.unlink (some path))
    else none
  | .sweep now path =>
    match s.files path with
    | none => none
    | some mtime => some (if mtime < now - orphanMaxAge then s.unlink (some path) else s)
  | .background _ => if reply.isSome then some s else none

/-- One step: the store call, if there is one, and what follows it. -/
def step (st : Settings) (s : System P) (e : Event P) : Option (System P × Option (Reply P)) :=
  match e.call s with
  | none => (s.react st none e).map fun s' => (s', none)
  | some c =>
    match c.step s.db with
    | none => none
    | some (db, r) => (react st { s with db } (some r) e).map fun s' => (s', some r)

end System

/-- The system, from empty tables and an empty `work_dir`. -/
def systemMachine (P : Pydantic) (st : Settings) :
    Machine (System P) (Event P) (Option (Reply P)) where
  init := .init P
  step := System.step st

/-! ### What a step can do -/

theorem update_some_eq_some {α β : Type*} [DecidableEq α] {f : α → Option β} {a b : α} {x y : β} :
    Function.update f a (some x) b = some y ↔ b = a ∧ x = y ∨ b ≠ a ∧ f b = some y := by
  by_cases h : b = a
  · subst h
    simp
  · simp [h]

theorem update_none_eq_some {α β : Type*} [DecidableEq α] {f : α → Option β} {a b : α} {y : β} :
    Function.update f a none b = some y ↔ b ≠ a ∧ f b = some y := by
  by_cases h : b = a
  · subst h
    simp
  · simp [h]

theorem Task.call_fetched (t : Task P) (path : Path) (mtime : Time) :
    t.call (.fetched path mtime) = none := by
  obtain ⟨worker, job, audioPath, pc⟩ := t
  cases pc <;> rfl

theorem Task.next_fetched {st : Settings} {t t' : Task P} {tables : Tables} {hit : Bool} {path : Path}
    {mtime : Time} (h : t.next st tables hit (.fetched path mtime) = some t') :
    t.pc = .fetching ∧ t' = { t with pc := .recording, audioPath := some path } := by
  obtain ⟨worker, job, audioPath, pc⟩ := t
  cases pc <;> simp only [Task.next, reduceCtorEq, Option.some.injEq] at h
  exact ⟨rfl, h.symm⟩

namespace System

variable {st : Settings} {s s' : System P} {e : Event P} {r : Option (Reply P)}

/-- The call of a task, made or not. -/
def Called (c : Option (Call P)) (db : Db) (r : Option (Reply P)) (db' : Db) : Prop :=
  (c = none ∧ r = none ∧ db' = db) ∨ ∃ c₀ r₀, c = some c₀ ∧ r = some r₀ ∧ c₀.step db = some (db', r₀)

/-- **Everything a statement of a submission can do**, the commit apart. -/
inductive OnStatement (st : Settings) (s : System P) (new : NewJob P) :
    SubmissionPc → Statement → System P → Prop where
  | locked (hlock : s.admissionLock = none) :
      OnStatement st s new .waiting .lockAdmission
        ({ s with admissionLock := some new.id }.setSubmission new .locked)
  | keyFailed (e : CreateError)
      (hrow : onKeyRow P new.job (new.job.idempotencyKey.bind (lookUpKey s.db.tables new.clientId)) =
        .error e) :
      OnStatement st s new .locked .lookUpKey (s.unlock.setSubmission new (.refused e))
  | keyFound (original : Job P)
      (hrow : onKeyRow P new.job (new.job.idempotencyKey.bind (lookUpKey s.db.tables new.clientId)) =
        .ok (some original)) :
      OnStatement st s new .locked .lookUpKey (s.unlock.setSubmission new (.admitted original.id))
  | keyNew
      (hrow : onKeyRow P new.job (new.job.idempotencyKey.bind (lookUpKey s.db.tables new.clientId)) =
        .ok none) :
      OnStatement st s new .locked .lookUpKey (s.setSubmission new .lookedUp)
  | full (e : CreateError)
      (hcounts : onCounts (some st.maxQueuedJobs) (some st.maxQueuedJobsPerClient)
        (activeCounts s.db.tables new.clientId) = .error e) :
      OnStatement st s new .lookedUp .countActive (s.unlock.setSubmission new (.refused e))
  | counted
      (hcounts : onCounts (some st.maxQueuedJobs) (some st.maxQueuedJobsPerClient)
        (activeCounts s.db.tables new.clientId) = .ok ()) :
      OnStatement st s new .lookedUp .countActive (s.setSubmission new .counted)
  | unstorable (hrequest : onRequest new.request = .error .unstorable) :
      OnStatement st s new .counted .insert (s.unlock.setSubmission new (.refused .unstorable))
  | duplicate (hins : insertJob s.db.tables new.job.row = none) :
      OnStatement st s new .counted .insert (s.unlock.setSubmission new (.refused .duplicate))
  | inserted (t : Tables) (hrequest : onRequest new.request = .ok ())
      (hins : insertJob s.db.tables new.job.row = some t) :
      OnStatement st s new .counted .insert (s.setSubmission new .inserted)
  | admitted (id : JobId) :
      OnStatement st s new (.admitted id) .answer
        ((if id = new.id then s else s.unlink new.audioPath).setSubmission new (.answered (.ok id)))
  | refused (e : CreateError) :
      OnStatement st s new (.refused e) .answer
        ((if e.isRefusal then s.unlink new.audioPath else s).setSubmission new
          (.answered (.error e)))

/-- **Everything a step can do.** -/
inductive Step (st : Settings) (s : System P) : Event P → Option (Reply P) → System P → Prop where
  | submit (new : NewJob P) (mtime : Time) (hid : new.id ∉ s.drawn) (haudio : new.audioPath = none) :
      Step st s (.submit new mtime) none
        ({ s with drawn := new.id :: s.drawn }.setSubmission new .waiting)
  | upload (new : NewJob P) (mtime : Time) (path : Path) (hid : new.id ∉ s.drawn)
      (haudio : new.audioPath = some path) (hpath : s.madeFor path = none) :
      Step st s (.submit new mtime) none
        { { s with drawn := new.id :: s.drawn }.setSubmission new .waiting with
          files := Function.update s.files path (some mtime)
          madeFor := Function.update s.madeFor path (some new.id) }
  | statement (id : JobId) (statement : Statement) (new : NewJob P) (pc : SubmissionPc)
      (s' : System P) (hsub : s.submissions id = some ⟨new, pc⟩)
      (hs : OnStatement st s new pc statement s') :
      Step st s (.create id statement) none s'
  | commit (id : JobId) (new : NewJob P) (db : Db) (job : Job P)
      (hsub : s.submissions id = some ⟨new, .inserted⟩)
      (hdb : (Call.create new none none).step s.db = some (db, .created (.ok job))) :
      Step st s (.create id .commit) (some (.created (.ok job)))
        ({ s with db }.unlock.setSubmission new (.admitted new.id))
  | cancel (jobId : JobId) (clientId : String) (url : Option String) (stamp : EventStamp) (now : Time)
      (db : Db) (row : Row)
      (hdb : (Call.cancel (P := P) jobId clientId url stamp now).step s.db =
        some (db, .row (some row))) :
      Step st s (.cancelJob jobId clientId stamp now) (some (.row (some row)))
        { s with
          db, cancelled := (if row.attempt = 0 then row.audioPath.toList else []) ++ s.cancelled }
  | cancelMissed (jobId : JobId) (clientId : String) (url : Option String) (stamp : EventStamp)
      (now : Time) (db : Db)
      (hdb : (Call.cancel (P := P) jobId clientId url stamp now).step s.db = some (db, .row none)) :
      Step st s (.cancelJob jobId clientId stamp now) (some (.row none)) { s with db }
  | unlinkCancelled (path : Path) (hpath : path ∈ s.cancelled) :
      Step st s (.unlinkCancelled path) none
        ({ s with cancelled := s.cancelled.erase path }.unlink (some path))
  | beginClaim (worker : WorkerId) (hloop : s.loops worker = .idle) :
      Step st s (.beginClaim worker) none (s.setLoop worker (.claiming (s.activeIds worker)))
  | claimNone (worker : WorkerId) (now leaseForS : Time) (excludeIds locked : List JobId)
      (pick : Option JobId) (db : Db) (hloop : s.loops worker = .claiming excludeIds)
      (hdb : (Call.claimNextQueued (P := P) worker now leaseForS excludeIds locked pick).step s.db =
        some (db, .row none)) :
      Step st s (.claim worker now leaseForS locked pick) (some (.row none))
        ({ s with db }.setLoop worker .idle)
  | claimUndecodable (worker : WorkerId) (now leaseForS : Time) (excludeIds locked : List JobId)
      (pick : Option JobId) (db : Db) (row : Row) (error : ErrorDetails)
      (hloop : s.loops worker = .claiming excludeIds)
      (hdb : (Call.claimNextQueued (P := P) worker now leaseForS excludeIds locked pick).step s.db =
        some (db, .row (some row))) (hrow : rowToJob P row = .error error) :
      Step st s (.claim worker now leaseForS locked pick) (some (.row (some row)))
        ({ s with db }.setLoop worker .idle)
  | claimed (worker : WorkerId) (now leaseForS : Time) (excludeIds locked : List JobId)
      (pick : Option JobId) (db : Db) (row : Row) (job : Job P)
      (hloop : s.loops worker = .claiming excludeIds)
      (hdb : (Call.claimNextQueued (P := P) worker now leaseForS excludeIds locked pick).step s.db =
        some (db, .row (some row))) (hrow : rowToJob P row = .ok job) :
      Step st s (.claim worker now leaseForS locked pick) (some (.row (some row)))
        ({ s with db }.setLoop worker (.claimed job))
  | runJob (worker : WorkerId) (job : Job P) (hloop : s.loops worker = .claimed job) :
      Step st s (.runJob worker) none
        { (s.setLoop worker .idle).setTask s.started ⟨worker, job, job.audioPath, .renewing⟩ with
          active := (worker, job.id) :: s.active, started := s.started + 1 }
  | task (n : ℕ) (act : Act) (t t' : Task P) (db : Db) (r : Option (Reply P))
      (ht : s.tasks n = some t) (hcall : Called (t.call act) s.db r db)
      (hnext : t.next st db.tables (r.any Reply.positive) act = some t')
      (hact : ∀ path mtime, act ≠ .fetched path mtime) :
      Step st s (.task n act) r ({ s with db }.setTask n t')
  | fetched (n : ℕ) (t : Task P) (path : Path) (mtime : Time) (ht : s.tasks n = some t)
      (hpc : t.pc = .fetching) (hpath : s.madeFor path = none) :
      Step st s (.task n (.fetched path mtime)) none
        { s.setTask n { t with pc := .recording, audioPath := some path } with
          files := Function.update s.files path (some mtime)
          madeFor := Function.update s.madeFor path (some t.job.id) }
  | leave (n : ℕ) (t : Task P) (deleteAudio : Bool) (ht : s.tasks n = some t)
      (hpc : t.pc = .leaving deleteAudio) :
      Step st s (.task n .leave) none
        { (if deleteAudio then s.unlink t.audioPath else s) with
          tasks := Function.update s.tasks n none
          active := s.active.filter fun a => a ≠ (t.worker, t.job.id) }
  | purge (cutoff : Time) (db : Db) (rows : List Row) (paths : List Path)
      (hdb : (Call.purgeOlderThan (P := P) cutoff).step s.db = some (db, .rows rows))
      (hpaths : ∀ p ∈ paths, ∃ row ∈ rows, row.audioPath = some p) :
      Step st s (.purge cutoff) (some (.rows rows)) { s with db, purged := paths ++ s.purged }
  | unlinkPurged (path : Path) (hpath : path ∈ s.purged) :
      Step st s (.unlinkPurged path) none
        ({ s with purged := s.purged.erase path }.unlink (some path))
  | sweep (now : Time) (path : Path) (mtime : Time) (hfile : s.files path = some mtime) :
      Step st s (.sweep now path) none
        (if mtime < now - orphanMaxAge then s.unlink (some path) else s)
  | background (c : Call P) (db : Db) (r : Reply P) (hc : c.isBackground = true)
      (hdb : c.step s.db = some (db, r)) : Step st s (.background c) (some r) { s with db }

/-- A step in its two halves. -/
theorem step_eq_some (h : s.step st e = some (s', r)) :
    ∃ db, Called (e.call s) s.db r db ∧ react st { s with db } r e = some s' := by
  unfold step at h
  split at h
  · rename_i hc
    obtain ⟨s₁, hs₁, heq⟩ := Option.map_eq_some_iff.mp h
    obtain ⟨rfl, rfl⟩ := Prod.mk.inj heq
    exact ⟨s.db, .inl ⟨hc, rfl, rfl⟩, hs₁⟩
  · rename_i c hc
    split at h
    · cases h
    · rename_i db r₀ hstep
      obtain ⟨s₁, hs₁, heq⟩ := Option.map_eq_some_iff.mp h
      obtain ⟨rfl, rfl⟩ := Prod.mk.inj heq
      exact ⟨db, .inr ⟨c, r₀, hc, rfl, hstep⟩, hs₁⟩

theorem Called.none {db db' : Db} (h : Called (P := P) none db r db') : r = none ∧ db' = db := by
  rcases h with ⟨-, hr, hdb⟩ | ⟨c, r₀, hc, -⟩
  · exact ⟨hr, hdb⟩
  · cases hc

theorem Called.some {c : Call P} {db db' : Db} {r₀ : Reply P} (h : Called (some c) db r db')
    (hr : r = some r₀) : c.step db = some (db', r₀) := by
  rcases h with ⟨hc, -⟩ | ⟨c', r', hc, hr', hstep⟩
  · cases hc
  · obtain rfl := Option.some.inj hc
    obtain rfl := Option.some.inj (hr.symm.trans hr')
    exact hstep

theorem onStatement_cases {new : NewJob P} {pc : SubmissionPc} {statement : Statement}
    (hne : statement ≠ .commit) (h : s.onStatement st r new pc statement = some s') :
    OnStatement st s new pc statement s' := by
  unfold onStatement at h
  split at h
  · split at h
    · cases h
    · rename_i hlock
      obtain rfl := Option.some.inj h
      exact .locked (Option.not_isSome_iff_eq_none.mp hlock)
  · split at h <;> rename_i hrow <;> obtain rfl := Option.some.inj h
    · exact .keyFailed _ hrow
    · exact .keyFound _ hrow
    · exact .keyNew hrow
  · split at h <;> rename_i hcounts <;> obtain rfl := Option.some.inj h
    · exact .full _ hcounts
    · exact .counted hcounts
  · split at h
    · rename_i e hrequest
      obtain rfl := Option.some.inj h
      obtain rfl := onRequest_eq_error hrequest
      exact .unstorable hrequest
    · rename_i hrequest
      split at h <;> rename_i hins <;> obtain rfl := Option.some.inj h
      · exact .duplicate hins
      · exact .inserted _ hrequest hins
  · exact absurd rfl hne
  · obtain rfl := Option.some.inj h
    exact .admitted _
  · obtain rfl := Option.some.inj h
    exact .refused _
  · cases h

theorem step_cases (h : s.step st e = some (s', r)) : Step st s e r s' := by
  obtain ⟨db, hcall, hreact⟩ := step_eq_some h
  cases e with
  | submit new mtime =>
      obtain ⟨rfl, rfl⟩ := Called.none hcall
      unfold react at hreact
      dsimp only at hreact
      split at hreact
      · cases hreact
      · rename_i hid
        split at hreact
        · rename_i haudio
          obtain rfl := Option.some.inj hreact
          exact .submit new mtime hid haudio
        · rename_i path haudio
          unfold writeFile at hreact
          split at hreact
          · cases hreact
          · rename_i hpath
            obtain rfl := Option.some.inj hreact
            exact .upload new mtime path hid haudio (Option.not_isSome_iff_eq_none.mp hpath)
  | create id statement =>
      unfold react at hreact
      dsimp only at hreact
      split at hreact
      · cases hreact
      · rename_i new pc hsub
        replace hsub : s.submissions id = some ⟨new, pc⟩ := hsub
        by_cases hst : statement = .commit
        · subst hst
          cases pc <;> simp only [onStatement, reduceCtorEq] at hreact
          simp only [Event.call, hsub] at hcall
          split at hreact
          · rename_i job
            obtain rfl := Option.some.inj hreact
            exact .commit id new db job hsub (hcall.some rfl)
          · cases hreact
        · have hnone : Event.call s (.create id statement) = none := by
            cases statement <;> first | rfl | exact absurd rfl hst
          rw [hnone] at hcall
          obtain ⟨rfl, rfl⟩ := hcall.none
          exact .statement id statement new pc s' hsub (onStatement_cases hst hreact)
  | cancelJob jobId client stamp now =>
      unfold react at hreact
      dsimp only at hreact
      simp only [Event.call] at hcall
      split at hcall
      · rename_i job _
        split at hcall
        · obtain ⟨rfl, rfl⟩ := hcall.none
          cases hreact
        · split at hreact
          · rename_i row
            obtain rfl := Option.some.inj hreact
            exact .cancel jobId client job.webhookUrl stamp now db row (hcall.some rfl)
          · obtain rfl := Option.some.inj hreact
            exact .cancelMissed jobId client job.webhookUrl stamp now db (hcall.some rfl)
          · cases hreact
      · obtain ⟨rfl, rfl⟩ := hcall.none
        cases hreact
  | unlinkCancelled path =>
      obtain ⟨rfl, rfl⟩ := Called.none hcall
      unfold react at hreact
      dsimp only at hreact
      split at hreact
      · rename_i hpath
        obtain rfl := Option.some.inj hreact
        exact .unlinkCancelled path hpath
      · cases hreact
  | beginClaim worker =>
      obtain ⟨rfl, rfl⟩ := Called.none hcall
      unfold react at hreact
      dsimp only at hreact
      split at hreact
      · rename_i hloop
        obtain rfl := Option.some.inj hreact
        exact .beginClaim worker hloop
      · cases hreact
  | claim worker now lease locked pick =>
      unfold react at hreact
      dsimp only at hreact
      simp only [Event.call] at hcall
      split at hreact
      · rename_i ex hloop
        replace hloop : s.loops worker = .claiming ex := hloop
        simp only [hloop] at hcall
        obtain rfl := Option.some.inj hreact
        exact .claimNone worker now lease ex locked pick db hloop (hcall.some rfl)
      · rename_i ex row hloop
        replace hloop : s.loops worker = .claiming ex := hloop
        simp only [hloop] at hcall
        split at hreact
        · rename_i error hrow
          obtain rfl := Option.some.inj hreact
          exact .claimUndecodable worker now lease ex locked pick db row error hloop (hcall.some rfl)
            hrow
        · rename_i job hrow
          obtain rfl := Option.some.inj hreact
          exact .claimed worker now lease ex locked pick db row job hloop (hcall.some rfl) hrow
      · cases hreact
  | runJob worker =>
      obtain ⟨rfl, rfl⟩ := Called.none hcall
      unfold react at hreact
      dsimp only at hreact
      split at hreact
      · rename_i job hloop
        obtain rfl := Option.some.inj hreact
        exact .runJob worker job hloop
      · cases hreact
  | task n act =>
      unfold react at hreact
      dsimp only at hreact
      split at hreact
      · cases hreact
      · rename_i t ht
        replace ht : s.tasks n = some t := ht
        simp only [Event.call, ht, Option.bind_some] at hcall
        split at hreact
        · split at hreact
          · rename_i d hpc
            obtain rfl := Option.some.inj hreact
            simp only [Task.call, hpc] at hcall
            obtain ⟨rfl, rfl⟩ := hcall.none
            cases d <;> exact .leave n t _ ht hpc
          · cases hreact
        · rename_i path mtime
          obtain ⟨t', ht', hwrite⟩ := Option.bind_eq_some_iff.mp hreact
          obtain ⟨hpc, rfl⟩ := Task.next_fetched ht'
          obtain ⟨rfl, rfl⟩ := (Task.call_fetched t path mtime ▸ hcall).none
          unfold writeFile at hwrite
          split at hwrite
          · cases hwrite
          · rename_i hpath
            obtain rfl := Option.some.inj hwrite
            exact .fetched n t path mtime ht hpc (Option.not_isSome_iff_eq_none.mp hpath)
        · rename_i hne
          obtain ⟨t', hnext, rfl⟩ := Option.map_eq_some_iff.mp hreact
          exact .task n act t t' db r ht hcall hnext hne
  | purge cutoff =>
      unfold react at hreact
      dsimp only at hreact
      split at hreact
      · rename_i rows
        obtain rfl := Option.some.inj hreact
        refine .purge cutoff db rows _ (hcall.some rfl) fun p hp => ?_
        split at hp
        · obtain ⟨row, hrow, hpath⟩ := List.mem_filterMap.mp hp
          exact ⟨row, hrow, hpath⟩
        · cases hp
      · cases hreact
  | unlinkPurged path =>
      obtain ⟨rfl, rfl⟩ := Called.none hcall
      unfold react at hreact
      dsimp only at hreact
      split at hreact
      · rename_i hpath
        obtain rfl := Option.some.inj hreact
        exact .unlinkPurged path hpath
      · cases hreact
  | sweep now path =>
      obtain ⟨rfl, rfl⟩ := Called.none hcall
      unfold react at hreact
      dsimp only at hreact
      split at hreact
      · cases hreact
      · rename_i mtime hfile
        obtain rfl := Option.some.inj hreact
        exact .sweep now path mtime hfile
  | background c =>
      unfold react at hreact
      dsimp only at hreact
      simp only [Event.call] at hcall
      split at hcall
      · rename_i hbg
        split at hreact
        · rename_i hr
          obtain ⟨r₀, rfl⟩ := Option.isSome_iff_exists.mp hr
          obtain rfl := Option.some.inj hreact
          exact .background c db r₀ hbg (hcall.some rfl)
        · cases hreact
      · obtain ⟨rfl, rfl⟩ := hcall.none
        cases hreact

theorem onStatement_db {new : NewJob P} {pc : SubmissionPc} {statement : Statement}
    (h : s.onStatement st r new pc statement = some s') : s'.db = s.db := by
  unfold onStatement at h
  split at h
  all_goals
    repeat' split at h
    all_goals first
      | (cases h; done)
      | (obtain rfl := Option.some.inj h; rfl)

/-- After its store call a process leaves the tables alone. -/
theorem react_db (h : s.react st r e = some s') : s'.db = s.db := by
  cases e <;> unfold react at h <;> dsimp only at h
  case create id statement =>
    split at h
    · cases h
    · exact onStatement_db h
  case task n act =>
    split at h
    · cases h
    · split at h
      · split at h
        · obtain rfl := Option.some.inj h
          split <;> rfl
        · cases h
      · obtain ⟨t', -, hwrite⟩ := Option.bind_eq_some_iff.mp h
        unfold writeFile at hwrite
        split at hwrite
        · cases hwrite
        · obtain rfl := Option.some.inj hwrite
          rfl
      · obtain ⟨t', -, rfl⟩ := Option.map_eq_some_iff.mp h
        rfl
  case submit new mtime =>
    split at h
    · cases h
    · split at h
      · obtain rfl := Option.some.inj h
        rfl
      · unfold writeFile at h
        split at h
        · cases h
        · obtain rfl := Option.some.inj h
          rfl
  all_goals
    repeat' split at h
    all_goals first
      | (cases h; done)
      | (obtain rfl := Option.some.inj h; rfl)

/-- **The tables change by the store call of the step, and by nothing else.** -/
theorem step_db (h : s.step st e = some (s', r)) : Called (e.call s) s.db r s'.db := by
  obtain ⟨db, hcall, hreact⟩ := step_eq_some h
  rwa [react_db hreact]

/-- The statements of a submission concern no worker. -/
theorem OnStatement.workers {new : NewJob P} {pc : SubmissionPc} {statement : Statement}
    (h : OnStatement st s new pc statement s') :
    s'.db = s.db ∧ s'.loops = s.loops ∧ s'.active = s.active ∧ s'.tasks = s.tasks ∧
      s'.started = s.started := by
  cases h with
  | admitted id =>
      by_cases hid : id = new.id
      · rw [if_pos hid]; exact ⟨rfl, rfl, rfl, rfl, rfl⟩
      · rw [if_neg hid]; exact ⟨rfl, rfl, rfl, rfl, rfl⟩
  | refused e =>
      cases e.isRefusal <;> exact ⟨rfl, rfl, rfl, rfl, rfl⟩
  | _ => exact ⟨rfl, rfl, rfl, rfl, rfl⟩

/-- **A path is drawn once**: it stays the path of the job it was drawn for, and a file that is gone
from it stays gone. -/
theorem Step.madeFor (h : Step st s e r s') {p : Path} {j : JobId} (hp : s.madeFor p = some j) :
    s'.madeFor p = some j ∧ (s.files p = none → s'.files p = none) := by
  have fresh : ∀ {path : Path}, s.madeFor path = none → p ≠ path := by
    rintro path hpath rfl
    rw [hp] at hpath
    cases hpath
  have unlinked : ∀ {path : Option Path} {t : System P}, s.files p = none → t.files = s.files →
      (t.unlink path).files p = none := by
    intro path t hnone ht
    simp only [unlink, ht, hnone, ite_self]
  cases h with
  | upload new mtime path hid haudio hpath =>
      exact ⟨(Function.update_of_ne (fresh hpath) ..).trans hp,
        fun hn => (Function.update_of_ne (fresh hpath) ..).trans hn⟩
  | fetched n t path mtime ht hpc hpath =>
      exact ⟨(Function.update_of_ne (fresh hpath) ..).trans hp,
        fun hn => (Function.update_of_ne (fresh hpath) ..).trans hn⟩
  | statement id statement new pc s' hsub hs =>
      cases hs with
      | admitted id =>
          split
          · exact ⟨hp, fun hn => hn⟩
          · exact ⟨hp, fun hn => unlinked hn rfl⟩
      | refused e => cases e.isRefusal
                     · exact ⟨hp, fun hn => hn⟩
                     · exact ⟨hp, fun hn => unlinked hn rfl⟩
      | _ => exact ⟨hp, fun hn => hn⟩
  | unlinkCancelled path | unlinkPurged path => exact ⟨hp, fun hn => unlinked hn rfl⟩
  | leave n t d =>
      cases d
      · exact ⟨hp, fun hn => hn⟩
      · exact ⟨hp, fun hn => unlinked hn rfl⟩
  | sweep now path mtime hfile =>
      split
      · exact ⟨hp, fun hn => unlinked hn rfl⟩
      · exact ⟨hp, fun hn => hn⟩
  | _ => exact ⟨hp, fun hn => hn⟩

end System

/-! ### The store calls of a run -/

/-- The store call a step made, if it made one. -/
def storeEntries {P : Pydantic} (x : Entry (System P) (Event P) (Option (Reply P))) : StoreLog P :=
  match x.event.call x.before, x.reply with
  | some c, some r => [⟨x.before.db, c, r, x.after.db⟩]
  | _, _ => []

/-- **A run of the system is a run of the store**: its store calls, in order. -/
theorem store_run {P : Pydantic} {st : Settings}
    {h : List (Entry (System P) (Event P) (Option (Reply P)))} {s : System P}
    (run : (systemMachine P st).Run h s) : (storeMachine P).Run (h.flatMap storeEntries) s.db := by
  refine Machine.Run.refines (M := systemMachine P st) (f := System.db) rfl ?_ run
  intro h s e s' r _ hstep
  rcases System.step_db hstep with ⟨hc, rfl, hdb⟩ | ⟨c, r₀, hc, rfl, hcall⟩
  · rw [hdb, storeEntries]
    simp only [hc]
    exact .nil _
  · simp only [storeEntries, hc]
    exact .one hcall

/-- One retry after an out-of-memory failure. -/
def sampleSettings : Settings where
  oomMaxAttempts := 2
  maxQueuedJobs := 10
  maxQueuedJobsPerClient := 10
  oom_pos := by decide
  client_pos := by decide
  client_le := by decide

/-- A URL job is submitted, claimed and fetched, runs out of memory, and is handed back. -/
def releasedEvents : List (Event .strict) :=
  [.submit { id := "job", clientId := "client", now := 0, request := .ofUrl "https://host/a.wav" } 0,
    .create "job" .lockAdmission, .create "job" .lookUpKey, .create "job" .countActive,
    .create "job" .insert, .create "job" .commit, .create "job" .answer,
    .beginClaim "worker", .claim "worker" 1 60 [] (some "job"), .runJob "worker",
    .task 0 (.renew 60 2 2), .task 0 (.fetched "copy.wav" 3), .task 0 (.record 4),
    .task 0 (.raised true), .task 0 (.release 5 30), .task 0 .leave]

end Vemsa.Jobs
