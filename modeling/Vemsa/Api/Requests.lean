import Vemsa.Support.Clients
import Vemsa.Jobs.AudioFiles
import Vemsa.Jobs.QueuePosition

/-!
# Api — Requests

`get_job`, `cancel_job` and `get_job_result`, as clients of the store: between any two statements of a
request, workers, other clients and the retention purge make whatever calls they like.

* `cancelJob_settles`: whatever `cancel_job` answers is final.
* `getJobResult_answers`: a result is the one that the job was finished with, and every other answer
  is what the job was at some moment of the request.
* `foreign_unknown`: the job of another client is unknown, and nothing is done to it.
-/

namespace Vemsa.Api
open Vemsa.Support Vemsa.Jobs

/-! ### What a request asks -/

/-- A statement of a request, or a step of it outside the store. -/
inductive Operation (P : Pydantic) where
  | get (jobId : JobId) (clientId : String)
  | countAhead (createdAt : Time) (jobId : JobId)
  | getResult (jobId : JobId) (clientId : String)
  | cancel (jobId : JobId) (clientId : String) (webhookUrl : Option String)
  | unlink (path : Path)
  | newJob (request : JobRequest P) (clientId : String)
  | create (new : NewJob P) (maxActive maxActivePerClient : ℕ)
  | headSource (url : String)

/-- What `_reject_oversize_source` finds: a URL that is rejected, a request that fails, or the
`content-length`. -/
inductive SourceHead where
  | rejected (detail : String)
  | unknown
  | length (bytes : ℤ)

def Operation.Answer {P : Pydantic} : Operation P → Type
  | get .. | cancel .. => Except ErrorDetails (Option (Job P))
  | countAhead .. => ℕ
  | getResult .. => Except ErrorDetails (Option (TranscriptionResult PyFloat))
  | unlink _ => Unit
  | newJob .. => NewJob P
  | create .. => Except CreateError (Job P)
  | headSource _ => SourceHead

/-- What the environment decides of an operation: the clock, the ids drawn, and what the source
answers. -/
structure Chance where
  now : Time
  id : JobId
  stamp : EventStamp
  head : SourceHead

/-- The store, as a request meets it. -/
def jobStore (P : Pydantic) (C : Collation) :
    Service Db (Call P) (Reply P) Chance (Operation.Answer (P := P)) where
  event
    | .cancel jobId clientId webhookUrl, chance =>
      some (.cancel jobId clientId webhookUrl chance.stamp chance.now)
    | .create new maxActive maxActivePerClient, _ =>
      some (.create new (some maxActive) (some maxActivePerClient))
    | _, _ => none
  answer
    | .get jobId clientId, _, s, _ => Jobs.get P jobId (some clientId) s.tables
    | .countAhead createdAt jobId, _, s, _ => s.tables.jobs.matched (Row.ahead C createdAt jobId)
    | .getResult jobId clientId, _, s, _ => Jobs.getResult P jobId (some clientId) s.tables
    | .cancel .., _, _, reply => claimedJob P (reply.getD .done)
    | .unlink _, _, _, _ => ()
    | .newJob request clientId, chance, _, _ => ⟨chance.id, clientId, chance.now, request, none, none⟩
    | .create .., _, _, reply =>
      match reply with
      | some (.created r) => r
      | _ => .error .duplicate
    | .headSource _, chance, _, _ => chance.head

/-- What a request raises; a `ValidationError` of a stored request and an `AssertionError` are
caught by nobody. -/
inductive RequestError where
  | unknownJob
  | notCompleted (jobId : JobId) (status : JobStatus) (error : Option String)
  | validationError (e : ErrorDetails)
  | assertionError

abbrev Request (P : Pydantic) (ε α : Type) : Type := Proc (Operation.Answer (P := P)) ε α

section Source

variable {P : Pydantic} {ε α : Type}

/-- `store.get`; `undecodable` is what the caller lets pass of `_row_to_job` -/
def storeGet (undecodable : ErrorDetails → ε) (jobId : JobId) (clientId : String) :
    Request P ε (Option (Job P)) :=
  .ask (.get jobId clientId) fun r => .ofExcept (r.mapError undecodable)

/-- `store.get_result` -/
def storeGetResult (undecodable : ErrorDetails → ε) (jobId : JobId) (clientId : String) :
    Request P ε (Option (TranscriptionResult PyFloat)) :=
  .ask (.getResult jobId clientId) fun r => .ofExcept (r.mapError undecodable)

/-- `store.cancel` -/
def storeCancel (undecodable : ErrorDetails → ε) (jobId : JobId) (clientId : String)
    (webhookUrl : Option String) : Request P ε (Option (Job P)) :=
  .ask (.cancel jobId clientId webhookUrl) fun r => .ofExcept (r.mapError undecodable)

/-- `store.queue_position`, which is two statements -/
def storeQueuePosition (undecodable : ErrorDetails → ε) (jobId : JobId) (clientId : String) :
    Request P ε (Option ℕ) := do
  match ← storeGet undecodable jobId clientId with
  | none => return none
  | some job =>
    if job.status ≠ .queued then return none
    else
      .ask (.countAhead job.createdAt job.id) fun (ahead : ℕ) => .pure (some (ahead + 1))

/-- `JobStatusResponse` -/
structure JobStatusResponse where
  jobId : JobId
  status : JobStatus
  stage : JobStage
  queuePosition : Option ℕ
  createdAt : Time
  error : Option String
  failureKind : Option FailureKind

/-- `get_job` -/
def getJob (jobId : JobId) (clientId : String) : Request P RequestError JobStatusResponse := do
  match ← storeGet .validationError jobId clientId with
  | none => .raise .unknownJob
  | some job =>
    let queuePosition ← storeQueuePosition .validationError job.id clientId
    return ⟨job.id, job.status, job.stage, queuePosition, job.createdAt, job.error, job.failureKind⟩

/-- `JobCancellationResponse`, with the status code it is sent with. -/
structure JobCancellationResponse where
  code : ℕ
  jobId : JobId
  status : JobStatus
  stage : JobStage
  cancellationRequested : Bool

/-- `if cancelled.attempt == 0 and cancelled.audio_path: …` -/
def unlinkUnclaimed (cancelled : Job P) : Request P ε Unit :=
  match cancelled.audioPath with
  | some path => if cancelled.attempt = 0 then .ask (.unlink path) fun _ => .pure () else return ()
  | none => return ()

/-- The answer of `cancel_job` about a job that is terminal already. -/
def alreadyTerminal (existing : Job P) : JobCancellationResponse :=
  ⟨200, existing.id, existing.status, existing.stage, existing.status = .cancelled⟩

/-- `cancel_job` -/
def cancelJob (jobId : JobId) (clientId : String) :
    Request P RequestError JobCancellationResponse := do
  match ← storeGet .validationError jobId clientId with
  | none => .raise .unknownJob
  | some existing =>
    if existing.status = .queued ∨ existing.status = .running then
      match ← storeCancel .validationError jobId clientId existing.webhookUrl with
      | some cancelled =>
        unlinkUnclaimed cancelled
        return ⟨202, cancelled.id, cancelled.status, cancelled.stage, true⟩
      | none =>
        match ← storeGet .validationError jobId clientId with
        | none => .raise .unknownJob
        | some existing => return alreadyTerminal existing
    else return alreadyTerminal existing

/-- `get_job_result` -/
def getJobResult (jobId : JobId) (clientId : String) :
    Request P RequestError (TranscriptionResult PyFloat) := do
  match ← storeGet .validationError jobId clientId with
  | none => .raise .unknownJob
  | some job =>
    if job.status ≠ .completed then .raise (.notCompleted job.id job.status job.error)
    else
      match ← storeGetResult .validationError jobId clientId with
      | none => .raise .assertionError
      | some result => return result

end Source

/-! ### What the client sees -/

section Visible

variable {P : Pydantic} {C : Collation} {j : JobId} {clientId : String} {t : Tables}

/-- The row of the job, if it is the client's. -/
def visible (j : JobId) (clientId : String) (t : Tables) : Option Row :=
  (t.jobs.get? j).filter fun row => row.clientId = clientId

theorem visible_eq_some {row : Row} :
    visible j clientId t = some row ↔ t.jobs.get? j = some row ∧ row.clientId = clientId := by
  simp [visible, Option.filter_eq_some_iff]

theorem get_eq : Jobs.get P j (some clientId) t =
    match visible j clientId t with
    | none => .ok none
    | some row => (rowToJob P row).map some := rfl

theorem getResult_none (h : (visible j clientId t).bind Row.resultJson = none) :
    Jobs.getResult P j (some clientId) t = .ok none := by
  unfold Jobs.getResult
  split
  case h_1 => rfl
  case h_2 value hvalue => cases h.symm.trans hvalue

theorem getResult_some {json : Json} (h : (visible j clientId t).bind Row.resultJson = some json) :
    Jobs.getResult P j (some clientId) t = (TranscriptionResult.decode P json).map some := by
  unfold Jobs.getResult
  split
  case h_1 hnone => cases h.symm.trans hnone
  case h_2 value hvalue =>
    cases h.symm.trans hvalue
    rfl

theorem get_eq_none (h : Jobs.get P j (some clientId) t = .ok none) : visible j clientId t = none := by
  rw [get_eq] at h
  split at h
  case h_1 hnone => exact hnone
  case h_2 row _ => cases hjob : rowToJob P row <;> simp [hjob, Except.map] at h

theorem get_eq_some {job : Job P} (h : Jobs.get P j (some clientId) t = .ok (some job)) :
    ∃ row, visible j clientId t = some row ∧ rowToJob P row = .ok job := by
  rw [get_eq] at h
  split at h
  case h_1 => cases h
  case h_2 row hrow =>
    refine ⟨row, hrow, ?_⟩
    cases hjob : rowToJob P row with
    | error e => simp [hjob, Except.map] at h
    | ok job' =>
        simp only [hjob, Except.map, Except.ok.injEq, Option.some.injEq] at h
        rw [h]

theorem get_eq_error {e : ErrorDetails} (h : Jobs.get P j (some clientId) t = .error e) :
    ∃ row, visible j clientId t = some row ∧ rowToJob P row = .error e := by
  rw [get_eq] at h
  split at h
  case h_1 => cases h
  case h_2 row hrow =>
    refine ⟨row, hrow, ?_⟩
    cases hjob : rowToJob P row with
    | error e' =>
        simp only [hjob, Except.map, Except.error.injEq] at h
        rw [h]
    | ok job => simp [hjob, Except.map] at h

end Visible

/-! ### Rows over time -/

section Store

variable {P : Pydantic} {C : Collation} {j : JobId} {clientId : String} {s t u : Db}
  {h g : StoreLog P} {row row' : Row}

theorem drawn_of_row (run : (storeMachine P).Run h s) (hrow : s.tables.jobs.get? j = some row) :
    j ∈ s.drawn ∧ Logged j h row := by
  have hst := standing run j
  rw [hrow] at hst
  cases hst with
  | present _ hdrawn hl => exact ⟨hdrawn, hl⟩

/-- A row keeps its client and its request as long as it is there, and nobody gets its id. -/
theorem same_row (path : (storeMachine P).Path s g t) (hdrawn : j ∈ s.drawn)
    (hrow : s.tables.jobs.get? j = some row) (hrow' : t.tables.jobs.get? j = some row') :
    row'.clientId = row.clientId ∧ row'.requestJson = row.requestJson := by
  refine (Machine.Path.preserves (M := storeMachine P)
    (I := fun t => j ∈ t.drawn ∧ ∀ row', t.tables.jobs.get? j = some row' →
      row'.clientId = row.clientId ∧ row'.requestJson = row.requestJson)
    path ?_ ⟨hdrawn, fun row' h => by simp [Option.some.inj (hrow.symm.trans h)]⟩).2 row' hrow'
  rintro t c t' r hstep ⟨hd, hsame⟩
  refine ⟨(drawn_step hstep j).mpr (.inl hd), fun row₂ hrow₂ => ?_⟩
  cases hb : t.tables.jobs.get? j with
  | none => exact absurd hd (not_drawn_of_created hstep hb hrow₂).1
  | some row₁ =>
      have hc := change_step hstep j
      rw [hb, hrow₂] at hc
      obtain ⟨-, hclient, hjson, -⟩ := hc.immutable
      exact ⟨hclient.trans (hsame row₁ hb).1, hjson.trans (hsame row₁ hb).2⟩

/-- What a job ended as, it stays. -/
theorem EndedAs.later {status : JobStatus} (run : (storeMachine P).Run h s)
    (hend : EndedAs j h s status) (path : (storeMachine P).Path s g t) :
    EndedAs j (h ++ g) t status := by
  have run' := run.append path
  obtain ⟨v, hv, hstatus⟩ := (endedAs_iff run).mp hend
  refine (endedAs_iff run').mpr ⟨v, ?_, hstatus⟩
  have hle := verdicts_length_le run' j
  rw [verdicts, List.filterMap_append, List.length_append] at hle
  rw [verdicts, List.filterMap_append]
  have hv' : List.filterMap (fun x => x.event.settles x.reply j) h = [v] := hv
  rw [hv', List.length_singleton] at hle
  rw [hv', List.length_eq_zero_iff.mp (Nat.le_zero.mp (Nat.le_of_add_le_add_left hle)), List.append_nil]

theorem endedAs_of_row (hrow : s.tables.jobs.get? j = some row) (hterm : row.isActive = false) :
    EndedAs j h s row.status :=
  ⟨isTerminal_iff.mpr hterm, .inl ⟨row, hrow, rfl⟩⟩

theorem rowToJob_of_request {job : Job P} (hjob : rowToJob P row = .ok job)
    (hsame : row'.requestJson = row.requestJson) : ∃ job', rowToJob P row' = .ok job' := by
  unfold rowToJob at hjob ⊢
  rw [hsame]
  split at hjob
  · cases hjob
  · exact ⟨_, rfl⟩

end Store

/-! ### How a request is served -/

section Served

variable {P : Pydantic} {C : Collation} {ε α : Type} {undecodable : ErrorDetails → ε} {j : JobId}
  {clientId : String} {s u : Db} {h : StoreLog P} {r : Except ε α}

/-- **`get`** finds what is visible when it is served. -/
theorem served_get {f : Option (Job P) → Request P ε α}
    (served : (storeMachine P).Served (jobStore P C) (storeGet undecodable j clientId >>= f) s h u r) :
    ∃ h₁ t h₂, h = h₁ ++ h₂ ∧ (storeMachine P).Path s h₁ t ∧ (storeMachine P).Path t h₂ u ∧
      ((∃ row e, visible j clientId t.tables = some row ∧ rowToJob P row = .error e ∧
          r = .error (undecodable e)) ∨
        (visible j clientId t.tables = none ∧
          (storeMachine P).Served (jobStore P C) (f none) t h₂ u r) ∨
        ∃ row job, visible j clientId t.tables = some row ∧ rowToJob P row = .ok job ∧
          (storeMachine P).Served (jobStore P C) (f (some job)) t h₂ u r) := by
  rcases served.ask_inv with ⟨c, h₁, t, h₂, rfl, wait, -, rest⟩ | ⟨c, _, _, _, _, _, hevent, _⟩
  · refine ⟨h₁, t, h₂, rfl, wait, rest.path, ?_⟩
    change (storeMachine P).Served (jobStore P C) (Proc.bind (.ofExcept
      ((Jobs.get P j (some clientId) t.tables).mapError undecodable)) f) t h₂ u r at rest
    cases hget : Jobs.get P j (some clientId) t.tables with
    | error e =>
        rw [hget] at rest
        obtain ⟨row, hrow, hjob⟩ := get_eq_error hget
        exact .inl ⟨row, e, hrow, hjob, rest.raise_inv.1⟩
    | ok found =>
        rw [hget] at rest
        cases found with
        | none => exact .inr (.inl ⟨get_eq_none hget, rest⟩)
        | some job =>
            obtain ⟨row, hrow, hjob⟩ := get_eq_some hget
            exact .inr (.inr ⟨row, job, hrow, hjob, rest⟩)
  · cases hevent

/-- **`get_result`** reads the result that is there when it is served. -/
theorem served_getResult {f : Option (TranscriptionResult PyFloat) → Request P ε α}
    (served : (storeMachine P).Served (jobStore P C)
      (storeGetResult undecodable j clientId >>= f) s h u r) :
    ∃ h₁ t h₂, h = h₁ ++ h₂ ∧ (storeMachine P).Path s h₁ t ∧ (storeMachine P).Path t h₂ u ∧
      (((visible j clientId t.tables).bind Row.resultJson = none ∧
          (storeMachine P).Served (jobStore P C) (f none) t h₂ u r) ∨
        ∃ row json, visible j clientId t.tables = some row ∧ row.resultJson = some json ∧
          ((∃ e, TranscriptionResult.decode P json = .error e ∧ r = .error (undecodable e)) ∨
            ∃ result, TranscriptionResult.decode P json = .ok result ∧
              (storeMachine P).Served (jobStore P C) (f (some result)) t h₂ u r)) := by
  rcases served.ask_inv with ⟨c, h₁, t, h₂, rfl, wait, -, rest⟩ | ⟨c, _, _, _, _, _, hevent, _⟩
  · refine ⟨h₁, t, h₂, rfl, wait, rest.path, ?_⟩
    change (storeMachine P).Served (jobStore P C) (Proc.bind (.ofExcept
      ((Jobs.getResult P j (some clientId) t.tables).mapError undecodable)) f) t h₂ u r at rest
    cases hjson : (visible j clientId t.tables).bind Row.resultJson with
    | none =>
        rw [getResult_none hjson] at rest
        exact .inl ⟨rfl, rest⟩
    | some json =>
        rw [getResult_some hjson] at rest
        obtain ⟨row, hrow, hjson⟩ := Option.bind_eq_some_iff.mp hjson
        refine .inr ⟨row, json, hrow, hjson, ?_⟩
        cases hdecode : TranscriptionResult.decode P json with
        | error e =>
            rw [hdecode] at rest
            exact .inl ⟨e, rfl, rest.raise_inv.1⟩
        | ok result =>
            rw [hdecode] at rest
            exact .inr ⟨result, rfl, rest⟩
  · cases hevent

/-- **`cancel`** settles an active job of the client, or finds none. -/
theorem served_cancel {webhookUrl : Option String} {f : Option (Job P) → Request P ε α}
    (served : (storeMachine P).Served (jobStore P C)
      (storeCancel undecodable j clientId webhookUrl >>= f) s h u r) :
    ∃ h₁ x h₂ stamp now, h = h₁ ++ x :: h₂ ∧ (storeMachine P).Path s h₁ x.before ∧
      x.event = .cancel j clientId webhookUrl stamp now ∧
      (storeMachine P).step x.before x.event = some (x.after, x.reply) ∧
      (storeMachine P).Path x.after h₂ u ∧
      ((x.after = x.before ∧ (∀ row, visible j clientId x.before.tables = some row →
          row.isActive = false) ∧
          (storeMachine P).Served (jobStore P C) (f none) x.after h₂ u r) ∨
        ∃ row, visible j clientId x.before.tables = some row ∧ x.reply.positive = true ∧
          x.after.tables.jobs.get? j = some (row.cancel now) ∧
          ((∃ e, rowToJob P (row.cancel now) = .error e ∧ r = .error (undecodable e)) ∨
            ∃ job, rowToJob P (row.cancel now) = .ok job ∧
              (storeMachine P).Served (jobStore P C) (f (some job)) x.after h₂ u r)) := by
  rcases served.ask_inv with ⟨c, _, _, _, _, _, hevent, _⟩ |
    ⟨c, h₁, x, h₂, rfl, wait, hevent, hstep, rest⟩
  · cases hevent
  · have hx : x.event = .cancel j clientId webhookUrl c.stamp c.now := (Option.some.inj hevent).symm
    refine ⟨h₁, x, h₂, c.stamp, c.now, rfl, wait, hx, hstep, rest.path, ?_⟩
    change (storeMachine P).Served (jobStore P C) (Proc.bind (.ofExcept
      ((claimedJob P x.reply).mapError undecodable)) f) x.after h₂ u r at rest
    obtain ⟨before, event, reply, after⟩ := x
    subst hx
    have hcall : (Call.cancel (P := P) j clientId webhookUrl c.stamp c.now).step before =
      some (after, reply) := hstep
    obtain ⟨⟨tables, found⟩, -, heq⟩ := Option.map_eq_some_iff.mp hcall
    obtain ⟨-, rfl⟩ := Prod.mk.inj heq
    cases found with
    | none =>
        rcases step_keyed hcall rfl with ⟨-, rfl, hno⟩ | ⟨hpos, -⟩
        · refine .inl ⟨rfl, fun row hrow => ?_, rest⟩
          obtain ⟨hget, rfl⟩ := visible_eq_some.mp hrow
          have hmiss := hno row hget
          simpa [Call.hit, Row.cancellable, Table.key_of_get? hget] using hmiss
        · cases hpos
    | some row' =>
        obtain ⟨hget, row, hrow, hhit, rfl⟩ := cancel_row hcall
        have hclient : row.clientId = clientId := by
          simp only [Row.cancellable, Bool.and_eq_true, decide_eq_true_eq] at hhit
          exact hhit.1.2
        refine .inr ⟨row, visible_eq_some.mpr ⟨hrow, hclient⟩, rfl, hget, ?_⟩
        cases hjob : rowToJob P (row.cancel c.now) with
        | error e =>
            rw [claimedJob, hjob] at rest
            exact .inl ⟨e, rfl, rest.raise_inv.1⟩
        | ok job =>
            rw [claimedJob, hjob] at rest
            exact .inr ⟨job, rfl, rest⟩

theorem served_unlinkUnclaimed {cancelled : Job P} {f : Unit → Request P ε α}
    (served : (storeMachine P).Served (jobStore P C) (unlinkUnclaimed cancelled >>= f) s h u r) :
    ∃ h₁ t h₂, h = h₁ ++ h₂ ∧ (storeMachine P).Path s h₁ t ∧
      (storeMachine P).Served (jobStore P C) (f ()) t h₂ u r := by
  unfold unlinkUnclaimed at served
  split at served
  case h_1 path _ =>
    split at served
    · rcases served.ask_inv with ⟨_, h₁, t, h₂, rfl, wait, -, rest⟩ | ⟨_, _, _, _, _, _, hevent, _⟩
      · exact ⟨h₁, t, h₂, rfl, wait, rest⟩
      · cases hevent
    · exact ⟨[], s, h, rfl, .nil s, served⟩
  case h_2 => exact ⟨[], s, h, rfl, .nil s, served⟩

end Served

/-! ### `cancel_job` -/

section Cancel

variable {P : Pydantic} {C : Collation} {j : JobId} {clientId : String} {s₀ s t : Db}
  {h₀ h h₁ h₂ : StoreLog P} {row : Row} {job : Job P}

/-- What an answer of `cancel_job` says. -/
structure Settled (j : JobId) (clientId : String) (h₀ : StoreLog P) (s₀ : Db) (h : StoreLog P) (s : Db)
    (answer : JobCancellationResponse) : Prop where
  about : answer.jobId = j
  final : EndedAs j (h₀ ++ h) s answer.status
  requested : answer.cancellationRequested = true ↔ answer.status = .cancelled
  code : answer.code = 200 ∨ answer.code = 202
  seen : (storeMachine P).Sometime s₀ h s fun t =>
    ∃ row, visible j clientId t.tables = some row ∧ row.status = answer.status
  /-- an accepted cancellation is the terminal transition of the job -/
  accepted : answer.code = 202 → ∃ x ∈ h, ∃ url stamp now,
    x.event = .cancel j clientId url stamp now ∧ x.reply.positive = true

/-- A job that was read in a terminal state. -/
theorem settled_of_terminal (run : (storeMachine P).Run h₀ s₀) (path₁ : (storeMachine P).Path s₀ h₁ t)
    (path₂ : (storeMachine P).Path t h₂ s) (hrow : visible j clientId t.tables = some row)
    (hjob : rowToJob P row = .ok job) (hterm : row.isActive = false) :
    Settled j clientId h₀ s₀ (h₁ ++ h₂) s (alreadyTerminal job) := by
  obtain ⟨hget, -⟩ := visible_eq_some.mp hrow
  obtain ⟨hid, -, hstatus, -⟩ := rowToJob_columns hjob
  refine ⟨hid.trans (Table.key_of_get? hget), ?_, ?_, .inl rfl,
    ⟨h₁, t, h₂, rfl, path₁, path₂, row, hrow, hstatus.symm⟩, fun h => by cases h⟩
  · rw [← List.append_assoc]
    refine EndedAs.later (run.append path₁) ?_ path₂
    rw [show (alreadyTerminal job).status = row.status from hstatus]
    exact endedAs_of_row hget hterm
  · exact decide_eq_true_iff

/-- What a request may come to by the end of its run: an answer that `cancel_job` gives, or an error. -/
def Cancellation (j : JobId) (clientId : String) (h₀ : StoreLog P) (s₀ : Db) (h : StoreLog P) (s : Db) :
    Except RequestError JobCancellationResponse → Prop
  | .ok answer => Settled j clientId h₀ s₀ h s answer
  | .error .unknownJob =>
    (storeMachine P).Sometime s₀ h s fun t => visible j clientId t.tables = none
  | .error (.validationError e) => (storeMachine P).Sometime s₀ h s fun t =>
      ∃ row, visible j clientId t.tables = some row ∧ rowToJob P row = .error e
  | .error (.notCompleted ..) | .error .assertionError => False

/-- The job is read again, once nothing of it is left to cancel. -/
theorem cancellation_of_over {f : Option (Job P) → Request P RequestError JobCancellationResponse}
    {r : Except RequestError JobCancellationResponse} (hnone : f none = .raise .unknownJob)
    (hsome : ∀ existing, f (some existing) = .pure (alreadyTerminal existing))
    (run : (storeMachine P).Run h₀ s₀) (path : (storeMachine P).Path s₀ h₁ t) (hover : Over j t)
    (served : (storeMachine P).Served (jobStore P C) (storeGet .validationError j clientId >>= f)
      t h₂ s r) : Cancellation j clientId h₀ s₀ (h₁ ++ h₂) s r := by
  obtain ⟨g₁, u, g₂, rfl, path₁, path₂, hfound⟩ := served_get served
  have path' : (storeMachine P).Path s₀ (h₁ ++ g₁) u := path.append path₁
  rw [← List.append_assoc]
  rcases hfound with ⟨row, e, hrow, he, rfl⟩ | ⟨hgone, rest⟩ | ⟨row, job, hrow, hjob, rest⟩
  · exact ⟨_, u, g₂, rfl, path', path₂, row, hrow, he⟩
  · rw [hnone] at rest
    obtain ⟨rfl, -⟩ := rest.raise_inv
    exact ⟨_, u, g₂, rfl, path', path₂, hgone⟩
  · rw [hsome] at rest
    obtain ⟨rfl, -⟩ := rest.pure_inv
    have hover' : Over j u := path₁.preserves (I := Over j) (fun _ _ _ _ hs ho => ho.step hs) hover
    exact settled_of_terminal run path' path₂ hrow hjob (hover'.2 row (visible_eq_some.mp hrow).1)

/-- The cancellation that took effect. -/
theorem settled_of_cancel {x : Entry Db (Call P) (Reply P)} {url : Option String} {stamp : EventStamp}
    {now : Time} (run : (storeMachine P).Run h₀ s₀)
    (path₁ : (storeMachine P).Path s₀ h₁ x.before) (hevent : x.event = .cancel j clientId url stamp now)
    (hstep : (storeMachine P).step x.before x.event = some (x.after, x.reply))
    (path₂ : (storeMachine P).Path x.after h₂ s) (hpos : x.reply.positive = true)
    (hrow : visible j clientId x.before.tables = some row)
    (hafter : x.after.tables.jobs.get? j = some (row.cancel now))
    (hjob : rowToJob P (row.cancel now) = .ok job) :
    Settled j clientId h₀ s₀ (h₁ ++ x :: h₂) s ⟨202, job.id, job.status, job.stage, true⟩ := by
  obtain ⟨hid, -, hcolumn, -⟩ := rowToJob_columns hjob
  have hstatus : job.status = .cancelled := hcolumn
  have path : (storeMachine P).Path s₀ (h₁ ++ [x]) x.after := path₁.append (.one hstep)
  have hvisible : visible j clientId x.after.tables = some (row.cancel now) :=
    visible_eq_some.mpr ⟨hafter, (visible_eq_some.mp hrow).2⟩
  have hlog : h₁ ++ x :: h₂ = (h₁ ++ [x]) ++ h₂ := by simp
  rw [hlog]
  refine ⟨hid.trans (Table.key_of_get? hafter), ?_, iff_of_true rfl hstatus, .inr rfl,
    ⟨_, x.after, _, rfl, path, path₂, row.cancel now, hvisible, hstatus.symm⟩,
    fun _ => ⟨x, by simp, url, stamp, now, hevent, hpos⟩⟩
  rw [← List.append_assoc]
  refine EndedAs.later (run.append path) ?_ path₂
  exact hstatus ▸ endedAs_of_row hafter (by simp [Row.isActive, Row.cancel])

theorem cancellation {r : Except RequestError JobCancellationResponse}
    (run : (storeMachine P).Run h₀ s₀)
    (served : (storeMachine P).Served (jobStore P C) (cancelJob j clientId) s₀ h s r) :
    Cancellation j clientId h₀ s₀ h s r := by
  obtain ⟨h₁, t₁, h₂, rfl, path₁, path₂, hfound⟩ := served_get served
  rcases hfound with ⟨row, e, hrow, he, rfl⟩ | ⟨hnone, rest⟩ | ⟨row, job, hrow, hjob, rest⟩
  · exact ⟨h₁, t₁, h₂, rfl, path₁, path₂, row, hrow, he⟩
  · obtain ⟨rfl, -⟩ := rest.raise_inv
    exact ⟨h₁, t₁, h₂, rfl, path₁, path₂, hnone⟩
  obtain ⟨-, -, hstatus, -⟩ := rowToJob_columns hjob
  obtain ⟨hget, hclient⟩ := visible_eq_some.mp hrow
  obtain ⟨hdrawn, -⟩ := drawn_of_row (run.append path₁) hget
  dsimp only at rest
  split at rest
  case isFalse hterm =>
    -- it was terminal when it was read
    obtain ⟨rfl, -⟩ := rest.pure_inv
    refine settled_of_terminal run path₁ path₂ hrow hjob (Bool.eq_false_iff.mpr fun ha => hterm ?_)
    rw [hstatus]
    exact isActive_iff.mp ha
  case isTrue =>
    obtain ⟨g₁, x, g₂, stamp, now, rfl, path₃, hevent, hstep, path₄, hcancel⟩ := served_cancel rest
    have path : (storeMachine P).Path s₀ (h₁ ++ g₁) x.before := path₁.append path₃
    rcases hcancel with ⟨hsame, hno, rest⟩ | ⟨row₂, hrow₂, hpos, hafter, hread⟩
    · -- what the clause did not select was over
      have hover : Over j x.before := by
        refine ⟨?_, fun row₂ hrow₂ => ?_⟩
        · exact path₃.preserves (I := fun t => j ∈ t.drawn)
            (fun _ _ _ _ hs hd => (drawn_step hs j).mpr (.inl hd)) hdrawn
        · obtain ⟨hsame₂, -⟩ := same_row path₃ hdrawn hget hrow₂
          exact hno row₂ (visible_eq_some.mpr ⟨hrow₂, hsame₂.trans hclient⟩)
      have hlog : h₁ ++ (g₁ ++ x :: g₂) = (h₁ ++ g₁ ++ [x]) ++ g₂ := by simp
      rw [hlog]
      exact cancellation_of_over rfl (fun _ => rfl) run (path.append (.one hstep))
        (hsame.symm ▸ hover) rest
    · obtain ⟨hget₂, -⟩ := visible_eq_some.mp hrow₂
      obtain ⟨-, hjson⟩ := same_row path₃ hdrawn hget hget₂
      rcases hread with ⟨e, he, -⟩ | ⟨job₂, hjob₂, rest⟩
      · obtain ⟨job', hjob'⟩ := rowToJob_of_request hjob
          (show (row₂.cancel now).requestJson = row.requestJson from hjson)
        rw [he] at hjob'
        cases hjob'
      obtain ⟨g₃, t₃, g₄, rfl, path₅, rest⟩ := served_unlinkUnclaimed rest
      obtain ⟨rfl, path₆⟩ := rest.pure_inv
      rw [← List.append_assoc]
      exact settled_of_cancel run path hevent hstep path₄ hpos hrow₂ hafter hjob₂

/-- **Whatever `cancel_job` answers is final**: the status it reports is the one the job has ended
with, and an accepted cancellation is what ended it.  Otherwise the job was unknown to the client
at some moment of the request, or its stored request could not be read. -/
theorem cancelJob_settles {g : List (Entry _ (Call P ⊕ Chance) _)} {q : Request P _ _}
    {r : Except RequestError JobCancellationResponse} (run₀ : (storeMachine P).Run h₀ s₀)
    (run : ((storeMachine P).client (jobStore P C) (cancelJob j clientId) s₀).Run g (s, q))
    (hr : q.outcome = some r) : Cancellation j clientId h₀ s₀ (Machine.taken g) s r :=
  cancellation run₀ (Machine.served_of_run run hr)

/-- A chance without a webhook to insert or a source to look at. -/
def plainChance (now : Time) : Chance := ⟨now, "job", ⟨"event", now⟩, .unknown⟩

/-- A worker claims the job while it is being cancelled. -/
theorem cancelJob_settles_running : ∃ h₀ s₀ g s q answer, (storeMachine .strict).Run h₀ s₀ ∧
    ((storeMachine .strict).client (jobStore .strict .codePoints) (cancelJob "a" "client") s₀).Run g
      (s, q) ∧
    Cancellation "a" "client" h₀ s₀ (Machine.taken g) s (.ok answer) ∧ answer.code = 202 := by
  obtain ⟨h₀, s₀, g, s, q, r, run₀, run, hr, hok⟩ := Machine.client_of_exec (storeMachine .strict)
    (jobStore .strict .codePoints) (cancelJob "a" "client")
    [.create (plainJob "a" 1) none none]
    [.inr (plainChance 2), .inl (.claimNextQueued "worker" 3 60 [] [] (some "a")), .inr (plainChance 4)]
    (fun r => r.toOption.any fun answer => answer.code = 202) (by decide +kernel)
  cases r with
  | error e => cases hok
  | ok answer =>
      exact ⟨h₀, s₀, g, s, q, answer, run₀, run, cancelJob_settles run₀ run hr,
        by simpa [Except.toOption] using hok⟩

end Cancel

/-! ### `get_job_result` -/

section Result

variable {P : Pydantic} {C : Collation} {j : JobId} {clientId : String} {s₀ s t : Db}
  {h₀ h : StoreLog P} {row : Row}

/-- The job was finished with this result. -/
def FinishedWith (j : JobId) (h : StoreLog P) (given : TranscriptionResult PyFloat) : Prop :=
  ∃ x ∈ h, ∃ w url outcome stamp now,
    x.event = .finish j given w url outcome stamp now ∧ x.reply.positive = true

/-- The retention purge deleted the job. -/
def Purged (j : JobId) (h : StoreLog P) : Prop :=
  ∃ x ∈ h, ∃ row, x.before.tables.jobs.get? j = some row ∧ row.status.isTerminal = true ∧
    x.after.tables.jobs.get? j = none

theorem FinishedWith.append {given : TranscriptionResult PyFloat} (hf : FinishedWith j h given)
    (g : StoreLog P) : FinishedWith j (h ++ g) given := by
  obtain ⟨x, hx, hrest⟩ := hf
  exact ⟨x, List.mem_append_left _ hx, hrest⟩

theorem Purged.mono {g : StoreLog P} (hp : Purged j h) (hsub : h ⊆ g) : Purged j g := by
  obtain ⟨x, hx, hrest⟩ := hp
  exact ⟨x, hsub hx, hrest⟩

/-- A row that is gone was purged. -/
theorem purged_of_gone (path : (storeMachine P).Path t h s)
    (hrow : t.tables.jobs.get? j = some row) (hgone : s.tables.jobs.get? j = none) :
    Purged j h := by
  induction path with
  | nil =>
      rw [hrow] at hgone
      cases hgone
  | @snoc s s' h c r path hstep ih =>
      cases hb : s.tables.jobs.get? j with
      | none => exact (ih hb).mono (List.subset_append_left _ _)
      | some row' =>
          refine ⟨⟨s, c, r, s'⟩, by simp, row', hb, ?_, hgone⟩
          have hc := change_step hstep j
          rw [hb, hgone] at hc
          generalize c.claims r j = ct at hc
          generalize c.settles r j = st at hc
          cases hc with
          | purged _ cutoff hx =>
              simp only [Row.expired, Bool.and_eq_true] at hx
              exact hx.1

/-- **The result of a job that was found completed** is the one it was finished with, unless the purge
came in between. -/
theorem served_result {ε α : Type} {undecodable : ErrorDetails → ε}
    {f : Option (TranscriptionResult PyFloat) → Request P ε α} {r : Except ε α}
    (run : (storeMachine P).Run h₀ s₀) (hrow : visible j clientId s₀.tables = some row)
    (hdone : row.status = .completed)
    (served : (storeMachine P).Served (jobStore P C)
      (storeGetResult undecodable j clientId >>= f) s₀ h s r) :
    ∃ h₁ t h₂, h = h₁ ++ h₂ ∧ (storeMachine P).Path s₀ h₁ t ∧ (storeMachine P).Path t h₂ s ∧
      ((Purged j h₁ ∧ (storeMachine P).Served (jobStore P C) (f none) t h₂ s r) ∨
        ∃ given, FinishedWith j (h₀ ++ h₁) given ∧
          ((∃ e, TranscriptionResult.decode P given.dump = .error e ∧ r = .error (undecodable e)) ∨
            ∃ result, TranscriptionResult.decode P given.dump = .ok result ∧
              (storeMachine P).Served (jobStore P C) (f (some result)) t h₂ s r)) := by
  obtain ⟨hget, hclient⟩ := visible_eq_some.mp hrow
  obtain ⟨hdrawn, hlogged⟩ := drawn_of_row run hget
  have hterm : row.isActive = false := by simp [Row.isActive, hdone]
  obtain ⟨h₁, t, h₂, rfl, path₁, path₂, hresult⟩ := served_getResult served
  refine ⟨h₁, t, h₂, rfl, path₁, path₂, ?_⟩
  rcases hresult with ⟨hnone, rest⟩ | ⟨row₂, json, hrow₂, hjson, hdecode⟩
  · refine .inl ⟨purged_of_gone path₁ hget ?_, rest⟩
    -- the row would still be complete if it were there
    refine Option.eq_none_iff_forall_ne_some.mpr fun row₂ hget₂ => ?_
    obtain ⟨hsame, -⟩ := same_row path₁ hdrawn hget hget₂
    rw [visible_eq_some.mpr ⟨hget₂, hsame.trans hclient⟩, Option.bind_some] at hnone
    have hout := outcome_frozen path₁ hdrawn hget hterm hget₂
    have hsome := hlogged.coherent.completed_iff_result.mp hdone
    have hjson : row₂.resultJson = row.resultJson := congrArg (fun o => o.2.1) hout
    rw [← hjson, hnone] at hsome
    cases hsome
  · obtain ⟨x, hx, given, w, url, outcome, stamp, now, hevent, hpos, hstored⟩ :=
      stored_result (run.append path₁) (visible_eq_some.mp hrow₂).1 hjson
    obtain ⟨-, rfl⟩ := resultJson_eq_some.mp hstored
    exact .inr ⟨given, ⟨x, hx, w, url, outcome, stamp, now, hevent, hpos⟩, hdecode⟩

/-- What an answer of `get_job_result` says: a result is what the job was finished with, an
`AssertionError` means that the retention purge came in between, and everything else is what the job
was at some moment. -/
def ResultAnswer (j : JobId) (clientId : String) (h₀ : StoreLog P) (s₀ : Db) (h : StoreLog P) (s : Db) :
    Except RequestError (TranscriptionResult PyFloat) → Prop
  | .ok result => (storeMachine P).Sometime s₀ h s (fun t => ∃ row, visible j clientId t.tables = some row) ∧
      ∃ given, FinishedWith j (h₀ ++ h) given ∧
        TranscriptionResult.decode P given.dump = .ok result ∧ (given.Finite → result = given)
  | .error .unknownJob =>
    (storeMachine P).Sometime s₀ h s fun t => visible j clientId t.tables = none
  | .error (.notCompleted id status error) => id = j ∧ status ≠ .completed ∧
      (storeMachine P).Sometime s₀ h s fun t => ∃ row, visible j clientId t.tables = some row ∧
        row.status = status ∧ row.error = error
  | .error (.validationError e) =>
    ((storeMachine P).Sometime s₀ h s fun t =>
        ∃ row, visible j clientId t.tables = some row ∧ rowToJob P row = .error e) ∨
      ∃ given, FinishedWith j (h₀ ++ h) given ∧ TranscriptionResult.decode P given.dump = .error e
  | .error .assertionError => Purged j h

theorem resultAnswer (hP : P.Lawful) {r : Except RequestError (TranscriptionResult PyFloat)}
    (run : (storeMachine P).Run h₀ s₀)
    (served : (storeMachine P).Served (jobStore P C) (getJobResult j clientId) s₀ h s r) :
    ResultAnswer j clientId h₀ s₀ h s r := by
  obtain ⟨h₁, t₁, h₂, rfl, path₁, path₂, hfound⟩ := served_get served
  rcases hfound with ⟨row, e, hrow, he, rfl⟩ | ⟨hnone, rest⟩ | ⟨row, job, hrow, hjob, rest⟩
  · exact .inl ⟨h₁, t₁, h₂, rfl, path₁, path₂, row, hrow, he⟩
  · obtain ⟨rfl, -⟩ := rest.raise_inv
    exact ⟨h₁, t₁, h₂, rfl, path₁, path₂, hnone⟩
  obtain ⟨hid, -, hstatus, -⟩ := rowToJob_columns hjob
  dsimp only at rest
  split at rest
  case isTrue hne =>
    obtain ⟨rfl, -⟩ := rest.raise_inv
    refine ⟨hid.trans (Table.key_of_get? (visible_eq_some.mp hrow).1), hne, h₁, t₁, h₂, rfl, path₁,
      path₂, row, hrow, hstatus.symm, ?_⟩
    unfold rowToJob at hjob
    split at hjob
    · cases hjob
    · obtain rfl := Except.ok.inj hjob
      rfl
  case isFalse hdone =>
    obtain ⟨g₁, t₂, g₂, rfl, path₃, path₄, hresult⟩ :=
      served_result (run.append path₁) hrow (hstatus ▸ not_not.mp hdone) rest
    have hlog : h₀ ++ (h₁ ++ (g₁ ++ g₂)) = (h₀ ++ h₁ ++ g₁) ++ g₂ := by simp
    rcases hresult with ⟨hpurged, rest⟩ | ⟨given, hgiven, ⟨e, he, rfl⟩ | ⟨result, hdecode, rest⟩⟩
    · obtain ⟨rfl, -⟩ := rest.raise_inv
      exact hpurged.mono fun x hx => by simp [hx]
    · refine .inr ⟨given, ?_, he⟩
      rw [hlog]
      exact hgiven.append g₂
    · obtain ⟨rfl, -⟩ := rest.pure_inv
      refine ⟨⟨h₁, t₁, _, rfl, path₁, path₂, row, hrow⟩, given, ?_, hdecode, fun hfinite => ?_⟩
      · rw [hlog]
        exact hgiven.append g₂
      · have hreload : TranscriptionResult.decode P given.dump = .ok given :=
          (reloads_result hP).mpr hfinite
        exact Except.ok.inj (hdecode.symm.trans hreload)

/-- **A result that `get_job_result` returns is the one the job was finished with**, for the client who
submitted it; no other answer is made up either. -/
theorem getJobResult_answers (hP : P.Lawful) {g : List (Entry _ (Call P ⊕ Chance) _)} {q : Request P _ _}
    {r : Except RequestError (TranscriptionResult PyFloat)} (run₀ : (storeMachine P).Run h₀ s₀)
    (run : ((storeMachine P).client (jobStore P C) (getJobResult j clientId) s₀).Run g (s, q))
    (hr : q.outcome = some r) : ResultAnswer j clientId h₀ s₀ (Machine.taken g) s r :=
  resultAnswer hP run₀ (Machine.served_of_run run hr)

/-- Another worker's purge comes too early to matter, and the result is read. -/
theorem getJobResult_answers_finished : ∃ h₀ s₀ g s q result, (storeMachine .strict).Run h₀ s₀ ∧
    ((storeMachine .strict).client (jobStore .strict .codePoints) (getJobResult "job" "client") s₀).Run g
      (s, q) ∧
    ResultAnswer "job" "client" h₀ s₀ (Machine.taken g) s (.ok result) ∧ result.language = "sv" := by
  obtain ⟨h₀, s₀, g, s, q, r, run₀, run, hr, hok⟩ := Machine.client_of_exec (storeMachine .strict)
    (jobStore .strict .codePoints) (getJobResult "job" "client") finishedCalls
    [.inr (plainChance 3), .inl (.purgeOlderThan 1), .inr (plainChance 4)]
    (fun r => r.toOption.any fun result => result.language = "sv") (by decide +kernel)
  cases r with
  | error e => cases hok
  | ok result =>
      exact ⟨h₀, s₀, g, s, q, result, run₀, run,
        getJobResult_answers Pydantic.strict_lawful run₀ run hr, by simpa [Except.toOption] using hok⟩

end Result

/-! ### Other clients -/

section Foreign

variable {P : Pydantic} {C : Collation} {ε α : Type} {j : JobId} {clientId : String} {s₀ s : Db}
  {h : StoreLog P} {unknown : ε} {p : Request P ε α}

/-- The job was drawn, and is not the client's. -/
def Foreign (j : JobId) (clientId : String) (s : Db) : Prop :=
  j ∈ s.drawn ∧ visible j clientId s.tables = none

/-- The request reads the job first, and raises `unknown` if it is not there. -/
def ReadsFirst (j : JobId) (clientId : String) (unknown : ε) (p : Request P ε α) : Prop :=
  ∃ k, p = .ask (.get j clientId) k ∧ k (.ok none) = .raise unknown

/-- **The job of another client stays that.** -/
theorem Foreign.step {c : Call P} {s' : Db} {r : Reply P} (hs : Foreign j clientId s)
    (hstep : c.step s = some (s', r)) : Foreign j clientId s' := by
  obtain ⟨hdrawn, hnone⟩ := hs
  refine ⟨(drawn_step hstep j).mpr (.inl hdrawn), Option.eq_none_iff_forall_ne_some.mpr ?_⟩
  intro row' hrow'
  obtain ⟨hget', hclient⟩ := visible_eq_some.mp hrow'
  cases hb : s.tables.jobs.get? j with
  | none => exact (not_drawn_of_created hstep hb hget').1 hdrawn
  | some row =>
      have hc := change_step hstep j
      rw [hb, hget'] at hc
      rw [visible_eq_some.mpr ⟨hb, hc.immutable.2.1.symm.trans hclient⟩] at hnone
      cases hnone

/-- A job is foreign to every client but the one it was submitted by. -/
theorem foreign_of_submitted (run : (storeMachine P).Run h s) {x : Entry Db (Call P) (Reply P)}
    (hx : x ∈ h) {new : NewJob P} {a b : Option ℕ} (hevent : x.event = .create new a b)
    (hclient : new.clientId ≠ clientId) : Foreign new.id clientId s := by
  obtain ⟨h₁, h₂, rfl⟩ := List.append_of_mem hx
  obtain ⟨run₁, hstep, path⟩ := run.split
  refine path.preserves (I := Foreign new.id clientId) (fun _ _ _ _ hs hf => hf.step hs) ?_
  rw [hevent] at hstep
  have hcall : (Call.create new a b).step x.before = some (x.after, x.reply) := hstep
  obtain ⟨hnew, hdrawn, -⟩ := create_step hcall
  refine ⟨by simp [hdrawn], Option.eq_none_iff_forall_ne_some.mpr fun row hrow => ?_⟩
  obtain ⟨hget, hrowClient⟩ := visible_eq_some.mp hrow
  rcases get?_step hcall new.id with hold | ⟨new', _, _, hcreate, -, -, -, hget'⟩
  · -- an id that was never drawn has no row
    obtain ⟨row₀, hrow₀, -⟩ := Option.bind_eq_some_iff.mp (hold.symm.trans hget)
    exact hnew (drawn_of_row run₁ hrow₀).1
  · obtain rfl := (Call.create.inj hcreate).1
    rw [hget] at hget'
    obtain rfl := Option.some.inj hget'
    exact hclient hrowClient

/-- A request about it finds nothing, and does nothing. -/
theorem foreign_run (hs : Foreign j clientId s₀) (hp : ReadsFirst j clientId unknown p)
    {g : List (Entry _ (Call P ⊕ Chance) _)} {q : Request P ε α}
    (run : ((storeMachine P).client (jobStore P C) p s₀).Run g (s, q)) :
    Foreign j clientId s ∧ (q = p ∨ q = .raise unknown) ∧
      ∀ x ∈ g, x.event.isRight = true → x.after.1 = x.before.1 := by
  refine Machine.Run.invariant (M := (storeMachine P).client (jobStore P C) p s₀)
    (I := fun g x => Foreign j clientId x.1 ∧ (x.2 = p ∨ x.2 = .raise unknown) ∧
      ∀ x ∈ g, x.event.isRight = true → x.after.1 = x.before.1) ⟨hs, .inl rfl, by simp⟩ ?_ run
  rintro g ⟨t, q⟩ e ⟨t', q'⟩ reply - ⟨hforeign, hq, hquiet⟩ hstep
  simp only [List.forall_mem_append, List.forall_mem_singleton]
  cases e with
  | inl c =>
      obtain ⟨⟨u, r⟩, hc, heq⟩ := Option.map_eq_some_iff.mp hstep
      cases heq
      exact ⟨hforeign.step hc, hq, hquiet, fun h => by cases h⟩
  | inr chance =>
      rcases hq with rfl | rfl
      · obtain ⟨k, rfl, hk⟩ := hp
        obtain ⟨heq, -⟩ := Prod.mk.inj (Option.some.inj hstep)
        obtain ⟨rfl, rfl⟩ := Prod.mk.inj heq
        refine ⟨hforeign, .inr ?_, hquiet, fun _ => rfl⟩
        have hnone : Jobs.get P j (some clientId) t.tables = .ok none := by
          rw [get_eq, hforeign.2]
        change k (Jobs.get P j (some clientId) t.tables) = _
        rw [hnone, hk]
      · cases hstep

end Foreign

end Vemsa.Api
