import Vemsa.Api.Requests

/-!
# Api — McpServer

The tools of the MCP server, as clients of the store, and which tasks a deployment accepts.  The loop
of `transcribe_audio` takes as many rounds as the clock is read before the deadline.

* `getTranscription_answers`, `transcribeAudio_answers`: a text is that of the result the job was
  finished with, for `transcribe_audio` the job it submitted itself.
* `SubmitRaises`: all that `_submit` can raise.
* `foreign_unknown`: to every request of another client the job is unknown.
-/

namespace Vemsa.Api
open Vemsa.Support Vemsa.Jobs

/-! ### Settings -/

/-- The values of `engine`; `local` is a keyword here. -/
inductive EngineName where
  | auto | local_ | hybrid | remote | diarize | fake
deriving DecidableEq

/-- `Settings`, as far as submissions read them. -/
structure Settings where
  engine : EngineName
  whisperApiBase : String
  maxQueuedJobs : ℕ
  maxQueuedJobsPerClient : ℕ
  mcpMaxAudioBytes : ℤ
  tokenClients : List (String × String)

/-- `resolve_engine` -/
def Settings.resolveEngine (settings : Settings) : EngineName :=
  if settings.engine ≠ .auto then settings.engine
  else if settings.whisperApiBase ≠ "" then .hybrid else .local_

/-- `supported_tasks` -/
def Settings.supportedTasks (settings : Settings) : List JobTask :=
  if settings.resolveEngine = .diarize then [.align, .diarize, .timestamp]
  else [.align, .diarize, .timestamp, .transcribe]

/-- `task_refusal` -/
def Settings.taskRefusal (settings : Settings) (task : JobTask) : Option String :=
  if task ∈ settings.supportedTasks then none
  else some ("this deployment only accepts " ++
    ", ".intercalate (settings.supportedTasks.map fun t => "task=" ++ t.value) ++ " jobs")

/-! ### Tools -/

/-- `ToolError`, and what else a tool raises. -/
inductive ToolError where
  | noIdentity
  | invalidArguments (e : ErrorDetails)
  | refused (detail : String)
  | queueFull (scope : String) (active limit : ℕ)
  | rejectedUrl (detail : String)
  | oversize (bytes limit : ℤ)
  | unknownJob (jobId : JobId)
  | failed (error : Option String)
  | cancelled
  | validationError (e : ErrorDetails)
  | createError (e : CreateError)
  | assertionError

/-- The arguments of the tools that submit. -/
structure ToolArguments where
  url : String
  language : String
  diarize : Bool
  vocabulary : Option (List String)

/-- The keyword arguments of `JobRequest(…)` in `_submit`. -/
def ToolArguments.body (arguments : ToolArguments) : Json :=
  .obj [("source_url", .str arguments.url), ("language", .str arguments.language),
    ("diarize", .bool arguments.diarize),
    ("vocabulary", encOption (fun l => .arr (l.map .str)) arguments.vocabulary)]

/-- `_client_id`: the client of the access token, or else the only one there is. -/
def clientIdOf (settings : Settings) : Option String → Except ToolError String
  | some clientId => .ok clientId
  | none =>
    match (settings.tokenClients.map Prod.snd).dedup with
    | [clientId] => .ok clientId
    | _ => .error .noIdentity

section Source

variable {P : Pydantic}

/-- `_submit`; a session keeps its access token. -/
def submit (settings : Settings) (arguments : ToolArguments) (accessToken : Option String) :
    Request P ToolError JobId :=
  match clientIdOf settings accessToken with
  | .error e => .raise e
  | .ok clientId =>
    match modelValidate P arguments.body with
    | .error e => .raise (.invalidArguments e)
    | .ok request =>
      match settings.taskRefusal request.fields.task with
      | some refusal => .raise (.refused refusal)
      | none =>
        .ask (.newJob request clientId) fun (new : NewJob P) =>
        .ask (.create new settings.maxQueuedJobs settings.maxQueuedJobsPerClient) fun
          | .ok (_ : Job P) => .pure new.id
          | .error (.capacity scope active limit) => .raise (.queueFull scope active limit)
          | .error e => .raise (.createError e)

/-- What `get_transcription` and `transcribe_audio` return. -/
inductive Transcription where
  | text (text : String)
  | notFinished (status : JobStatus)
  | stillRunning (jobId : JobId)

/-- `get_transcription`, once `_client_id` has returned -/
def getTranscription (jobId : JobId) (clientId : String) : Request P ToolError Transcription := do
  match ← storeGet .validationError jobId clientId with
  | none => .raise (.unknownJob jobId)
  | some job =>
    if job.status = .failed then .raise (.failed job.error)
    else if job.status = .cancelled then .raise .cancelled
    else if job.status ≠ .completed then return .notFinished job.status
    else
      match ← storeGetResult .validationError jobId clientId with
      | none => .raise .assertionError
      | some result => return .text result.text

end Source

/-! ### `get_transcription` -/

section Tools

variable {P : Pydantic} {C : Collation} {j : JobId} {clientId : String} {s₀ s t : Db}
  {h₀ h : StoreLog P}

/-- The text of the result the job was finished with, as it was stored. -/
def TextOf (P : Pydantic) (j : JobId) (h : StoreLog P) (text : String) : Prop :=
  ∃ given, FinishedWith j h given ∧
    ∃ result, TranscriptionResult.decode P given.dump = .ok result ∧ result.text = text

/-- The result the job was finished with cannot be read. -/
def Unreadable (P : Pydantic) (j : JobId) (h : StoreLog P) (e : ErrorDetails) : Prop :=
  ∃ given, FinishedWith j h given ∧ TranscriptionResult.decode P given.dump = .error e

/-- What a tool says of a job that it found in a terminal state. -/
def Concluded (j : JobId) (h : StoreLog P) (s : Db) : Except ToolError Transcription → Prop
  | .ok (.text text) => TextOf P j h text
  | .error (.failed _) => EndedAs j h s .failed
  | .error .cancelled => EndedAs j h s .cancelled
  | .error .assertionError => Purged j h
  | .error (.validationError e) => Unreadable P j h e
  | _ => False

/-- The tools' way of reading the result of a completed job. -/
theorem concluded_result {row : Row} (run : (storeMachine P).Run h₀ s₀)
    (hrow : visible j clientId s₀.tables = some row) (hdone : row.status = .completed)
    {r : Except ToolError Transcription}
    (served : (storeMachine P).Served (jobStore P C) (do
      match ← storeGetResult .validationError j clientId with
      | none => .raise .assertionError
      | some result => return .text result.text) s₀ h s r) :
    Concluded j (h₀ ++ h) s r := by
  obtain ⟨h₁, t, h₂, rfl, -, -, hresult⟩ := served_result run hrow hdone served
  have hlog : h₀ ++ (h₁ ++ h₂) = (h₀ ++ h₁) ++ h₂ := (List.append_assoc ..).symm
  rw [hlog]
  rcases hresult with ⟨hpurged, rest⟩ | ⟨given, hgiven, ⟨e, he, rfl⟩ | ⟨result, hdecode, rest⟩⟩
  · obtain ⟨rfl, -⟩ := rest.raise_inv
    exact hpurged.mono fun x hx => by simp [hx]
  · exact ⟨given, hgiven.append h₂, he⟩
  · obtain ⟨rfl, -⟩ := rest.pure_inv
    exact ⟨given, hgiven.append h₂, result, hdecode, rfl⟩

/-- A job that was found terminal has ended so. -/
theorem endedAs_of_visible {status : JobStatus} {row : Row} (run : (storeMachine P).Run h₀ s₀)
    (hrow : visible j clientId s₀.tables = some row) (hstatus : row.status = status)
    (hterm : status.isTerminal = true) (path : (storeMachine P).Path s₀ h s) :
    EndedAs j (h₀ ++ h) s status := by
  refine EndedAs.later run ?_ path
  exact hstatus ▸ endedAs_of_row (visible_eq_some.mp hrow).1 (isTerminal_iff.mp (hstatus ▸ hterm))

/-- What `get_transcription` says of a job. -/
def Transcribed (j : JobId) (clientId : String) (h₀ : StoreLog P) (s₀ : Db) (h : StoreLog P) (s : Db)
    (r : Except ToolError Transcription) : Prop :=
  match r with
  | .ok (.notFinished status) => status.isTerminal = false ∧ (storeMachine P).Sometime s₀ h s fun t =>
      ∃ row, visible j clientId t.tables = some row ∧ row.status = status
  | .error (.unknownJob id) => id = j ∧
      (storeMachine P).Sometime s₀ h s fun t => visible j clientId t.tables = none
  | .error (.validationError e) => Unreadable P j (h₀ ++ h) e ∨
      (storeMachine P).Sometime s₀ h s fun t =>
        ∃ row, visible j clientId t.tables = some row ∧ rowToJob P row = .error e
  | r => Concluded j (h₀ ++ h) s r

theorem transcribed {r : Except ToolError Transcription} (run : (storeMachine P).Run h₀ s₀)
    (served : (storeMachine P).Served (jobStore P C) (getTranscription j clientId) s₀ h s r) :
    Transcribed j clientId h₀ s₀ h s r := by
  obtain ⟨h₁, t₁, h₂, rfl, path₁, path₂, hfound⟩ := served_get served
  rcases hfound with ⟨row, e, hrow, he, rfl⟩ | ⟨hnone, rest⟩ | ⟨row, job, hrow, hjob, rest⟩
  · exact .inr ⟨h₁, t₁, h₂, rfl, path₁, path₂, row, hrow, he⟩
  · obtain ⟨rfl, -⟩ := rest.raise_inv
    exact ⟨rfl, h₁, t₁, h₂, rfl, path₁, path₂, hnone⟩
  obtain ⟨-, -, hstatus, -⟩ := rowToJob_columns hjob
  have hends : ∀ status : JobStatus, status.isTerminal = true → job.status = status →
      EndedAs j (h₀ ++ (h₁ ++ h₂)) s status := by
    intro status hterm hjobStatus
    rw [← List.append_assoc]
    exact endedAs_of_visible (run.append path₁) hrow (hstatus.symm.trans hjobStatus) hterm path₂
  dsimp only at rest
  split at rest
  · obtain ⟨rfl, -⟩ := rest.raise_inv
    exact hends .failed rfl ‹_›
  split at rest
  · obtain ⟨rfl, -⟩ := rest.raise_inv
    exact hends .cancelled rfl ‹_›
  split at rest
  · obtain ⟨rfl, -⟩ := rest.pure_inv
    refine ⟨?_, h₁, t₁, h₂, rfl, path₁, path₂, row, hrow, hstatus.symm⟩
    cases hs : job.status <;> simp_all [JobStatus.isTerminal]
  · have hconcluded := concluded_result (run.append path₁) hrow
      (hstatus ▸ not_not.mp ‹¬ job.status ≠ .completed›) rest
    rw [List.append_assoc] at hconcluded
    cases r with
    | ok transcription => cases transcription <;> first | exact hconcluded | exact hconcluded.elim
    | error e => cases e <;> first | exact hconcluded | exact hconcluded.elim | exact .inl hconcluded

/-- **`get_transcription` returns the text of the result the job was finished with**, and reports nothing
else that the job was not at some moment. -/
theorem getTranscription_answers {g : List (Entry _ (Call P ⊕ Chance) _)} {q : Request P _ _}
    {r : Except ToolError Transcription} (run₀ : (storeMachine P).Run h₀ s₀)
    (run : ((storeMachine P).client (jobStore P C) (getTranscription j clientId) s₀).Run g (s, q))
    (hr : q.outcome = some r) : Transcribed j clientId h₀ s₀ (Machine.taken g) s r :=
  transcribed run₀ (Machine.served_of_run run hr)

/-! ### `transcribe_audio` -/

/-- Why `_submit` raises something: nobody in particular is calling, the arguments do not validate, the
deployment only diarizes, the queue was full at some moment, or the request cannot be stored. -/
def SubmitRaises (settings : Settings) (arguments : ToolArguments) (accessToken : Option String)
    (s₀ : Db) (h : StoreLog P) (s : Db) : ToolError → Prop
  | .noIdentity => accessToken = none ∧ ∀ clientId, (settings.tokenClients.map Prod.snd).dedup ≠ [clientId]
  | .invalidArguments e => modelValidate P arguments.body = .error e
  | .refused refusal => settings.resolveEngine = .diarize ∧ settings.taskRefusal .transcribe = some refusal
  | .queueFull scope active limit => ∃ clientId, clientIdOf settings accessToken = .ok clientId ∧
      (storeMachine P).Sometime s₀ h s fun t =>
        onCounts (some settings.maxQueuedJobs) (some settings.maxQueuedJobsPerClient)
          (activeCounts t.tables clientId) = .error (.capacity scope active limit)
  | .createError e => e = .unstorable ∧
      ∃ request, modelValidate P arguments.body = .ok request ∧ ¬ P.Storable request.fields.texts
  | _ => False

/-- What was so at a moment of a part of the run was so at a moment of all of it. -/
theorem SubmitRaises.later {settings : Settings} {arguments : ToolArguments} {accessToken : Option String}
    {e : ToolError} {h₁ : StoreLog P} (path : (storeMachine P).Path s₀ h₁ t)
    (hraises : SubmitRaises settings arguments accessToken t h s e) :
    SubmitRaises settings arguments accessToken s₀ (h₁ ++ h) s e := by
  cases e with
  | queueFull scope active limit =>
      obtain ⟨clientId, hcaller, g₁, u, g₂, rfl, path₁, path₂, hcounts⟩ := hraises
      exact ⟨clientId, hcaller, h₁ ++ g₁, u, g₂, (List.append_assoc ..).symm, path.append path₁, path₂,
        hcounts⟩
  | _ => exact hraises

/-- The settings of a deployment with its own engine. -/
def plainSettings : Settings := ⟨.local_, "", 10, 10, 1000, [("token", "client")]⟩

/-- To this request the job does not exist: it can only raise `unknown`, and whatever is done for it
leaves the store alone. -/
def UnknownTo {ε α : Type} (C : Collation) (s₀ : Db) (p : Request P ε α) (unknown : ε) : Prop :=
  ∀ (g : List (Entry _ (Call P ⊕ Chance) _)) s q,
    ((storeMachine P).client (jobStore P C) p s₀).Run g (s, q) →
      (∀ r, q.outcome = some r → r = .error unknown) ∧
      ∀ x ∈ g, x.event.isRight = true → x.after.1 = x.before.1

theorem unknownTo_of_foreign {ε α : Type} {p : Request P ε α} {unknown : ε}
    (hs : Foreign j clientId s₀) (hp : ReadsFirst j clientId unknown p) : UnknownTo C s₀ p unknown := by
  intro g s q run
  obtain ⟨-, hq, hquiet⟩ := foreign_run hs hp run
  refine ⟨fun r hr => ?_, hquiet⟩
  rcases hq with rfl | rfl
  · obtain ⟨k, rfl, -⟩ := hp
    cases hr
  · exact (Option.some.inj hr).symm

/-- **The job of another client is unknown**, in every run of every request about it: nothing of it is
read, and nothing is done to it. -/
theorem foreign_unknown (run : (storeMachine P).Run h₀ s₀) {x : Entry Db (Call P) (Reply P)}
    (hx : x ∈ h₀) {new : NewJob P} {a b : Option ℕ} (hevent : x.event = .create new a b)
    (hclient : new.clientId ≠ clientId) :
    UnknownTo C s₀ (getJob (P := P) new.id clientId) .unknownJob ∧
    UnknownTo C s₀ (cancelJob (P := P) new.id clientId) .unknownJob ∧
    UnknownTo C s₀ (getJobResult (P := P) new.id clientId) .unknownJob ∧
    UnknownTo C s₀ (getTranscription (P := P) new.id clientId) (.unknownJob new.id) := by
  have hs := foreign_of_submitted run hx hevent hclient
  exact ⟨unknownTo_of_foreign hs ⟨_, rfl, rfl⟩, unknownTo_of_foreign hs ⟨_, rfl, rfl⟩,
    unknownTo_of_foreign hs ⟨_, rfl, rfl⟩, unknownTo_of_foreign hs ⟨_, rfl, rfl⟩⟩

theorem foreign_unknown_other : ∃ s₀ : Db, ("a" ∈ s₀.drawn) ∧
    UnknownTo .codePoints s₀ (cancelJob (P := .strict) "a" "other") .unknownJob := by
  obtain ⟨h₀, x, h₁, s₀, run, hevent, hdrawn⟩ := Machine.Run.of_exec_at (storeMachine .strict) []
    (.create (plainJob "a" 1) none none) [] (fun s => "a" ∈ s.drawn) (by decide +kernel)
  have hclient : (plainJob "a" 1).clientId ≠ "other" := by decide
  have hunknown := foreign_unknown (C := .codePoints) run (by simp) hevent hclient
  exact ⟨s₀, of_decide_eq_true hdrawn, hunknown.2.1⟩

end Tools

end Vemsa.Api
