import Vemsa.Support.Traces
import Vemsa.Pipeline.Shares
import Vemsa.Jobs.Queue

/-!
# Jobs — ProcessJob

`_process_job` as a program: it asks the store, the engine, the network and the clock, and whatever it
asks may raise.  Its locals outlive an exception, so an exception carries them.

The engine runs in a thread and calls back with its stages.  What it does is an answer like any other:
a program of its own, which reports stages and returns a result or raises (`EngineRun`).
-/

namespace Vemsa.Jobs
open Vemsa.Support Vemsa.Pipeline

/-! ### Exceptions -/

/-- An exception: `type(exc).__name__`, the qualified names of its classes, and `str(exc)`. -/
structure PyExc where
  name : String
  classes : List String
  text : String

namespace PyExc

def isInstance (e : PyExc) (cls : String) : Bool := e.classes.contains cls

/-- An instance of a class of this program that derives from `RuntimeError`. -/
def runtime (name text : String) : PyExc where
  name
  classes := [name, "RuntimeError", "Exception", "BaseException", "object"]
  text

def jobCancelled : PyExc := runtime "JobCancelledError" "job cancellation was requested"

def leaseLost : PyExc := runtime "JobLeaseLostError" "worker no longer owns the job"

def stageTimedOut : PyExc where
  name := "RuntimeError"
  classes := ["RuntimeError", "Exception", "BaseException", "object"]
  text := "job stage update timed out"

def assertion : PyExc where
  name := "AssertionError"
  classes := ["AssertionError", "Exception", "BaseException", "object"]
  text := ""

/-- The cancellation of the task itself; no `Exception`. -/
def isTaskCancelled (e : PyExc) : Bool := e.isInstance "asyncio.CancelledError"

/-- `is_out_of_memory`; `lower` makes none of these letters out of another than its capital. -/
def isOutOfMemory (e : PyExc) : Bool :=
  e.isInstance "MemoryError" || e.name == "OutOfMemoryError" ||
    (e.isInstance "RuntimeError" &&
      decide ("out of memory".toList <:+: e.text.toList.map Char.toLower))

/-- `failure_kind` -/
def failureKind (e : PyExc) : FailureKind :=
  if e.isInstance "JobCancelledError" || e.isTaskCancelled then .cancelled
  else if e.isInstance "WhisperProviderError" then .provider
  else if e.isOutOfMemory || e.isInstance "QueueCapacityError" then .capacity
  else if e.isInstance "AudioDecodeError" || e.isInstance "AudioTooLargeError" ||
      e.isInstance "ForbiddenUrlError" then .input
  else .internal

/-- `public_error` -/
def publicError (e : PyExc) : String :=
  if e.isInstance "AlignmentBelowFloorError" then e.text else s!"{e.name}: processing failed"

end PyExc

/-! ### What a job asks -/

/-- `JobStage(...).value` -/
def JobStage.value : JobStage → String
  | queued => "queued"
  | transcribing => "transcribing"
  | aligning => "aligning"
  | diarizing => "diarizing"
  | finalizing => "finalizing"

/-- `self._store`, or the connection of the control thread. -/
inductive Connection where
  | primary | control

/-- The store calls of a job task, the fetch, the probe and the clean-up. -/
inductive JobEffect where
  | renewLease
  | get (connection : Connection)
  | setStage (connection : Connection) (stage : JobStage)
  | fetchUrl (url : String)
  | setAudioPath (path : Path)
  | probeAudioSeconds (path : Path)
  | finish (result : TranscriptionResult PyFloat) (outcome : JobOutcome)
  | releaseForRetry
  | fail (error : String) (kind : FailureKind) (outcome : JobOutcome)
  | unlink (path : Path)

/-- Of the job that `get` returns only the status is read. -/
@[reducible]
def JobEffect.Result : JobEffect → Type
  | renewLease | setStage .. | finish .. | releaseForRetry | fail .. => Bool
  | get _ => Option JobStatus
  | fetchUrl _ => Path
  | probeAudioSeconds _ => Option PyFloat
  | setAudioPath _ | unlink _ => Unit

/-- The method of the engine a task is for, and what it is given. -/
inductive EngineCall where
  | labelSpeakers (audioPath : Path) (words : List (Word PyFloat)) (segments : List (Segment PyFloat))
      (language : Language) (model : String) (speakers : Option SpeakerBounds)
      (includeSpeakerReview : Bool)
  | alignTranscript (audioPath : Path) (segments : List (Segment PyFloat)) (language : Language)
      (model : String)
  | timestampTranscript (audioPath : Path) (segments : List (Segment PyFloat)) (language : Language)
      (model : String)
  | transcribe (audioPath : Path) (language : Language) (model : String) (diarize : Bool)
      (speakers : Option SpeakerBounds) (includeSpeakerReview : Bool)
      (vocabulary : Option (List String))

/-- What an engine does: it reports stages, each report returns or raises, and it returns or raises. -/
abbrev EngineRun := Proc (fun _ : JobStage => Except PyExc Unit) PyExc (TranscriptionResult PyFloat)

/-- The counters that are incremented. -/
inductive Metric where
  | jobsFinished (status : JobStatus)
  | jobRetries
  | jobAlignment (alignment : String)
  | interpolatedWords (words : ℕ)

/-- The loops that a job wakes up. -/
inductive Wakeup where
  | worker | webhook

inductive JobAsk where
  | call (c : JobEffect)
  | perfCounter
  | engine (call : EngineCall)
  | count (metric : Metric)
  | wake (wakeup : Wakeup)

@[reducible]
def JobAsk.Answer : JobAsk → Type
  | call c => Except PyExc c.Result
  | perfCounter => ℚ
  | engine _ => EngineRun
  | count _ | wake _ => Unit

abbrev JobLog := List (Proc.Asked JobAsk.Answer)

/-! ### The program -/

/-- `Settings`, the fields `_process_job` reads, and what the queue knows of itself. -/
structure JobWorker extends Settings where
  workerId : WorkerId
  engine : String
  defaultModel : String
  device : Option String
  minAlignment : Option Alignment
  alignMaxInterpolatedShare : ℚ
  retriesAtOnce : Bool

/-- The local variables of `_process_job`. -/
structure Locals where
  audioPath : Option Path
  currentStage : JobStage
  stageStarted : ℚ
  stageSeconds : List (String × ℚ) := []
  audioSeconds : Option PyFloat := none
  deleteAudio : Bool := false

/-- An exception comes with the locals as they were. -/
abbrev JobProg (α : Type) := Proc JobAsk.Answer (PyExc × Locals) α

variable {P : Pydantic}

def attempt (l : Locals) (c : JobEffect) : JobProg c.Result :=
  Proc.read (JobAsk.call c) >>= fun r : Except PyExc c.Result =>
    match r with
    | .ok v => pure v
    | .error e => .raise (e, l)

/-- `time.perf_counter()`.  Readings are exact here, and so is what is computed from them: the floats of
the program round each difference and each sum. -/
def perfCounter : JobProg ℚ := Proc.read JobAsk.perfCounter

def count (metric : Metric) : JobProg Unit := Proc.read (JobAsk.count metric)

def wake (wakeup : Wakeup) : JobProg Unit := Proc.read (JobAsk.wake wakeup)

/-! #### Stages -/

/-- What follows a call that returned `False`: the job was cancelled, or the lease is lost. -/
def raiseLost {α : Type} (l : Locals) (connection : Connection) : JobProg α := do
  let current ← attempt l (.get connection)
  .raise (if current = some .cancelled then .jobCancelled else .leaseLost, l)

/-- `_persist_stage` -/
def persistStage (l : Locals) (connection : Connection) (stage : JobStage) : JobProg Unit := do
  if ← attempt l (.setStage connection stage) then return ()
  raiseLost l connection

/-- `_close_stage` -/
def closeStage (l : Locals) : JobProg Locals := do
  let now ← perfCounter
  return { l with stageSeconds := tally l.currentStage.value (now - l.stageStarted) l.stageSeconds }

/-- The next stage begins: `current_stage = stage; stage_started = time.perf_counter()` -/
def beginStage (l : Locals) (stage : JobStage) : JobProg Locals := do
  let now ← perfCounter
  return { l with currentStage := stage, stageStarted := now }

/-- `_report_stage` -/
def reportStage (l : Locals) (stage : JobStage) : JobProg Locals := do
  if stage = l.currentStage then return l
  Proc.guard (persistStage l .control stage) fun (e, l) =>
    .raise (if e.isInstance "TimeoutError" then .stageTimedOut else e, l)
  let l ← closeStage l
  beginStage l stage

/-- The engine in its thread, with `_report_stage` as `on_stage`. -/
def runEngine : EngineRun → Locals → JobProg (TranscriptionResult PyFloat × Locals)
  | .pure result, l => return (result, l)
  | .raise e, l => .raise (e, l)
  | .ask stage k, l => do
    let (answer, l) ← Proc.guard
      (do
        let l ← reportStage l stage
        return (.ok (), l))
      fun (e, l) => return (.error e, l)
    runEngine (k answer) l

/-! #### Checks -/

/-- `ALIGNMENT_RANK` -/
def Alignment.rank : Alignment → ℤ
  | forced => 3
  | providerWords => 2
  | segmentSplit => 1
  | segmentOnly => 0

/-- `result.alignment or "none"` -/
def alignmentName (alignment : Option Alignment) : String := alignment.elim "none" Alignment.value

/-- `_check_alignment_floor`: the message it raises with. -/
def checkAlignmentFloor (w : JobWorker) (result : TranscriptionResult PyFloat) : Option String :=
  match w.minAlignment with
  | none => none
  | some floor =>
    if floor.rank ≤ result.alignment.elim (-1) Alignment.rank then none
    else some s!"word-timestamp quality degraded to {alignmentName result.alignment}, below the configured floor of {floor.value} (VEMSA_MIN_ALIGNMENT)"

/-- `interpolated_words` -/
def interpolatedWords (words : List (Word PyFloat)) : ℕ :=
  words.countP fun word => word.probability = some (.finite 0)

/-- `f"{share:.0%}"`: the float times 100, without decimals. -/
def percent (share : ℚ) : String := s!"{roundHalfEven (double (100 * share))}%"

/-- The words `_check_interpolated_share` looks at. -/
def resultWords (result : TranscriptionResult PyFloat) : List (Word PyFloat) :=
  result.segments.flatMap Segment.words

/-- `share`, a float -/
def interpolatedShare (result : TranscriptionResult PyFloat) : ℚ :=
  double (interpolatedWords (resultWords result) / (resultWords result).length)

/-- The rest of `_check_interpolated_share`, once some words are interpolated. -/
def checkInterpolatedShare (w : JobWorker) (result : TranscriptionResult PyFloat) : Option String :=
  let words := resultWords result
  if w.alignMaxInterpolatedShare < interpolatedShare result then
    some s!"{interpolatedWords words} of {words.length} words ({percent (interpolatedShare result)}) got interpolated timestamps because their text could not be aligned against the audio, above the configured share of {percent w.alignMaxInterpolatedShare} (VEMSA_ALIGN_MAX_INTERPOLATED_SHARE)"
  else none

/-- A check that raises `AlignmentBelowFloorError`. -/
def belowFloor (l : Locals) : Option String → JobProg Unit
  | none => return ()
  | some message => .raise (.runtime "AlignmentBelowFloorError" message, l)

/-- Both checks. -/
def checkResult (w : JobWorker) (l : Locals) (result : TranscriptionResult PyFloat) : JobProg Unit := do
  belowFloor l (checkAlignmentFloor w result)
  let interpolated := interpolatedWords (resultWords result)
  if result.alignment ≠ some .forced || interpolated = 0 then return ()
  count (.interpolatedWords interpolated)
  belowFloor l (checkInterpolatedShare w result)

/-! #### A task -/

section Task

variable (w : JobWorker) (job : Job P)

/-- `job.request.model or (default_model if task == "transcribe" else EXTERNAL_MODEL)` -/
def requestModel : String :=
  match job.request.fields.model.filter fun model => model ≠ "" with
  | some model => model
  | none => if job.request.fields.task = .transcribe then w.defaultModel else externalModel

/-- `_outcome` -/
def outcome (l : Locals) (processingS : ℚ) (errorClass : Option String) : JobOutcome where
  engine := w.engine
  model := some (requestModel w job)
  device := w.device
  processingS := .finite processingS
  audioSeconds := l.audioSeconds
  stageSeconds := l.stageSeconds.map fun entry => (entry.1, .finite entry.2)
  errorClass

/-- The outcome of a result. -/
def resultOutcome (l : Locals) (processingS : ℚ) (result : TranscriptionResult PyFloat) : JobOutcome :=
  { outcome w job l processingS none with
    model := some result.model
    alignment := result.alignment.map Alignment.value
    -- `result.duration_seconds or audio_seconds`
    audioSeconds :=
      if result.durationSeconds = .finite 0 then l.audioSeconds else some result.durationSeconds }

/-- `job.request.speaker_bounds()` -/
def RequestFields.speakerBounds {Url : Type} (r : RequestFields Url) : Option SpeakerBounds :=
  if r.bounded then some ⟨r.numSpeakers, r.minSpeakers, r.maxSpeakers⟩ else none

/-- The call of the engine, by task. -/
def engineCall (audioPath : Path) : EngineCall :=
  let request := job.request.fields
  let model := requestModel w job
  match request.task with
  | .diarize => .labelSpeakers audioPath (request.words.getD []) (request.segments.getD [])
      request.language model request.speakerBounds request.includeSpeakerReview
  | .align => .alignTranscript audioPath (request.segments.getD []) request.language model
  | .timestamp => .timestampTranscript audioPath (request.segments.getD []) request.language model
  | .transcribe => .transcribe audioPath request.language model request.diarize request.speakerBounds
      request.includeSpeakerReview request.vocabulary

/-- The source of the job is there, or fetched. -/
def fetchSource (l : Locals) : JobProg (Path × Locals) := do
  match l.audioPath with
  | some path => return (path, l)
  | none =>
    match job.request.fields.sourceUrl with
    | none => .raise (.assertion, l)
    | some url =>
      let path ← attempt l (.fetchUrl (P.urlText url))
      let l := { l with audioPath := some path }
      attempt l (.setAudioPath path)
      return (path, l)

/-- `_record_cancelled` -/
def recordCancelled (l : Locals) : JobProg Locals := do
  count (.jobsFinished .cancelled)
  let l ← closeStage { l with deleteAudio := true }
  wake .webhook
  return l

/-- What follows a result or a failure that was not committed. -/
def notCommitted (l : Locals) : JobProg Locals := do
  if (← attempt l (.get .primary)) = some .cancelled then recordCancelled l else return l

/-- From the checked result to the commit. -/
def finishJob (started : ℚ) (l : Locals) (result : TranscriptionResult PyFloat) : JobProg Locals := do
  persistStage l .primary .finalizing
  let l ← closeStage l
  let l ← beginStage l .finalizing
  let now ← perfCounter
  if ← attempt l (.finish result (resultOutcome w job l (now - started) result)) then
    count (.jobsFinished .completed)
    let l ← closeStage { l with deleteAudio := true }
    wake .webhook
    return l
  else notCommitted l

/-- The body of the `try`. -/
def runBody (started : ℚ) (l : Locals) : JobProg Locals := do
  if !(← attempt l .renewLease) then raiseLost l .primary
  else
    let (audioPath, l) ← fetchSource job l
    let audioSeconds ← attempt l (.probeAudioSeconds audioPath)
    let run ← Proc.read (JobAsk.engine (engineCall w job audioPath))
    let (result, l) ← runEngine run { l with audioSeconds }
    count (.jobAlignment (alignmentName result.alignment))
    checkResult w l result
    finishJob w job started l result

/-- The job fails, with what may be told about it. -/
def failJob (started : ℚ) (e : PyExc) (l : Locals) : JobProg Locals := do
  let l ← closeStage l
  let now ← perfCounter
  if ← attempt l (.fail e.publicError e.failureKind (outcome w job l (now - started) (some e.name))) then
    count (.jobsFinished .failed)
    wake .webhook
    return { l with deleteAudio := true }
  else notCommitted l

/-- The condition under which a job is handed back. -/
def retries (e : PyExc) : Bool :=
  !e.isInstance "WhisperProviderError" && e.isOutOfMemory && job.attempt < w.oomMaxAttempts

/-- The clause `except Exception`. -/
def onFailure (started : ℚ) (e : PyExc) (l : Locals) : JobProg Locals := do
  if retries w job e then
    if ← attempt l .releaseForRetry then
      count .jobRetries
      if w.retriesAtOnce then wake .worker
      return l
    else failJob w job started e l
  else failJob w job started e l

/-- The `except` clauses. -/
def onException (started : ℚ) : PyExc × Locals → JobProg Locals
  | (e, l) =>
    if e.isInstance "JobCancelledError" then recordCancelled l
    else if e.isInstance "JobLeaseLostError" then return l
    else if !e.isTaskCancelled && e.isInstance "Exception" then onFailure w job started e l
    else .raise (e, l)

/-- The clause `finally`. -/
def cleanUp (l : Locals) : JobProg Unit :=
  match l.audioPath with
  | some path => if l.deleteAudio then attempt l (.unlink path) else return ()
  | none => return ()

/-- The locals at the `try`; an empty path is none. -/
def startLocals (stageStarted : ℚ) : Locals where
  audioPath := job.audioPath.filter fun path => path ≠ ""
  currentStage := job.stage
  stageStarted

/-- `_process_job` -/
def processJob : JobProg Unit := do
  let started ← perfCounter
  let stageStarted ← perfCounter
  let l ← Proc.guard
    (Proc.guard (runBody w job started (startLocals job stageStarted)) (onException w job started))
    fun (e, l) => do
      cleanUp l
      .raise (e, l)
  cleanUp l

end Task

/-! ### What is raised -/

/-- An engine raises what is in `S`, or passes on what a report raised. -/
def EngineRaises : (PyExc → Prop) → EngineRun → Prop
  | _, .pure _ => True
  | S, .raise e => S e
  | S, .ask _ k =>
    EngineRaises S (k (.ok ())) ∧ ∀ e, EngineRaises (fun e' => S e' ∨ e' = e) (k (.error e))

/-- What is asked raises nothing but what is in `S`. -/
def Raising (S : PyExc → Prop) : ∀ o : JobAsk, o.Answer → Prop
  | .call _, .error e => S e
  | .engine _, run => EngineRaises S run
  | _, _ => True

section Raised

variable (w : JobWorker) (S : PyExc → Prop)

/-- The exceptions a job can see: those in `S`, and its own. -/
inductive Known : PyExc → Prop where
  | raised {e : PyExc} (h : S e) : Known e
  | jobCancelled : Known .jobCancelled
  | leaseLost : Known .leaseLost
  | stageTimedOut : Known .stageTimedOut
  | assertion : Known .assertion
  | floor {result : TranscriptionResult PyFloat} {message : String}
      (h : checkAlignmentFloor w result = some message) :
      Known (.runtime "AlignmentBelowFloorError" message)
  | share {result : TranscriptionResult PyFloat} {message : String}
      (h : checkInterpolatedShare w result = some message) :
      Known (.runtime "AlignmentBelowFloorError" message)

end Raised

/-! ### What a log says -/

/-- What a run leaves behind. -/
inductive Mark where
  | fetched (path : Path)
  | committed (status : JobStatus)
  | finished (status : JobStatus)
  | released
  | unlinked (path : Path)

/-- The marks of one operation. -/
def mark : Proc.Asked JobAsk.Answer → List Mark
  | ⟨.call (.fetchUrl _), .ok path⟩ => [.fetched path]
  | ⟨.call (.finish ..), .ok true⟩ => [.committed .completed]
  | ⟨.call (.fail ..), .ok true⟩ => [.committed .failed]
  | ⟨.call .releaseForRetry, .ok true⟩ => [.released]
  | ⟨.call (.unlink path), _⟩ => [.unlinked path]
  | ⟨.count (.jobsFinished status), _⟩ => [.finished status]
  | _ => []

def marks (h : JobLog) : List Mark := h.flatMap mark

/-- The readings of the clock. -/
def reading : Proc.Asked JobAsk.Answer → Option ℚ
  | ⟨.perfCounter, now⟩ => some now
  | _ => none

def readings (h : JobLog) : List ℚ := h.filterMap reading

/-- The outcome that goes with a result or a failure. -/
def reported : JobAsk → Option JobOutcome
  | .call (.finish _ outcome) | .call (.fail _ _ outcome) => some outcome
  | _ => none

/-- **Stage accounting.**  Every stage is there once, none took less than no time, and together they
took no longer than the attempt. -/
def Accounted (outcome : JobOutcome) : Prop :=
  ∃ (seconds : List (String × ℚ)) (processing : ℚ),
    outcome.stageSeconds = seconds.map (fun entry => (entry.1, .finite entry.2)) ∧
    outcome.processingS = .finite processing ∧ (seconds.map Prod.fst).Nodup ∧
    (∀ entry ∈ seconds, 0 ≤ entry.2) ∧ sumShares seconds ≤ processing

section Sound

variable (w : JobWorker) (S : PyExc → Prop) {P : Pydantic} (job : Job P)

/-- `_check_alignment_floor` and `_check_interpolated_share` raise nothing. -/
structure Passes (result : TranscriptionResult PyFloat) : Prop where
  floor : checkAlignmentFloor w result = none
  share : result.alignment = some .forced → 0 < interpolatedWords (resultWords result) →
    checkInterpolatedShare w result = none

/-- What a task tells the store about its end. -/
def Sound : JobAsk → Prop
  | .call (.finish result outcome) =>
    Passes w result ∧ outcome.alignment = result.alignment.map Alignment.value
  | .call (.fail error kind outcome) =>
    ∃ e, Known w S e ∧ e.isInstance "JobCancelledError" = false ∧ e.isTaskCancelled = false ∧
      error = e.publicError ∧ kind = e.failureKind ∧ outcome.errorClass = some e.name
  | .call .releaseForRetry => ∃ e, Known w S e ∧ retries w job e = true
  | _ => True

end Sound

end Vemsa.Jobs
