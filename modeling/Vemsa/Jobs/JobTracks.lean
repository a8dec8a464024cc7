import Vemsa.Jobs.AudioFiles
import Vemsa.Jobs.JobRuns

/-!
# Jobs — JobTracks

The task of `Queue` is `_process_job`.  `Tracks log t` says that a task, from its claim, took the steps
of `Task.next` that the operations of the log stand for, and is `t` now: every store call of the log is
the call of the task's step, with the same arguments, and every other step is silent.

`processJob_tracks`: in every run in which the store answers, an interruption of the task apart, the
task of `Queue` goes along to its end, and it is a task that deletes the audio exactly if the run does.
-/

namespace Vemsa.Jobs
open Vemsa.Support Vemsa.Pipeline

variable {P : Pydantic}

/-! ### Steps of a task -/

/-- The store call an operation stands for. -/
inductive Sends (worker : WorkerId) (job : Job P) : JobEffect → Call P → Prop where
  | renewLease (leaseForS now now' : Time) :
      Sends worker job .renewLease (.renewLease job.id worker leaseForS now now')
  | setAudioPath (path : Path) (now : Time) :
      Sends worker job (.setAudioPath path) (.setAudioPath job.id path now)
  | setStage (connection : Connection) (stage : JobStage) (now : Time) :
      Sends worker job (.setStage connection stage) (.setStage job.id stage worker now)
  | finish (result : TranscriptionResult PyFloat) (outcome : JobOutcome) (stamp : EventStamp) (now : Time) :
      Sends worker job (.finish result outcome)
        (.finish job.id result worker job.webhookUrl (some outcome) stamp now)
  | releaseForRetry (now retryAfterS : Time) :
      Sends worker job .releaseForRetry (.releaseForRetry job.id worker now retryAfterS)
  | fail (error : String) (kind : FailureKind) (outcome : JobOutcome) (stamp : EventStamp) (now : Time) :
      Sends worker job (.fail error kind outcome)
        (.fail job.id error kind worker job.webhookUrl (some outcome) stamp now)

/-- What the store said. -/
def JobEffect.hit : ∀ c : JobEffect, c.Result → Bool
  | renewLease, b | setStage .., b | finish .., b | releaseForRetry, b | fail .., b => b
  | _, _ => false

/-- An operation that is no step of the task: it failed, or it asks neither the store nor the network. -/
def Idle : Proc.Asked JobAsk.Answer → Prop
  | ⟨.call (.probeAudioSeconds _), _⟩ | ⟨.call (.unlink _), _⟩ => True
  | ⟨.call _, .ok _⟩ => False
  | _ => True

section Tracks

variable (st : Settings) (worker : WorkerId) (job : Job P)

inductive Tracks : JobLog → Task P → Prop where
  | start : Tracks [] (job.begin worker)
  | idle {h : JobLog} {t : Task P} (x : Proc.Asked JobAsk.Answer) (ht : Tracks h t) (hx : Idle x) :
      Tracks (h ++ [x]) t
  | silent {h : JobLog} {t t' : Task P} (act : Act) (ht : Tracks h t) (hcall : t.call act = none)
      (hnext : ∀ tables, t.next st tables false act = some t') : Tracks h t'
  | sent {h : JobLog} {t t' : Task P} {c : JobEffect} {v : c.Result} (act : Act) (call : Call P)
      (ht : Tracks h t) (hcall : t.call act = some call) (hsends : Sends worker job c call)
      (hnext : ∀ tables, t.next st tables (c.hit v) act = some t') :
      Tracks (h ++ [⟨.call c, .ok v⟩]) t'
  | fetched {h : JobLog} {t t' : Task P} {url : String} {path : Path} (ht : Tracks h t)
      (hnext : ∀ tables mtime, t.next st tables false (.fetched path mtime) = some t') :
      Tracks (h ++ [⟨.call (.fetchUrl url), .ok path⟩]) t'
  | asked {h : JobLog} {t t' : Task P} {connection : Connection} {status : Option JobStatus}
      (ht : Tracks h t)
      (hnext : ∀ tables, isCancelled P job.id tables = decide (status = some .cancelled) →
        t.next st tables false .ask = some t') :
      Tracks (h ++ [⟨.call (.get connection), .ok status⟩]) t'

end Tracks

/-! ### What is answered -/

/-- None of the two exceptions that only `_process_job` raises. -/
structure PyExc.Other (e : PyExc) : Prop where
  not_cancelled : e.isInstance "JobCancelledError" = false
  not_lost : e.isInstance "JobLeaseLostError" = false

/-- The task is interrupted where it waits. -/
structure PyExc.Interrupts (e : PyExc) : Prop extends e.Other where
  interrupts : e.isTaskCancelled = true

/-- An engine passes on what a report raises. -/
def Plain : EngineRun → Prop
  | .pure _ => True
  | .raise e => e.Other
  | .ask _ k => Plain (k (.ok ())) ∧ ∀ e, k (.error e) = .raise e

/-- The store answers.  It may refuse a result it cannot hold; fetching, decoding and the engine may
fail in any way; and the task may be interrupted wherever it waits. -/
def Answers : ∀ o : JobAsk, o.Answer → Prop
  | .call _, .ok _ => True
  | .call (.setStage .control _), .error _ | .call (.get .control), .error _ => False
  | .call (.fetchUrl _), .error e | .call (.probeAudioSeconds _), .error e => e.Other
  | .call (.finish ..), .error e => e.Interrupts ∨ e.Other ∧ e.isOutOfMemory = false
  | .call (.unlink _), _ => True
  | .call _, .error e => e.Interrupts
  | .engine _, run => Plain run
  | _, _ => True

/-! ### The program, step by step -/

section Invariant

variable (w : JobWorker) (job : Job P)

/-- The task is here, and does not delete the audio. -/
structure At (pc : TaskPc) (l : Locals) (h : JobLog) : Prop where
  tracks : Tracks w.toSettings w.workerId job h ⟨w.workerId, job, l.audioPath, pc⟩
  keeps : l.deleteAudio = false

/-- Where an exception finds the task. -/
inductive Matches (e : PyExc) : TaskPc → Prop where
  | cancelled (h : e.isInstance "JobCancelledError" = true) : Matches e (.leaving true)
  | lost (h : e.isInstance "JobCancelledError" = false) (hlost : e.isInstance "JobLeaseLostError" = true) :
      Matches e (.leaving false)
  | interrupted {pc : TaskPc} (h : e.Interrupts) (hpc : ∀ deletes, pc ≠ .leaving deletes) : Matches e pc
  | fetching (h : e.Other) : Matches e .fetching
  | working (h : e.Other) : Matches e .working
  | refused {result : TranscriptionResult PyFloat} (h : e.Other) (hmemory : e.isOutOfMemory = false) :
      Matches e (.finishing result)

/-- What is raised in the body of the `try`. -/
def RaisedAt (e : PyExc × Locals) (h : JobLog) : Prop :=
  ∃ pc, Matches e.1 pc ∧ At w job pc e.2 h

/-- The task is over. -/
def IsOver (l : Locals) (h : JobLog) : Prop :=
  Tracks w.toSettings w.workerId job h ⟨w.workerId, job, l.audioPath, .leaving l.deleteAudio⟩

end Invariant

section Pieces

variable {w : JobWorker} {job : Job P} {pc pc' : TaskPc} {l : Locals} {h : JobLog}
  {E : PyExc × Locals → JobLog → Prop}

theorem At.idle (ha : At w job pc l h) (x : Proc.Asked JobAsk.Answer) (hx : Idle x) :
    At w job pc l (h ++ [x]) :=
  ⟨.idle x ha.tracks hx, ha.keeps⟩

theorem At.congr {l' : Locals} (ha : At w job pc l h) (haudio : l'.audioPath = l.audioPath)
    (hdelete : l'.deleteAudio = l.deleteAudio) : At w job pc l' h :=
  ⟨haudio ▸ ha.tracks, hdelete.trans ha.keeps⟩

/-- A step that asks nothing. -/
theorem At.silent (ha : At w job pc l h) (act : Act)
    (hcall : Task.call ⟨w.workerId, job, l.audioPath, pc⟩ act = none)
    (hnext : ∀ tables, Task.next w.toSettings ⟨w.workerId, job, l.audioPath, pc⟩ tables false act =
      some ⟨w.workerId, job, l.audioPath, pc'⟩) : At w job pc' l h :=
  ⟨.silent act ha.tracks hcall hnext, ha.keeps⟩

/-- The task is interrupted. -/
theorem At.interrupt (ha : At w job pc l h) (hpc : ∀ deletes, pc ≠ .leaving deletes) :
    At w job (.leaving false) l h := by
  refine ha.silent .interrupt ?_ fun tables => ?_
  · cases pc <;> rfl
  · cases pc <;> first | rfl | exact absurd rfl (hpc _)

theorem At.over (ha : At w job (.leaving false) l h) : IsOver w job l h := by
  rw [IsOver, ha.keeps]
  exact ha.tracks

/-- **A call of the store**: the answer is a step of the task, or the task is interrupted. -/
theorem attempt_tracks {c : JobEffect} {Q : c.Result → JobLog → Prop}
    (hok : ∀ v, Q v (h ++ [⟨.call c, .ok v⟩]))
    (herror : ∀ e, Answers (.call c) (.error e) → E (e, l) (h ++ [⟨.call c, .error e⟩])) :
    (attempt l c).Traced Answers Q E h := by
  intro r hr
  cases r with
  | ok v => exact hok v
  | error e => exact herror e hr

theorem At.raised (ha : At w job pc l h) {e : PyExc} {c : JobEffect} (hidle : Idle ⟨.call c, .error e⟩)
    (hmatches : Matches e pc) : RaisedAt w job (e, l) (h ++ [⟨.call c, .error e⟩]) :=
  ⟨pc, hmatches, ha.idle _ hidle⟩

theorem other_belowFloor (message : String) : (PyExc.runtime "AlignmentBelowFloorError" message).Other :=
  ⟨rfl, rfl⟩

/-- On the control connection nothing times out. -/
def RaisedOn (w : JobWorker) (job : Job P) (connection : Connection) (e : PyExc × Locals) (h : JobLog) :
    Prop :=
  RaisedAt w job e h ∧ (connection = .control → e.1.isInstance "TimeoutError" = false)

/-- After a refused call the job is asked for. -/
theorem raiseLost_tracks {α : Type} {Q : α → JobLog → Prop} (connection : Connection)
    (ha : At w job .asking l h) :
    (raiseLost l connection).Traced Answers Q (RaisedOn w job connection) h := by
  refine Proc.Traced.bind (Q := fun current => At w job (.leaving (decide (current = some .cancelled))) l)
    (attempt_tracks (fun current => ⟨.asked ha.tracks fun tables hcancelled => ?_, ha.keeps⟩)
      fun e he => ?_) fun current h ha => ?_
  · rw [← hcancelled]
    rfl
  · cases connection with
    | control => exact absurd he id
    | primary => exact ⟨ha.raised trivial (.interrupted he fun _ => nofun), nofun⟩
  · by_cases hcancelled : current = some .cancelled
    · rw [decide_eq_true hcancelled] at ha
      rw [if_pos hcancelled]
      exact ⟨⟨_, .cancelled rfl, ha⟩, fun _ => rfl⟩
    · rw [decide_eq_false hcancelled] at ha
      rw [if_neg hcancelled]
      exact ⟨⟨_, .lost rfl rfl, ha⟩, fun _ => rfl⟩

theorem persistStage_tracks (connection : Connection) (stage : JobStage) (act : Time → Act)
    (hcall : ∀ now, Task.call ⟨w.workerId, job, l.audioPath, pc⟩ (act now) =
      some (.setStage job.id stage w.workerId now))
    (hnext : ∀ now tables hit, Task.next w.toSettings ⟨w.workerId, job, l.audioPath, pc⟩ tables hit
      (act now) = some ⟨w.workerId, job, l.audioPath, if hit then pc' else .asking⟩)
    (ha : At w job pc l h) (hpc : ∀ deletes, pc ≠ .leaving deletes) :
    (persistStage l connection stage).Traced Answers (fun _ => At w job pc' l)
      (RaisedOn w job connection) h := by
  refine Proc.Traced.bind (Q := fun active => At w job (if active then pc' else .asking) l)
    (attempt_tracks (fun active => ⟨?_, ha.keeps⟩) fun e he => ?_) fun active h ha => ?_
  · exact .sent (act 0) _ ha.tracks (hcall 0) (.setStage connection stage 0) fun tables =>
      hnext 0 tables active
  · cases connection with
    | control => exact absurd he id
    | primary => exact ⟨ha.raised trivial (.interrupted he hpc), nofun⟩
  · cases active with
    | true => exact ha
    | false => exact raiseLost_tracks connection ha

theorem closeStage_tracks (ha : At w job pc l h) :
    (closeStage l).Traced Answers (At w job pc) E h :=
  fun now _ => (ha.idle ⟨.perfCounter, now⟩ trivial).congr rfl rfl

theorem beginStage_tracks (stage : JobStage) (ha : At w job pc l h) :
    (beginStage l stage).Traced Answers (At w job pc) E h :=
  fun now _ => (ha.idle ⟨.perfCounter, now⟩ trivial).congr rfl rfl

theorem perfCounter_tracks (ha : At w job pc l h) :
    perfCounter.Traced Answers (fun _ => At w job pc l) E h :=
  fun now _ => ha.idle ⟨.perfCounter, now⟩ trivial

theorem reportStage_tracks (stage : JobStage) (ha : At w job .working l h) :
    (reportStage l stage).Traced Answers (At w job .working) (RaisedAt w job) h := by
  unfold reportStage
  split
  · exact ha
  · refine Proc.Traced.bind (Q := fun _ => At w job .working l) ?_ fun _ h ha =>
      (closeStage_tracks ha).bind fun l h ha => beginStage_tracks stage ha
    · refine (persistStage_tracks .control stage (.reportStage stage) (fun _ => rfl)
        (fun _ _ _ => rfl) ha fun _ => nofun).guard fun e h ⟨hraised, htimeout⟩ => ?_
      show RaisedAt w job (if e.1.isInstance "TimeoutError" = true then .stageTimedOut else e.1, e.2) h
      rw [htimeout rfl]
      exact hraised

/-- The engine in its thread: by induction on what it reports. -/
theorem runEngine_tracks {run : EngineRun} (hplain : Plain run) (ha : At w job .working l h) :
    (runEngine run l).Traced Answers (fun r => At w job .working r.2) (RaisedAt w job) h := by
  induction run generalizing l h with
  | pure result => exact ha
  | raise e => exact ⟨.working, .working hplain, ha⟩
  | ask stage k ih =>
      obtain ⟨hok, herror⟩ := hplain
      refine Proc.Traced.bind (Q := fun r h => (r.1 = .ok () ∧ At w job .working r.2 h) ∨
        ∃ e, r.1 = .error e ∧ RaisedAt w job (e, r.2) h) ?_ fun r h hr => ?_
      · refine Proc.Traced.guard (E := RaisedAt w job) ?_ fun e h hraised => .inr ⟨_, rfl, hraised⟩
        exact (reportStage_tracks stage ha).bind fun l h ha => .inl ⟨rfl, ha⟩
      · obtain ⟨answer, l⟩ := r
        rcases hr with ⟨rfl, ha⟩ | ⟨e, rfl, hraised⟩
        · exact ih (.ok ()) hok ha
        · simp only [herror e]
          exact hraised

theorem belowFloor_tracks (check : Option String) (ha : At w job .working l h) :
    (belowFloor l check).Traced Answers (fun _ => At w job .working l) (RaisedAt w job) h := by
  cases check with
  | none => exact ha
  | some message => exact ⟨.working, .working (other_belowFloor message), ha⟩

theorem checkResult_tracks (result : TranscriptionResult PyFloat) (ha : At w job .working l h) :
    (checkResult w l result).Traced Answers (fun _ => At w job .working l) (RaisedAt w job) h := by
  refine (belowFloor_tracks _ ha).bind fun _ h ha => ?_
  dsimp only
  split
  · exact ha
  · exact fun u _ => belowFloor_tracks _ (ha.idle ⟨.count _, u⟩ trivial)

/-- The step of a task whose lease was renewed. -/
def renewedPc (l : Locals) : TaskPc := if l.audioPath.isNone then .fetching else .working

theorem fetchSource_tracks (ha : At w job (renewedPc l) l h) :
    (fetchSource job l).Traced Answers (fun r => At w job .working r.2) (RaisedAt w job) h := by
  unfold fetchSource
  split
  · rename_i path hpath
    have hworking : renewedPc l = .working := by rw [renewedPc, hpath]; rfl
    exact hworking ▸ ha
  · rename_i hnone
    have hfetching : renewedPc l = .fetching := by rw [renewedPc, hnone]; rfl
    rw [hfetching] at ha
    split
    · exact ⟨.fetching, .fetching ⟨rfl, rfl⟩, ha⟩
    · refine Proc.Traced.bind (Q := fun path => At w job .recording { l with audioPath := some path })
        (attempt_tracks (fun path => ⟨?_, ha.keeps⟩) fun e he => ha.raised trivial (.fetching he))
        fun path h ha => ?_
      · exact .fetched ha.tracks fun _ _ => rfl
      · refine Proc.Traced.bind (Q := fun _ => At w job .working { l with audioPath := some path })
          (attempt_tracks (fun v => ⟨?_, ha.keeps⟩)
            fun e he => ha.raised trivial (.interrupted he fun _ => nofun)) fun _ h ha => ha
        exact .sent (.record 0) _ ha.tracks rfl (.setAudioPath path 0) fun _ => rfl

theorem recordCancelled_tracks (ha : At w job (.leaving true) l h) :
    (recordCancelled l).Traced Answers (IsOver w job) E h := fun u _ now _ v _ =>
  .idle ⟨.wake .webhook, v⟩ (.idle ⟨.perfCounter, now⟩ (.idle ⟨.count _, u⟩ ha.tracks trivial)
    trivial) trivial

theorem notCommitted_tracks (ha : At w job .asking l h)
    (hE : ∀ e, e.Interrupts → E (e, l) (h ++ [⟨.call (.get .primary), .error e⟩])) :
    (notCommitted l).Traced Answers (IsOver w job) E h := by
  refine Proc.Traced.bind (Q := fun current => At w job (.leaving (decide (current = some .cancelled))) l)
    (attempt_tracks (fun current => ⟨.asked ha.tracks fun tables hcancelled => ?_, ha.keeps⟩) hE)
    fun current h ha => ?_
  · rw [← hcancelled]
    rfl
  · by_cases hcancelled : current = some .cancelled
    · rw [decide_eq_true hcancelled] at ha
      rw [if_pos hcancelled]
      exact recordCancelled_tracks ha
    · rw [decide_eq_false hcancelled] at ha
      rw [if_neg hcancelled]
      exact ha.over

/-- A commit, and what is counted and waked for it. -/
theorem committed_tracks (metric : Metric) (ha : At w job (.leaving true) l h) :
    (count metric >>= fun _ => wake .webhook >>= fun _ =>
      Proc.pure { l with deleteAudio := true }).Traced Answers (IsOver w job) E h := fun u _ v _ =>
  .idle ⟨.wake .webhook, v⟩ (.idle ⟨.count _, u⟩ ha.tracks trivial) trivial

theorem finishJob_tracks {started : ℚ} {result : TranscriptionResult PyFloat}
    (ha : At w job .working l h) :
    (finishJob w job started l result).Traced Answers (IsOver w job) (RaisedAt w job) h := by
  have hproduced : At w job (.finalizing result) l h :=
    ha.silent (.produced result) rfl fun _ => rfl
  refine Proc.Traced.bind (Q := fun _ => At w job (.finishing result) l)
    ((persistStage_tracks .primary .finalizing .finalize (fun _ => rfl) (fun _ _ _ => rfl) hproduced
      fun _ => nofun).mono (fun _ _ h => h) fun _ _ h => h.1) fun _ h ha => ?_
  refine (closeStage_tracks ha).bind fun l h ha => (beginStage_tracks .finalizing ha).bind fun l h ha =>
    (perfCounter_tracks ha).bind fun now h ha => ?_
  refine Proc.Traced.bind (Q := fun committed =>
      At w job (if committed then .leaving true else .asking) l) (attempt_tracks (fun committed => ?_)
    fun e he => ?_) fun committed h ha => ?_
  · exact ⟨.sent (.finish _ ⟨"", 0⟩ 0) _ ha.tracks rfl (.finish result _ ⟨"", 0⟩ 0) fun _ => rfl, ha.keeps⟩
  · rcases he with he | ⟨he, hmemory⟩
    · exact ha.raised trivial (.interrupted he fun _ => nofun)
    · exact ha.raised trivial (.refused he hmemory)
  · cases committed with
    | true =>
        intro u _ now _ v _
        exact .idle ⟨.wake .webhook, v⟩ (.idle ⟨.perfCounter, now⟩ (.idle ⟨.count _, u⟩ ha.tracks
          trivial) trivial) trivial
    | false =>
        have hasking : At w job .asking l h := ha
        exact notCommitted_tracks hasking fun e he =>
          hasking.raised trivial (.interrupted he fun _ => nofun)

/-- The body of the `try`. -/
theorem runBody_tracks {started : ℚ} (ha : At w job .renewing l h) :
    (runBody w job started l).Traced Answers (IsOver w job) (RaisedAt w job) h := by
  refine Proc.Traced.bind (Q := fun renewed =>
      At w job (if !renewed then .asking else renewedPc l) l) (attempt_tracks (fun renewed => ?_)
    fun e he => ha.raised trivial (.interrupted he fun _ => nofun)) fun renewed h ha => ?_
  · refine ⟨.sent (.renew 0 0 0) _ ha.tracks rfl (.renewLease 0 0 0) fun _ => ?_, ha.keeps⟩
    cases renewed <;> rfl
  · cases renewed with
    | false => exact (raiseLost_tracks .primary ha).mono (fun _ _ h => h) fun _ _ h => h.1
    | true =>
        refine (fetchSource_tracks ha).bind fun source h ha => ?_
        obtain ⟨audioPath, l⟩ := source
        refine Proc.Traced.bind (Q := fun _ => At w job .working l) (attempt_tracks
          (fun v => ha.idle _ trivial) fun e he => ha.raised trivial (.working he)) fun seconds h ha run hplain => ?_
        have ha' : At w job .working { l with audioSeconds := seconds } (h ++ [⟨.engine _, run⟩]) :=
          (ha.idle ⟨.engine _, run⟩ trivial).congr rfl rfl
        refine (runEngine_tracks hplain ha').bind fun r h ha u _ => ?_
        obtain ⟨result, l⟩ := r
        refine (checkResult_tracks result (ha.idle ⟨.count _, u⟩ trivial)).bind fun _ h ha => ?_
        exact finishJob_tracks ha

/-- What a handler raises interrupts the task. -/
def Escapes (w : JobWorker) (job : Job P) (e : PyExc × Locals) (h : JobLog) : Prop :=
  At w job (.leaving false) e.2 h

theorem At.escapes (ha : At w job pc l h) {e : PyExc} {c : JobEffect} (hidle : Idle ⟨.call c, .error e⟩)
    (hpc : ∀ deletes, pc ≠ .leaving deletes) : Escapes w job (e, l) (h ++ [⟨.call c, .error e⟩]) :=
  (ha.idle _ hidle).interrupt hpc

theorem failJob_tracks {started : ℚ} {e : PyExc} (ha : At w job .failing l h) :
    (failJob w job started e l).Traced Answers (IsOver w job) (Escapes w job) h := by
  refine (closeStage_tracks ha).bind fun l h ha => (perfCounter_tracks ha).bind fun now h ha => ?_
  refine Proc.Traced.bind (Q := fun committed =>
      At w job (if committed then .leaving true else .asking) l) (attempt_tracks (fun committed => ?_)
    fun e he => ha.escapes trivial fun _ => nofun) fun committed h ha => ?_
  · exact ⟨.sent (.fail _ _ _ ⟨"", 0⟩ 0) _ ha.tracks rfl (.fail _ _ _ ⟨"", 0⟩ 0) fun _ => rfl, ha.keeps⟩
  · cases committed with
    | true => exact committed_tracks (.jobsFinished .failed) ha
    | false =>
        have hasking : At w job .asking l h := ha
        exact notCommitted_tracks hasking fun e he => hasking.escapes trivial fun _ => nofun

/-- A failure reaches the task where it is fetching, working, or refused its result. -/
theorem At.fail {e : PyExc} (hmatches : Matches e pc) (hother : e.Other)
    (htask : e.isTaskCancelled = false) (ha : At w job pc l h) :
    At w job (if retries w job e then .releasing else .failing) l h := by
  cases hmatches with
  | cancelled hinstance => exact absurd hinstance (Bool.eq_false_iff.mp hother.not_cancelled)
  | lost _ hlost => exact absurd hlost (Bool.eq_false_iff.mp hother.not_lost)
  | interrupted hinterrupts => exact absurd hinterrupts.interrupts (Bool.eq_false_iff.mp htask)
  | fetching _ | working _ =>
      split
      · rename_i hretries
        simp only [retries, Bool.and_eq_true, decide_eq_true_eq] at hretries
        refine ha.silent (.raised true) rfl fun tables => ?_
        simp [Task.next, hretries.2]
      · exact ha.silent (.raised false) rfl fun _ => rfl
  | refused _ hmemory =>
      have hretries : retries w job e = false := by simp [retries, hmemory]
      rw [hretries]
      exact ha.silent (.raised false) rfl fun _ => rfl

theorem onException_tracks {started : ℚ} {e : PyExc × Locals} (hraised : RaisedAt w job e h) :
    (onException w job started e).Traced Answers (IsOver w job) (Escapes w job) h := by
  obtain ⟨e, l⟩ := e
  obtain ⟨pc, hmatches, ha⟩ := hraised
  rw [onException]
  split
  · rename_i hcancelled
    cases hmatches with
    | cancelled _ => exact recordCancelled_tracks ha
    | lost hnot _ => exact absurd hcancelled (Bool.eq_false_iff.mp hnot)
    | interrupted hother | fetching hother | working hother | refused hother =>
        exact absurd hcancelled (Bool.eq_false_iff.mp hother.not_cancelled)
  · rename_i hcancelled
    split
    · rename_i hlost
      cases hmatches with
      | cancelled h => exact absurd h hcancelled
      | lost _ _ => exact ha.over
      | interrupted hother | fetching hother | working hother | refused hother =>
          exact absurd hlost (Bool.eq_false_iff.mp hother.not_lost)
    · rename_i hlost
      have hother : e.Other :=
        ⟨Bool.eq_false_of_not_eq_true hcancelled, Bool.eq_false_of_not_eq_true hlost⟩
      split
      · rename_i hexception
        rw [Bool.and_eq_true, Bool.not_eq_true'] at hexception
        have hfails := ha.fail hmatches hother hexception.1
        unfold onFailure
        split
        · rename_i hretries
          rw [if_pos hretries] at hfails
          refine Proc.Traced.bind (Q := fun released =>
              At w job (if released then .leaving false else .failing) l) (attempt_tracks
            (fun released => ?_) fun e he => hfails.escapes trivial (by simp)) fun released h ha => ?_
          · exact ⟨.sent (.release 0 0) _ hfails.tracks rfl (.releaseForRetry 0 0) fun _ => rfl,
              hfails.keeps⟩
          · cases released with
            | true =>
                intro u _
                have ha' : At w job (.leaving false) l (h ++ [⟨.count .jobRetries, u⟩]) :=
                  At.idle ha ⟨.count .jobRetries, u⟩ trivial
                dsimp only
                split
                · exact fun v _ => (ha'.idle ⟨.wake .worker, v⟩ trivial).over
                · exact ha'.over
            | false => exact failJob_tracks ha
        · rename_i hretries
          rw [if_neg hretries] at hfails
          exact failJob_tracks hfails
      · exact ha.interrupt fun deletes hpc => by
          subst hpc
          cases hmatches with
          | cancelled h => exact hcancelled h
          | lost _ h => exact hlost h
          | interrupted _ hpc => exact hpc _ rfl

end Pieces

/-! ### Every run -/

/-- The task went along to its end, and then the audio was unlinked if the task deletes it. -/
def Tracked (w : JobWorker) (job : Job P) (log : JobLog) : Prop :=
  ∃ (before cleanup : JobLog) (audioPath : Option Path) (deletes : Bool), log = before ++ cleanup ∧
    Tracks w.toSettings w.workerId job before ⟨w.workerId, job, audioPath, .leaving deletes⟩ ∧
    cleanup.map Sigma.fst =
      if deletes then audioPath.toList.map fun path => .call (.unlink path) else []

section Every

variable {w : JobWorker} {job : Job P} {l : Locals} {h log : JobLog} {out : Except (PyExc × Locals) Unit}

theorem cleanUp_tracks (hover : IsOver w job l h) :
    (cleanUp l).Traced Answers (fun _ => Tracked w job) (fun _ => Tracked w job) h := by
  unfold cleanUp
  split
  · rename_i path hpath
    split
    · rename_i hdeletes
      have htracked (answer : Except PyExc Unit) : Tracked w job (h ++ [⟨.call (.unlink path), answer⟩]) :=
        ⟨h, _, _, _, rfl, hover, by rw [hdeletes, hpath]; rfl⟩
      exact attempt_tracks (fun _ => htracked _) fun _ _ => htracked _
    · rename_i hkeeps
      exact ⟨h, [], _, _, (List.append_nil h).symm, hover, (if_neg hkeeps).symm⟩
  · rename_i hnone
    refine ⟨h, [], _, _, (List.append_nil h).symm, hover, ?_⟩
    rw [hnone]
    exact (ite_self []).symm

theorem processJob_traced_tracks (hpath : job.audioPath ≠ some "") :
    (processJob w job).Traced Answers (fun _ => Tracked w job) (fun _ => Tracked w job) [] := by
  intro started _ stageStarted _
  have haudio : (startLocals job stageStarted).audioPath = job.audioPath := by
    cases hjob : job.audioPath with
    | none => simp [startLocals, hjob]
    | some path =>
        have hne : path ≠ "" := fun heq => hpath (heq ▸ hjob)
        simp [startLocals, hjob, Option.filter, hne]
  have hstart : At w job .renewing (startLocals job stageStarted)
      [⟨.perfCounter, started⟩, ⟨.perfCounter, stageStarted⟩] := by
    refine ⟨?_, rfl⟩
    rw [haudio]
    exact .idle ⟨.perfCounter, stageStarted⟩ (.idle ⟨.perfCounter, started⟩ .start trivial) trivial
  refine Proc.Traced.bind (Q := IsOver w job) ?_ fun l h hover => cleanUp_tracks hover
  refine Proc.Traced.guard (E := Escapes w job) ?_ fun e h hescapes => ?_
  · exact (runBody_tracks hstart).guard fun e h hraised => onException_tracks hraised
  · exact (cleanUp_tracks (At.over hescapes)).bind fun _ _ htracked => htracked

/-- **The task of `Queue` is `_process_job`.**  Let the store answer, whatever it answers, but for a
result it refuses to hold; let fetching, decoding and the engine return or fail in any way; and let the
task be interrupted anywhere it waits.  Then `Task.next` goes along: every call the run makes is the call
of the task's step, with the same arguments, up to a task that leaves; and the run unlinks the audio
exactly if that task does. -/
theorem processJob_tracks (hran : (processJob w job).Ran log out) (hpath : job.audioPath ≠ some "")
    (hanswers : ∀ x ∈ log, Answers x.1 x.2) : Tracked w job log := by
  have hpost := (processJob_traced_tracks hpath).ran hran hanswers
  cases out with
  | ok u => exact hpost
  | error e => exact hpost

theorem plainAnswers_answers (i : ℕ) (o : JobAsk) : Answers o (plainAnswers i o) := by
  cases o with
  | call c => cases c <;> trivial
  | engine call => exact ⟨trivial, fun e => rfl⟩
  | perfCounter | count metric | wake wakeup => trivial

theorem processJob_tracks_plain : Tracked plainWorker uploadedJob plainRun.1 :=
  processJob_tracks (Proc.ran_exec plainAnswers 0 (processJob plainWorker uploadedJob)) (by decide)
    (Proc.exec_given plainAnswers_answers 0 _)

end Every

end Vemsa.Jobs
