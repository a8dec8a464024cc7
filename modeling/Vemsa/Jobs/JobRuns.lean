import Vemsa.Jobs.ProcessJob

/-!
# Jobs — JobRuns

What a run of `_process_job` leaves behind, however it is answered.

* `processJob_leaves`: the run ends in one of five ways (`Ending`).  What the store committed is
  counted as finished, nothing else is, and then the audio is unlinked, and only then.
* `processJob_reports`: a result is handed to the store only if both checks let it pass; a failure is
  told with a kind, a class and a message of one exception; and the seconds of the stages add up to no
  more than the attempt took.

One invariant carries everything (`JobStanding`), with the stages of a task that is still at work
(`Timed`).
-/

namespace Vemsa.Jobs
open Vemsa.Support Vemsa.Pipeline

/-! ### Clock -/

/-- The clock never went back. -/
def Steady (h : JobLog) : Prop := (readings h).Pairwise (· ≤ ·)

section Clock

variable {h more : JobLog} {x : Proc.Asked JobAsk.Answer} {now earlier : ℚ}

theorem readings_append : readings (h ++ more) = readings h ++ readings more := List.filterMap_append

theorem Steady.left (hs : Steady (h ++ more)) : Steady h := by
  rw [Steady, readings_append] at hs
  exact (List.pairwise_append.mp hs).1

/-- A reading is not before an earlier one. -/
theorem Steady.le (hs : Steady (h ++ [⟨.perfCounter, now⟩])) (hmem : earlier ∈ readings h) : earlier ≤ now := by
  rw [Steady, readings_append] at hs
  exact (List.pairwise_append.mp hs).2.2 earlier hmem now List.mem_cons_self

theorem mem_readings_append (hmem : earlier ∈ readings h) : earlier ∈ readings (h ++ more) := by
  rw [readings_append]
  exact List.mem_append_left _ hmem

theorem mem_readings_now : now ∈ readings (h ++ [⟨.perfCounter, now⟩]) := by
  rw [readings_append]
  exact List.mem_append_right _ List.mem_cons_self

end Clock

/-! ### The invariant -/

/-- It leaves no mark, and tells nothing. -/
def JobAsk.isQuiet : JobAsk → Bool
  | call (.fetchUrl _) | call (.finish ..) | call .releaseForRetry | call (.fail ..)
  | call (.unlink _) | count (.jobsFinished _) => false
  | _ => true

section Invariant

variable (started : ℚ)

/-- The stages up to the one at work: they are over by the time it began. -/
structure Timed (l : Locals) (h : JobLog) : Prop where
  nodup : (l.stageSeconds.map Prod.fst).Nodup
  stageStarted_mem : l.stageStarted ∈ readings h
  nonneg : Steady h → ∀ entry ∈ l.stageSeconds, 0 ≤ entry.2
  sum_le : Steady h → sumShares l.stageSeconds ≤ l.stageStarted - started

/-- All stages, the last one included. -/
structure Closed (l : Locals) (h : JobLog) : Prop where
  nodup : (l.stageSeconds.map Prod.fst).Nodup
  nonneg : Steady h → ∀ entry ∈ l.stageSeconds, 0 ≤ entry.2
  sum_le : Steady h → ∃ now ∈ readings h, sumShares l.stageSeconds ≤ now - started

variable (w : JobWorker) (S : PyExc → Prop) {P : Pydantic} (job : Job P)

/-- Where a task stands: what it fetched, what it left behind since, and whether it deletes the audio;
and all it told the store is sound. -/
structure JobStanding (fetch : Option Path) (since : List Mark) (deletes : Bool) (l : Locals) (h : JobLog) :
    Prop where
  marks_eq : marks h = fetch.toList.map .fetched ++ since
  audioPath_eq : l.audioPath = (startLocals job 0).audioPath.or fetch
  fetch_eq : fetch.isSome → (startLocals job 0).audioPath = none
  deletes_eq : l.deleteAudio = deletes
  sound : ∀ x ∈ h, Sound w S job x.1
  accounted : Steady h → ∀ x ∈ h, ∀ outcome ∈ reported x.1, Accounted outcome

/-- The task is at work. -/
structure Going (fetch : Option Path) (l : Locals) (h : JobLog) : Prop where
  standing : JobStanding w S job fetch [] false l h
  timed : Timed started l h

/-- What is raised, with the task still at work. -/
def Raised (fetch : Option Path) (e : PyExc × Locals) (h : JobLog) : Prop :=
  Known w S e.1 ∧ Going started w S job fetch e.2 h

end Invariant

/-! ### Steps -/

section Steps

variable {started : ℚ} {w : JobWorker} {S : PyExc → Prop} {P : Pydantic} {job : Job P}
  {fetch : Option Path} {since : List Mark} {deletes : Bool} {l : Locals} {h : JobLog}
  {x : Proc.Asked JobAsk.Answer}

theorem marks_append (h more : JobLog) : marks (h ++ more) = marks h ++ marks more :=
  List.flatMap_append

/-- One more operation. -/
theorem JobStanding.snoc (hs : JobStanding w S job fetch since deletes l h) (hsound : Sound w S job x.1)
    (haccounted : Steady (h ++ [x]) → ∀ outcome ∈ reported x.1, Accounted outcome) :
    JobStanding w S job fetch (since ++ mark x) deletes l (h ++ [x]) where
  marks_eq := by
    rw [marks_append, hs.marks_eq, List.append_assoc]
    exact congrArg _ (congrArg _ (List.append_nil _))
  audioPath_eq := hs.audioPath_eq
  fetch_eq := hs.fetch_eq
  deletes_eq := hs.deletes_eq
  sound := List.forall_mem_append.mpr ⟨hs.sound, List.forall_mem_singleton.mpr hsound⟩
  accounted := fun hsteady => List.forall_mem_append.mpr
    ⟨hs.accounted hsteady.left, List.forall_mem_singleton.mpr (haccounted hsteady)⟩

/-- One more operation that reports no outcome. -/
theorem JobStanding.mark (hs : JobStanding w S job fetch since deletes l h)
    (x : Proc.Asked JobAsk.Answer) (hsound : Sound w S job x.1) (hreported : reported x.1 = none) :
    JobStanding w S job fetch (since ++ mark x) deletes l (h ++ [x]) :=
  hs.snoc hsound fun _ _ hmem => by simp [hreported] at hmem

theorem mark_quiet (hx : x.1.isQuiet = true) : mark x = [] := by
  rcases x with ⟨_ | _ | _ | metric | _, r⟩
  · rename_i c
    cases c <;> first | rfl | cases hx
  · rfl
  · rfl
  · cases metric <;> first | rfl | cases hx
  · rfl

theorem JobStanding.quiet (hs : JobStanding w S job fetch since deletes l h)
    (x : Proc.Asked JobAsk.Answer) (hx : x.1.isQuiet = true) :
    JobStanding w S job fetch since deletes l (h ++ [x]) := by
  have hsound : Sound w S job x.1 ∧ reported x.1 = none := by
    rcases x with ⟨_ | _ | _ | _ | _, r⟩
    · rename_i c
      cases c <;> first | exact ⟨trivial, rfl⟩ | cases hx
    all_goals exact ⟨trivial, rfl⟩
  have hmarked := hs.mark x hsound.1 hsound.2
  rwa [mark_quiet hx, List.append_nil] at hmarked

/-- Where a task stands depends on two of its locals. -/
theorem JobStanding.congr {l' : Locals} (hs : JobStanding w S job fetch since deletes l h)
    (haudio : l'.audioPath = l.audioPath) (hdelete : l'.deleteAudio = l.deleteAudio) :
    JobStanding w S job fetch since deletes l' h :=
  { hs with
    audioPath_eq := haudio.trans hs.audioPath_eq
    deletes_eq := hdelete.trans hs.deletes_eq }

theorem Timed.append (ht : Timed started l h) (more : JobLog) : Timed started l (h ++ more) where
  nodup := ht.nodup
  stageStarted_mem := mem_readings_append ht.stageStarted_mem
  nonneg hs := ht.nonneg hs.left
  sum_le hs := ht.sum_le hs.left

theorem Timed.congr {l' : Locals} (ht : Timed started l h) (hstarted : l'.stageStarted = l.stageStarted)
    (hseconds : l'.stageSeconds = l.stageSeconds) : Timed started l' h where
  nodup := hseconds ▸ ht.nodup
  stageStarted_mem := hstarted ▸ ht.stageStarted_mem
  nonneg := hseconds ▸ ht.nonneg
  sum_le := hseconds ▸ hstarted ▸ ht.sum_le

theorem Going.quiet (hg : Going started w S job fetch l h) (x : Proc.Asked JobAsk.Answer)
    (hx : x.1.isQuiet = true) : Going started w S job fetch l (h ++ [x]) :=
  ⟨hg.standing.quiet x hx, hg.timed.append [x]⟩

/-- The stage at work is over. -/
theorem Timed.close (ht : Timed started l h) (now : ℚ) :
    Closed started
      { l with stageSeconds := tally l.currentStage.value (now - l.stageStarted) l.stageSeconds }
      (h ++ [⟨.perfCounter, now⟩]) where
  nodup := nodup_tally ht.nodup
  nonneg hs := nonneg_tally (sub_nonneg.mpr (hs.le ht.stageStarted_mem)) (ht.nonneg hs.left)
  sum_le hs := by
    refine ⟨now, mem_readings_now, ?_⟩
    have hsum := ht.sum_le hs.left
    rw [sumShares_tally]
    linarith

/-- The next stage begins. -/
theorem Closed.begin (hc : Closed started l h) (stage : JobStage) (now : ℚ) :
    Timed started { l with currentStage := stage, stageStarted := now }
      (h ++ [⟨.perfCounter, now⟩]) where
  nodup := hc.nodup
  stageStarted_mem := mem_readings_now
  nonneg hs := hc.nonneg hs.left
  sum_le hs := by
    obtain ⟨earlier, hmem, hsum⟩ := hc.sum_le hs.left
    have hle := hs.le hmem
    linarith

/-- The outcome is fair: the clock is read once more for it. -/
theorem Closed.accounted (hc : Closed started l h) {outcome : JobOutcome} {now : ℚ}
    (hstage : outcome.stageSeconds = l.stageSeconds.map fun entry => (entry.1, .finite entry.2))
    (hprocessing : outcome.processingS = .finite (now - started))
    (hs : Steady (h ++ [⟨.perfCounter, now⟩])) : Accounted outcome := by
  obtain ⟨earlier, hmem, hsum⟩ := hc.sum_le hs.left
  have hle := hs.le hmem
  exact ⟨l.stageSeconds, now - started, hstage, hprocessing, hc.nodup, hc.nonneg hs.left, by linarith⟩

theorem Timed.accounted (ht : Timed started l h) {outcome : JobOutcome} {now : ℚ}
    (hstage : outcome.stageSeconds = l.stageSeconds.map fun entry => (entry.1, .finite entry.2))
    (hprocessing : outcome.processingS = .finite (now - started))
    (hs : Steady (h ++ [⟨.perfCounter, now⟩])) : Accounted outcome :=
  (Closed.mk ht.nodup ht.nonneg fun hs => ⟨_, ht.stageStarted_mem, ht.sum_le hs⟩ :
    Closed started l h).accounted hstage hprocessing hs

end Steps

/-! ### The program, piece by piece -/

section Pieces

variable {started : ℚ} {w : JobWorker} {S : PyExc → Prop} {P : Pydantic} {job : Job P}
  {fetch : Option Path} {l : Locals} {h : JobLog}
  {E : PyExc × Locals → JobLog → Prop}

theorem attempt_traced {c : JobEffect} {Q : c.Result → JobLog → Prop}
    (hok : ∀ v, Q v (h ++ [⟨.call c, .ok v⟩]))
    (herror : ∀ e, S e → E (e, l) (h ++ [⟨.call c, .error e⟩])) :
    (attempt l c).Traced (Raising S) Q E h := by
  intro r hr
  cases r with
  | ok v => exact hok v
  | error e => exact herror e hr

/-- A call that leaves no mark. -/
theorem attempt_quiet (c : JobEffect) (hc : (JobAsk.call c).isQuiet = true)
    (hg : Going started w S job fetch l h) :
    (attempt l c).Traced (Raising S) (fun _ => Going started w S job fetch l)
      (Raised started w S job fetch) h :=
  attempt_traced (fun _ => hg.quiet _ hc) fun _ he => ⟨.raised he, hg.quiet _ hc⟩

theorem raiseLost_traced {α : Type} {Q : α → JobLog → Prop} (connection : Connection)
    (hg : Going started w S job fetch l h) :
    (raiseLost l connection).Traced (Raising S) Q (Raised started w S job fetch) h := by
  refine (attempt_quiet (.get connection) rfl hg).bind fun current h hg => ?_
  refine ⟨?_, hg⟩
  dsimp only
  split
  · exact .jobCancelled
  · exact .leaseLost

theorem persistStage_traced (connection : Connection) (stage : JobStage)
    (hg : Going started w S job fetch l h) :
    (persistStage l connection stage).Traced (Raising S) (fun _ => Going started w S job fetch l)
      (Raised started w S job fetch) h := by
  refine (attempt_quiet (.setStage connection stage) rfl hg).bind fun active h hg => ?_
  cases active with
  | true => exact hg
  | false => exact raiseLost_traced connection hg

theorem closeStage_traced (hg : Going started w S job fetch l h) :
    (closeStage l).Traced (Raising S)
      (fun l' h' => JobStanding w S job fetch [] false l' h' ∧ Closed started l' h') E h :=
  fun now _ => ⟨(hg.standing.quiet ⟨.perfCounter, now⟩ rfl).congr rfl rfl, hg.timed.close now⟩

theorem beginStage_traced (stage : JobStage) (hs : JobStanding w S job fetch [] false l h)
    (hc : Closed started l h) :
    (beginStage l stage).Traced (Raising S) (Going started w S job fetch) E h :=
  fun now _ => ⟨(hs.quiet ⟨.perfCounter, now⟩ rfl).congr rfl rfl, hc.begin stage now⟩

theorem nextStage_traced (stage : JobStage) (hg : Going started w S job fetch l h) :
    (closeStage l >>= fun l => beginStage l stage).Traced (Raising S)
      (Going started w S job fetch) E h :=
  (closeStage_traced hg).bind fun _ _ ⟨hs, hc⟩ => beginStage_traced stage hs hc

theorem reportStage_traced (stage : JobStage) (hg : Going started w S job fetch l h) :
    (reportStage l stage).Traced (Raising S) (Going started w S job fetch)
      (Raised started w S job fetch) h := by
  unfold reportStage
  split
  · exact hg
  · refine Proc.Traced.bind (Q := fun _ => Going started w S job fetch l) ?_ fun _ _ hg =>
      nextStage_traced stage hg
    refine (persistStage_traced .control stage hg).guard fun e h ⟨he, hg⟩ => ⟨?_, hg⟩
    dsimp only
    split
    · exact .stageTimedOut
    · exact he

/-- The engine, whatever it does in its thread: by induction on what it reports. -/
theorem runEngine_traced {S' : PyExc → Prop} (hS : ∀ e, S' e → Known w S e) {run : EngineRun}
    (hrun : EngineRaises S' run) (hg : Going started w S job fetch l h) :
    (runEngine run l).Traced (Raising S) (fun r => Going started w S job fetch r.2)
      (Raised started w S job fetch) h := by
  induction run generalizing l h S' with
  | pure result => exact hg
  | raise e => exact ⟨hS e hrun, hg⟩
  | ask stage k ih =>
      refine Proc.Traced.bind (Q := fun r h => Going started w S job fetch r.2 h ∧
        ∀ e, r.1 = .error e → Known w S e) ?_ fun r h ⟨hg, hknown⟩ => ?_
      · -- what the report raises is an answer
        refine Proc.Traced.guard (E := Raised started w S job fetch) ?_ fun e h ⟨he, hg⟩ => ?_
        · exact (reportStage_traced stage hg).bind fun l h hg => ⟨hg, nofun⟩
        · exact ⟨hg, fun e' heq => Except.error.inj heq ▸ he⟩
      · obtain ⟨answer, l⟩ := r
        cases answer with
        | ok u => exact ih (.ok u) hS hrun.1 hg
        | error e =>
            refine ih (.error e) (fun e' he' => ?_) (hrun.2 e) hg
            rcases he' with he' | rfl
            · exact hS e' he'
            · exact hknown _ rfl

theorem belowFloor_traced {check : Option String}
    (hknown : ∀ message, check = some message → Known w S (.runtime "AlignmentBelowFloorError" message))
    (hg : Going started w S job fetch l h) :
    (belowFloor l check).Traced (Raising S) (fun _ h => Going started w S job fetch l h ∧ check = none)
      (Raised started w S job fetch) h := by
  cases check with
  | none => exact ⟨hg, rfl⟩
  | some message => exact ⟨hknown message rfl, hg⟩

theorem checkResult_traced (result : TranscriptionResult PyFloat)
    (hg : Going started w S job fetch l h) :
    (checkResult w l result).Traced (Raising S)
      (fun _ h => Going started w S job fetch l h ∧ Passes w result)
      (Raised started w S job fetch) h := by
  refine (belowFloor_traced (fun _ h => .floor h) hg).bind fun _ h ⟨hg, hfloor⟩ => ?_
  dsimp only
  split
  · rename_i hskip
    rw [Bool.or_eq_true, decide_eq_true_eq, decide_eq_true_eq] at hskip
    refine ⟨hg, hfloor, fun hforced hpos => ?_⟩
    exact absurd hskip (not_or.mpr ⟨not_not.mpr hforced, hpos.ne'⟩)
  · intro u _
    refine (belowFloor_traced (fun _ h => .share h) (hg.quiet ⟨.count _, u⟩ rfl)).mono
      (fun _ _ ⟨hg, hshare⟩ => ⟨hg, hfloor, fun _ _ => hshare⟩) fun _ _ => id

theorem fetchSource_traced (hg : Going started w S job none l h) :
    (fetchSource job l).Traced (Raising S) (fun r h => ∃ fetch, Going started w S job fetch r.2 h)
      (fun e h => ∃ fetch, Raised started w S job fetch e h) h := by
  unfold fetchSource
  split
  · exact ⟨none, hg⟩
  · rename_i hnone
    have hsource : (startLocals job 0).audioPath = none := by
      have haudio := hg.standing.audioPath_eq
      rw [hnone, Option.or_none] at haudio
      exact haudio.symm
    split
    · exact ⟨none, .assertion, hg⟩
    · rename_i url _
      refine Proc.Traced.bind (Q := fun path h =>
        Going started w S job (some path) { l with audioPath := some path } h) ?_ fun path h hg => ?_
      · have hsnoc (answer : Except PyExc Path) :=
          hg.standing.mark ⟨.call (.fetchUrl (P.urlText url)), answer⟩ trivial rfl
        refine attempt_traced (fun path => ?_) fun e he => ?_
        · refine ⟨?_, (hg.timed.append _).congr rfl rfl⟩
          exact { hsnoc (.ok path) with
            audioPath_eq := by rw [hsource]; rfl
            fetch_eq := fun _ => hsource }
        · exact ⟨none, .raised he, hsnoc (.error e), hg.timed.append _⟩
      · refine Proc.Traced.bind (Q := fun _ => Going started w S job (some path) { l with audioPath := some path })
          ((attempt_quiet (.setAudioPath path) rfl hg).mono (fun _ _ h => h) fun _ _ h => ⟨some path, h⟩)
          fun _ _ hg => ⟨some path, hg⟩

end Pieces

/-! ### How a run ends -/

/-- The five ways a task ends. -/
inductive Ending where
  | completed | failed | cancelled
  /-- handed back for a retry -/
  | released
  /-- the lease was lost, the task was interrupted, or a call of the store raised -/
  | left

/-- What is left behind: a commit comes with its count. -/
def Ending.marks : Ending → List Mark
  | completed => [.committed .completed, .finished .completed]
  | failed => [.committed .failed, .finished .failed]
  | cancelled => [.finished .cancelled]
  | released => [.released]
  | left => []

/-- Whether the audio goes. -/
def Ending.deletes : Ending → Bool
  | completed | failed | cancelled => true
  | released | left => false

section Ends

variable (w : JobWorker) (S : PyExc → Prop) {P : Pydantic} (job : Job P)

/-- A task that came to an end. -/
def Ended (fetch : Option Path) (l : Locals) (h : JobLog) : Prop :=
  ∃ ending : Ending, JobStanding w S job fetch ending.marks ending.deletes l h

/-- A task that nothing was committed for. -/
abbrev Open (fetch : Option Path) (l : Locals) (h : JobLog) : Prop :=
  JobStanding w S job fetch [] false l h

variable {w S job} {started : ℚ} {fetch : Option Path} {l : Locals} {h : JobLog}
  {E : PyExc × Locals → JobLog → Prop}

theorem Open.left (hs : Open w S job fetch l h) : Ended w S job fetch l h := ⟨.left, hs⟩

theorem recordCancelled_traced (hs : Open w S job fetch l h) :
    (recordCancelled l).Traced (Raising S) (Ended w S job fetch) E h := by
  intro u _ now _ v _
  have hsnoc := hs.mark ⟨.count (.jobsFinished .cancelled), u⟩ trivial rfl
  have hdelete : JobStanding w S job fetch [.finished .cancelled] true { l with deleteAudio := true }
      (h ++ [⟨.count (.jobsFinished .cancelled), u⟩]) :=
    { hsnoc with deletes_eq := rfl }
  refine ⟨.cancelled, ?_⟩
  exact ((hdelete.quiet ⟨.perfCounter, now⟩ rfl).quiet ⟨.wake .webhook, v⟩ rfl).congr rfl rfl

theorem notCommitted_traced (hs : Open w S job fetch l h)
    (hE : ∀ e, S e → E (e, l) (h ++ [⟨.call (.get .primary), .error e⟩])) :
    (notCommitted l).Traced (Raising S) (Ended w S job fetch) E h := by
  refine Proc.Traced.bind (Q := fun _ => Open w S job fetch l)
    (attempt_traced (fun _ => hs.quiet _ rfl) hE) fun current h hs => ?_
  split
  · exact recordCancelled_traced hs
  · exact hs.left

theorem finishJob_traced {result : TranscriptionResult PyFloat} (hpasses : Passes w result)
    (hg : Going started w S job fetch l h) :
    (finishJob w job started l result).Traced (Raising S) (Ended w S job fetch)
      (Raised started w S job fetch) h := by
  refine (persistStage_traced .primary .finalizing hg).bind fun _ h hg => ?_
  refine (closeStage_traced hg).bind fun l h ⟨hs, hc⟩ => ?_
  refine (beginStage_traced .finalizing hs hc).bind fun l h hg now _ => ?_
  have hg' := hg.quiet ⟨.perfCounter, now⟩ rfl
  have hsound : Sound w S job
      (.call (.finish result (resultOutcome w job l (now - started) result))) := ⟨hpasses, rfl⟩
  -- the answer leaves a mark, or the task is at work still
  have hsnoc (answer : Except PyExc Bool) := hg'.standing.snoc
    (x := ⟨.call (.finish result (resultOutcome w job l (now - started) result)), answer⟩) hsound
    fun hsteady outcome hmem => by
      obtain rfl := Option.some.inj hmem
      exact hg.timed.accounted rfl rfl hsteady.left
  refine Proc.Traced.bind (Q := fun committed h => if committed = true then
      JobStanding w S job fetch [.committed .completed] false l h
    else Going started w S job fetch l h) ?_ fun committed h hcommitted => ?_
  · refine attempt_traced (fun committed => ?_) fun e he => ⟨.raised he, hsnoc (.error e), hg'.timed.append _⟩
    cases committed with
    | true => exact hsnoc (.ok true)
    | false => exact ⟨hsnoc (.ok false), hg'.timed.append _⟩
  · cases committed with
    | true =>
        intro u _ now _ v _
        have hfinished := JobStanding.mark hcommitted ⟨.count (.jobsFinished .completed), u⟩
          trivial rfl
        have hdelete : JobStanding w S job fetch Ending.completed.marks true
            { l with deleteAudio := true } (h ++ [⟨.count (.jobsFinished .completed), u⟩]) :=
          { hfinished with deletes_eq := rfl }
        refine ⟨.completed, ?_⟩
        exact ((hdelete.quiet ⟨.perfCounter, now⟩ rfl).quiet ⟨.wake .webhook, v⟩ rfl).congr rfl rfl
    | false =>
        have hg : Going started w S job fetch l h := hcommitted
        exact notCommitted_traced hg.standing fun e he => ⟨.raised he, hg.quiet _ rfl⟩

/-- The body of the `try`, from a task that fetched nothing yet. -/
theorem runBody_traced (hg : Going started w S job none l h) :
    (runBody w job started l).Traced (Raising S) (fun l h => ∃ fetch, Ended w S job fetch l h)
      (fun e h => ∃ fetch, Raised started w S job fetch e h) h := by
  refine Proc.Traced.bind (Q := fun _ => Going started w S job none l)
    ((attempt_quiet .renewLease rfl hg).mono (fun _ _ h => h) fun _ _ h => ⟨none, h⟩)
    fun renewed h hg => ?_
  cases renewed with
  | false => exact (raiseLost_traced .primary hg).mono (fun _ _ h => h) fun _ _ h => ⟨none, h⟩
  | true =>
      refine (fetchSource_traced hg).bind fun source h ⟨fetch, hg⟩ => ?_
      obtain ⟨audioPath, l⟩ := source
      refine Proc.Traced.mono (Q := Ended w S job fetch) (E := Raised started w S job fetch) ?_
        (fun _ _ h => ⟨fetch, h⟩) fun _ _ h => ⟨fetch, h⟩
      refine (attempt_quiet (.probeAudioSeconds audioPath) rfl hg).bind fun audioSeconds h hg run hrun => ?_
      have hg' : Going started w S job fetch { l with audioSeconds } (h ++ [⟨.engine _, run⟩]) :=
        ⟨(hg.standing.quiet ⟨.engine _, run⟩ rfl).congr rfl rfl, (hg.timed.append _).congr rfl rfl⟩
      refine (runEngine_traced (fun e => .raised) hrun hg').bind fun r h hg u _ => ?_
      obtain ⟨result, l⟩ := r
      refine (checkResult_traced result (hg.quiet ⟨.count _, u⟩ rfl)).bind fun _ h ⟨hg, hpasses⟩ => ?_
      exact finishJob_traced hpasses hg

/-- What the handlers raise leaves the task as it was. -/
abbrev LeftAs (w : JobWorker) (S : PyExc → Prop) (job : Job P) (fetch : Option Path)
    (e : PyExc × Locals) (h : JobLog) : Prop :=
  Open w S job fetch e.2 h

theorem failJob_traced {e : PyExc} (hknown : Known w S e)
    (hcancelled : e.isInstance "JobCancelledError" = false) (htask : e.isTaskCancelled = false)
    (hg : Going started w S job fetch l h) :
    (failJob w job started e l).Traced (Raising S) (Ended w S job fetch) (LeftAs w S job fetch) h := by
  refine (closeStage_traced hg).bind fun l h ⟨hs, hc⟩ now _ => ?_
  have hs' : Open w S job fetch l (h ++ [⟨.perfCounter, now⟩]) := hs.quiet ⟨.perfCounter, now⟩ rfl
  have hsound : Sound w S job (.call (.fail e.publicError e.failureKind
      (outcome w job l (now - started) (some e.name)))) :=
    ⟨e, hknown, hcancelled, htask, rfl, rfl, rfl⟩
  have hsnoc (answer : Except PyExc Bool) := hs'.snoc
    (x := ⟨.call (.fail e.publicError e.failureKind
      (outcome w job l (now - started) (some e.name))), answer⟩) hsound
    fun hsteady outcome hmem => by
      obtain rfl := Option.some.inj hmem
      exact hc.accounted rfl rfl hsteady.left
  refine Proc.Traced.bind (Q := fun committed h =>
      JobStanding w S job fetch (if committed = true then [.committed .failed] else []) false l h)
    ?_ fun committed h hcommitted => ?_
  · refine attempt_traced (fun committed => ?_) fun e he => hsnoc (.error e)
    cases committed with
    | true => exact hsnoc (.ok true)
    | false => exact hsnoc (.ok false)
  · cases committed with
    | true =>
        intro u _ v _
        have hfinished := JobStanding.mark hcommitted ⟨.count (.jobsFinished .failed), u⟩ trivial rfl
        refine ⟨.failed, ?_⟩
        exact { hfinished.quiet ⟨.wake .webhook, v⟩ rfl with deletes_eq := rfl }
    | false => exact notCommitted_traced hcommitted fun e _ => hcommitted.quiet _ rfl

theorem onFailure_traced {e : PyExc} (hknown : Known w S e)
    (hcancelled : e.isInstance "JobCancelledError" = false) (htask : e.isTaskCancelled = false)
    (hg : Going started w S job fetch l h) :
    (onFailure w job started e l).Traced (Raising S) (Ended w S job fetch) (LeftAs w S job fetch) h := by
  unfold onFailure
  split
  · rename_i hretries
    have hsnoc (answer : Except PyExc Bool) := hg.standing.mark
      ⟨.call .releaseForRetry, answer⟩ ⟨e, hknown, hretries⟩ rfl
    refine Proc.Traced.bind (Q := fun released h => if released = true then
        JobStanding w S job fetch Ending.released.marks false l h
      else Going started w S job fetch l h) ?_ fun released h hreleased => ?_
    · refine attempt_traced (fun released => ?_) fun e he => hsnoc (.error e)
      cases released with
      | true => exact hsnoc (.ok true)
      | false => exact ⟨hsnoc (.ok false), hg.timed.append _⟩
    · cases released with
      | true =>
          intro u _
          have hcounted : JobStanding w S job fetch Ending.released.marks false l
              (h ++ [⟨.count .jobRetries, u⟩]) :=
            JobStanding.quiet hreleased ⟨.count .jobRetries, u⟩ rfl
          dsimp only
          split
          · intro v _
            exact ⟨.released, hcounted.quiet ⟨.wake .worker, v⟩ rfl⟩
          · exact ⟨.released, hcounted⟩
      | false => exact failJob_traced hknown hcancelled htask hreleased
  · exact failJob_traced hknown hcancelled htask hg

theorem onException_traced {e : PyExc × Locals} (hraised : Raised started w S job fetch e h) :
    (onException w job started e).Traced (Raising S) (Ended w S job fetch) (LeftAs w S job fetch) h := by
  obtain ⟨e, l⟩ := e
  obtain ⟨hknown, hg⟩ := hraised
  rw [onException]
  split
  · exact recordCancelled_traced hg.standing
  · rename_i hcancelled
    split
    · exact Open.left hg.standing
    · split
      · rename_i hexception
        rw [Bool.and_eq_true, Bool.not_eq_true'] at hexception
        exact onFailure_traced hknown (Bool.eq_false_of_not_eq_true hcancelled) hexception.1 hg
      · exact hg.standing

/-- What is there of a run in the end. -/
structure Leaves (w : JobWorker) (S : PyExc → Prop) (job : Job P) (h : JobLog) : Prop where
  marks_eq : ∃ (fetch : Option Path) (ending : Ending),
    (fetch.isSome → (startLocals job 0).audioPath = none) ∧
    marks h = fetch.toList.map .fetched ++ ending.marks ++
      if ending.deletes then ((startLocals job 0).audioPath.or fetch).toList.map .unlinked else []
  sound : ∀ x ∈ h, Sound w S job x.1
  accounted : Steady h → ∀ x ∈ h, ∀ outcome ∈ reported x.1, Accounted outcome

theorem cleanUp_traced (hended : Ended w S job fetch l h) :
    (cleanUp l).Traced (Raising S) (fun _ => Leaves w S job) (fun _ => Leaves w S job) h := by
  obtain ⟨ending, hs⟩ := hended
  have hnothing (hnone : (if ending.deletes then
      ((startLocals job 0).audioPath.or fetch).toList.map Mark.unlinked else []) = []) :
      Leaves w S job h :=
    ⟨⟨fetch, ending, hs.fetch_eq, by rw [hnone, List.append_nil, hs.marks_eq]⟩, hs.sound, hs.accounted⟩
  unfold cleanUp
  split
  · rename_i path hpath
    rw [hs.deletes_eq]
    split
    · rename_i hdeletes
      have hunlinked (answer : Except PyExc Unit) :
          Leaves w S job (h ++ [⟨.call (.unlink path), answer⟩]) := by
        have hsnoc := hs.mark ⟨.call (.unlink path), answer⟩ trivial rfl
        refine ⟨⟨fetch, ending, hs.fetch_eq, ?_⟩, hsnoc.sound, hsnoc.accounted⟩
        rw [hsnoc.marks_eq, hdeletes, ← hs.audioPath_eq, hpath, List.append_assoc]
        rfl
      exact attempt_traced (fun _ => hunlinked _) fun _ _ => hunlinked _
    · rename_i hkeeps
      exact hnothing (if_neg hkeeps)
  · rename_i hnone
    refine hnothing ?_
    rw [← hs.audioPath_eq, hnone]
    exact ite_self []

/-- **A whole run**: the locals at the `try` start the invariant. -/
theorem processJob_traced :
    (processJob w job).Traced (Raising S) (fun _ => Leaves w S job) (fun _ => Leaves w S job) [] := by
  intro started _ stageStarted _
  have hg : Going started w S job none (startLocals job stageStarted)
      [⟨.perfCounter, started⟩, ⟨.perfCounter, stageStarted⟩] := by
    refine ⟨⟨rfl, ?_, nofun, rfl, ?_, ?_⟩, List.nodup_nil, ?_, ?_, ?_⟩
    · exact (Option.or_none).symm
    · simp [Sound]
    · simp [reported]
    · exact List.mem_cons_of_mem _ List.mem_cons_self
    · exact fun _ => nofun
    · intro hs
      have hle : started ≤ stageStarted := List.rel_of_pairwise_cons hs List.mem_cons_self
      simpa [startLocals, sumShares] using hle
  refine Proc.Traced.bind (Q := fun l h => ∃ fetch, Ended w S job fetch l h) ?_ fun l h hended => ?_
  · refine Proc.Traced.guard (E := fun e h => ∃ fetch, LeftAs w S job fetch e h) ?_ fun e h hopen => ?_
    · refine (runBody_traced hg).guard fun e h hraised => ?_
      obtain ⟨fetch, hraised⟩ := hraised
      exact (onException_traced hraised).mono (fun _ _ h => ⟨fetch, h⟩) fun _ _ h => ⟨fetch, h⟩
    · obtain ⟨fetch, hopen⟩ := hopen
      exact (cleanUp_traced (Open.left hopen)).bind fun _ _ h => h
  · obtain ⟨fetch, hended⟩ := hended
    exact cleanUp_traced hended

end Ends

/-! ### Every run -/

section Every

variable {w : JobWorker} {P : Pydantic} {job : Job P} {log : JobLog} {out : Except (PyExc × Locals) Unit}

theorem engineRaises_of_forall {S : PyExc → Prop} (hS : ∀ e, S e) (run : EngineRun) :
    EngineRaises S run := by
  induction run generalizing S with
  | pure result => trivial
  | raise e => exact hS e
  | ask stage k ih => exact ⟨ih _ hS, fun e => ih _ fun e' => .inl (hS e')⟩

theorem raising_of_forall {S : PyExc → Prop} (hS : ∀ e, S e) (o : JobAsk) (r : o.Answer) :
    Raising S o r := by
  cases o with
  | call c =>
      cases r with
      | ok v => trivial
      | error e => exact hS e
  | engine call => exact engineRaises_of_forall hS r
  | perfCounter | count metric | wake wakeup => trivial

theorem processJob_ran {S : PyExc → Prop} (hran : (processJob w job).Ran log out)
    (hraising : ∀ x ∈ log, Raising S x.1 x.2) : Leaves w S job log := by
  have hpost := processJob_traced.ran hran hraising
  cases out with
  | ok u => exact hpost
  | error e => exact hpost

/-- **How a task ends.**  Whatever the store, the engine and the file system answer, or raise: the task
fetches its source at most once, and only if it came without; at most one call of the store commits its
end, and exactly what was committed is counted; and the audio is unlinked after that, once, if and only
if the job was completed, failed or found cancelled. -/
theorem processJob_leaves (hran : (processJob w job).Ran log out) :
    ∃ (fetch : Option Path) (ending : Ending),
      (fetch.isSome → (startLocals job 0).audioPath = none) ∧
      marks log = fetch.toList.map .fetched ++ ending.marks ++
        if ending.deletes then ((startLocals job 0).audioPath.or fetch).toList.map .unlinked else [] :=
  (processJob_ran hran fun x _ => raising_of_forall (fun _ => trivial) x.1 x.2 :
    Leaves w (fun _ => True) job log).marks_eq

/-! A run in which every call succeeds and each reading of the clock is a second later. -/

def plainWorker : JobWorker where
  toSettings := sampleSettings
  workerId := "worker"
  engine := "local"
  defaultModel := "KBLab/kb-whisper-large"
  device := some "cuda"
  minAlignment := some .providerWords
  alignMaxInterpolatedShare := 1
  retriesAtOnce := false

def uploadedJob : Job .strict where
  id := "job"
  clientId := "client"
  status := .running
  createdAt := 0
  updatedAt := 0
  request := .ofUpload
  audioPath := some "audio.wav"
  attempt := 1

def plainResult : TranscriptionResult PyFloat where
  language := "sv"
  durationSeconds := .finite 2
  model := "KBLab/kb-whisper-large"
  text := ""
  segments := []
  alignment := some .forced

def plainAnswers (i : ℕ) : ∀ o : JobAsk, o.Answer
  | .call .renewLease | .call (.setStage ..) | .call (.finish ..) | .call .releaseForRetry
  | .call (.fail ..) => .ok true
  | .call (.get _) => .ok none
  | .call (.fetchUrl _) => .ok "fetched.wav"
  | .call (.setAudioPath _) | .call (.unlink _) => .ok ()
  | .call (.probeAudioSeconds _) => .ok none
  | .perfCounter => i
  | .engine _ => .ask .transcribing fun
    | .ok () => .pure plainResult
    | .error e => .raise e
  | .count _ | .wake _ => ()

/-- The run, and its outcome. -/
def plainRun : JobLog × Except (PyExc × Locals) Unit :=
  (processJob plainWorker uploadedJob).exec plainAnswers 0

theorem processJob_leaves_plain : ∃ (fetch : Option Path) (ending : Ending),
    (fetch.isSome → (startLocals uploadedJob 0).audioPath = none) ∧
    marks plainRun.1 = fetch.toList.map .fetched ++ ending.marks ++
      if ending.deletes then ((startLocals uploadedJob 0).audioPath.or fetch).toList.map .unlinked
      else [] :=
  processJob_leaves (Proc.ran_exec plainAnswers 0 (processJob plainWorker uploadedJob))

example : marks plainRun.1 =
    [.committed .completed, .finished .completed, .unlinked "audio.wav"] := rfl

/-- No class of this queue. -/
def Foreign (e : PyExc) : Prop := e.isInstance "AlignmentBelowFloorError" = false

theorem Passes.rank_le {result : TranscriptionResult PyFloat} (h : Passes w result) {floor : Alignment}
    (hfloor : w.minAlignment = some floor) : floor.rank ≤ result.alignment.elim (-1) Alignment.rank := by
  have hcheck := h.floor
  simp only [checkAlignmentFloor, hfloor] at hcheck
  by_contra hlt
  rw [if_neg hlt] at hcheck
  cases hcheck

theorem Passes.share_le {result : TranscriptionResult PyFloat} (h : Passes w result)
    (hforced : result.alignment = some .forced) (hpos : 0 < interpolatedWords (resultWords result)) :
    interpolatedShare result ≤ w.alignMaxInterpolatedShare := by
  have hcheck := h.share hforced hpos
  simp only [checkInterpolatedShare] at hcheck
  by_contra hlt
  rw [if_pos (not_le.mp hlt)] at hcheck
  cases hcheck

theorem Known.belowFloor {e : PyExc} (h : Known w Foreign e)
    (hinstance : e.isInstance "AlignmentBelowFloorError" = true) :
    ∃ result, checkAlignmentFloor w result = some e.text ∨ checkInterpolatedShare w result = some e.text := by
  cases h with
  | raised h => exact absurd hinstance (Bool.eq_false_iff.mp h)
  | jobCancelled | leaseLost | stageTimedOut | assertion => exact absurd hinstance (by decide)
  | @floor result message h => exact ⟨result, .inl h⟩
  | @share result message h => exact ⟨result, .inr h⟩

theorem failureKind_ne_cancelled {e : PyExc} (hcancelled : e.isInstance "JobCancelledError" = false)
    (htask : e.isTaskCancelled = false) : e.failureKind ≠ .cancelled := by
  rw [PyExc.failureKind, hcancelled, htask]
  split_ifs <;> simp_all

/-- **What a task tells the store.**  A result is handed over only if its rung reaches the floor and no
more of its words are interpolated than allowed.  A failure is told by the name of its class alone, or
by the message of one of the two checks, and never as a cancellation.  A job is handed back only as long
as it has attempts left. -/
theorem processJob_reports (hran : (processJob w job).Ran log out)
    (hforeign : ∀ x ∈ log, Raising Foreign x.1 x.2) :
    (∀ x ∈ log, ∀ result outcome, x.1 = .call (.finish result outcome) →
      (∀ floor, w.minAlignment = some floor → floor.rank ≤ result.alignment.elim (-1) Alignment.rank) ∧
      (result.alignment = some .forced → 0 < interpolatedWords (resultWords result) →
        interpolatedShare result ≤ w.alignMaxInterpolatedShare)) ∧
    (∀ x ∈ log, ∀ error kind outcome, x.1 = .call (.fail error kind outcome) → kind ≠ .cancelled ∧
      ((∃ name, outcome.errorClass = some name ∧ error = s!"{name}: processing failed") ∨
        ∃ result, checkAlignmentFloor w result = some error ∨
          checkInterpolatedShare w result = some error)) ∧
    (∀ x ∈ log, x.1 = .call .releaseForRetry → job.attempt < w.oomMaxAttempts) := by
  have hsound := (processJob_ran hran hforeign).sound
  refine ⟨fun x hx result outcome heq => ?_, fun x hx error kind outcome heq => ?_, fun x hx heq => ?_⟩
  · obtain ⟨hpasses, -⟩ : Passes w result ∧ _ := heq ▸ hsound x hx
    exact ⟨fun _ => hpasses.rank_le, hpasses.share_le⟩
  · obtain ⟨e, hknown, hcancelled, htask, rfl, rfl, hclass⟩ :
        Sound w Foreign job (.call (.fail error kind outcome)) := heq ▸ hsound x hx
    refine ⟨failureKind_ne_cancelled hcancelled htask, ?_⟩
    rw [PyExc.publicError]
    split
    · rename_i hinstance
      exact .inr (hknown.belowFloor hinstance)
    · exact .inl ⟨e.name, hclass, rfl⟩
  · obtain ⟨e, -, hretries⟩ : Sound w Foreign job (.call .releaseForRetry) := heq ▸ hsound x hx
    simp only [retries, Bool.and_eq_true, decide_eq_true_eq] at hretries
    exact hretries.2

theorem plainAnswers_foreign (i : ℕ) (o : JobAsk) : Raising Foreign o (plainAnswers i o) := by
  cases o with
  | call c => cases c <;> trivial
  | engine call => exact ⟨trivial, fun e => .inr rfl⟩
  | perfCounter | count metric | wake wakeup => trivial

theorem processJob_reports_plain : (plainRun.1.filterMap fun x => reported x.1).length = 1 ∧
    ∀ x ∈ plainRun.1, ∀ result outcome, x.1 = .call (.finish result outcome) →
      (∀ floor, plainWorker.minAlignment = some floor →
        floor.rank ≤ result.alignment.elim (-1) Alignment.rank) ∧
      (result.alignment = some .forced → 0 < interpolatedWords (resultWords result) →
        interpolatedShare result ≤ plainWorker.alignMaxInterpolatedShare) :=
  ⟨rfl, (processJob_reports (Proc.ran_exec plainAnswers 0 (processJob plainWorker uploadedJob))
    (Proc.exec_given plainAnswers_foreign 0 _)).1⟩

/-- **Stage accounting.**  As long as the clock does not go back, every outcome a task reports lists
each of its stages once, with the time it took, and all of them within the time of the attempt. -/
theorem processJob_accounts (hran : (processJob w job).Ran log out) (hsteady : Steady log) :
    ∀ x ∈ log, ∀ outcome, reported x.1 = some outcome → Accounted outcome :=
  (processJob_ran hran fun x _ => raising_of_forall (fun _ => trivial) x.1 x.2 :
    Leaves w (fun _ => True) job log).accounted hsteady

theorem plainRun_steady : Steady plainRun.1 := by
  have hreadings : readings plainRun.1 = [0, 1, 6, 7, 10, 11, 12, 15] := rfl
  rw [Steady, hreadings]
  simp only [List.pairwise_cons, List.forall_mem_cons, List.not_mem_nil, false_imp_iff, implies_true,
    List.Pairwise.nil, and_true]
  norm_num

theorem processJob_accounts_plain : (plainRun.1.filterMap fun x => reported x.1).length = 1 ∧
    ∀ x ∈ plainRun.1, ∀ outcome, reported x.1 = some outcome → Accounted outcome :=
  ⟨rfl, processJob_accounts (Proc.ran_exec plainAnswers 0 (processJob plainWorker uploadedJob))
    plainRun_steady⟩

end Every

end Vemsa.Jobs
