import Vemsa.Jobs.JobView

/-!
# Jobs — Cleanup

What becomes of the audio of a job.  Seen from one job, a run of the system in which nothing crashes
is a sequence of `JobView.Step`s (`view_step`), as long as no two attempts of the job come by a file
of their own and nobody cancels it when there is no attempt left to notice.  So its audio is looked
after in every state (`tended`), and once the job is over and nothing of it in flight, it is gone
(`audio_gone`).
-/

namespace Vemsa.Jobs
open Vemsa.Support

variable {P : Pydantic}

/-! ### The view -/

def Row.audioRow (P : Pydantic) (row : Row) : AudioRow where
  status := row.status
  attempt := row.attempt
  leaseOwner := row.leaseOwner
  audioPath := row.audioPath
  readable := (modelValidate P row.requestJson).isOk

theorem isOk_rowToJob (row : Row) :
    (rowToJob P row).isOk = (modelValidate P row.requestJson).isOk := by
  unfold rowToJob
  split
  · rename_i e he
    rw [he]
    rfl
  · rename_i request he
    rw [he]
    rfl

namespace System

/-- The attempts of one job. -/
def attemptsOf (s : System P) (j : JobId) (a : ℕ ⊕ WorkerId) : Option (Task P) :=
  (s.attempt a).filter fun t => t.job.id = j

/-- The system, as one job sees it. -/
def view (s : System P) (j : JobId) : JobView P where
  row := (s.db.tables.jobs.get? j).map (Row.audioRow P)
  attempts := s.attemptsOf j
  files := {p | s.madeFor p = some j ∧ s.files p ≠ none}
  pending := {p | p ∈ s.cancelled}
  upload := (s.submissions j).bind fun b => b.new.audioPath

variable {s s' : System P} {j : JobId} {a : ℕ ⊕ WorkerId} {t t' : Task P}

theorem attemptsOf_eq_some : s.attemptsOf j a = some t ↔ s.attempt a = some t ∧ t.job.id = j := by
  rw [attemptsOf, Option.filter_eq_some_iff, decide_eq_true_iff]

theorem filter_update (f : ℕ ⊕ WorkerId → Option (Task P)) (o : Option (Task P)) (q : Task P → Bool) :
    (fun b => (Function.update f a o b).filter q) =
      Function.update (fun b => (f b).filter q) a (o.filter q) := by
  funext b
  by_cases hb : b = a
  · subst hb
    simp only [Function.update_self]
  · simp only [Function.update_of_ne hb]

theorem attemptsOf_update {o : Option (Task P)}
    (h : s'.attempt = Function.update s.attempt a o) :
    s'.attemptsOf j = Function.update (s.attemptsOf j) a (o.filter fun t => t.job.id = j) := by
  unfold attemptsOf
  rw [h, filter_update]

/-- An attempt of the job moves on. -/
theorem attemptsOf_own (h : s'.attempt = Function.update s.attempt a (some t'))
    (hj : t'.job.id = j) : s'.attemptsOf j = Function.update (s.attemptsOf j) a (some t') := by
  rw [attemptsOf_update h, Option.filter_some_pos (by simpa using hj)]

/-- An attempt of another job moves on. -/
theorem attemptsOf_other (ht : s.attempt a = some t) (hj : t.job.id ≠ j) {o : Option (Task P)}
    (h : s'.attempt = Function.update s.attempt a o) (ho : ∀ u ∈ o, u.job.id = t.job.id) :
    s'.attemptsOf j = s.attemptsOf j := by
  have hnone : o.filter (fun t => t.job.id = j) = s.attemptsOf j a := by
    rw [attemptsOf, ht, Option.filter_some_neg (by simpa using hj)]
    exact Option.filter_eq_none_iff.mpr fun u hu => by rw [ho u hu]; simpa using hj
  rw [attemptsOf_update h, hnone, Function.update_eq_self]

/-- A loop without a job moves on to a place without one. -/
theorem attempt_setLoop_of_none {worker : WorkerId} {pc : LoopPc P}
    (hloop : (s.loops worker).job = none) (hpc : pc.job = none) :
    (s.setLoop worker pc).attempt = s.attempt := by
  have hnone : s.attempt (.inr worker) = none := by
    rw [attempt, hloop]
    rfl
  rw [attempt_setLoop, hpc, Option.map_none, ← hnone, Function.update_eq_self]

theorem attemptsOf_congr (h : s'.attempt = s.attempt) : s'.attemptsOf j = s.attemptsOf j := by
  funext a
  rw [attemptsOf, attemptsOf, h]

end System

/-! ### Rows -/

section Rows

variable {c : Call P} {db db' : Db} {r : Reply P} {j : JobId}

/-- Every call but `create` and the purge. -/
def Call.isUpdate : Call P → Bool
  | create .. | purgeOlderThan _ => false
  | _ => true

theorem get?_update (hstep : c.step db = some (db', r)) (hc : c.isUpdate = true) :
    db'.tables.jobs.get? j =
      (db.tables.jobs.get? j).map fun row => if c.hit row then c.set row else row := by
  rcases get?_step hstep j with hget | ⟨new, a, b, rfl, -⟩
  · rw [hget]
    cases db.tables.jobs.get? j with
    | none => rfl
    | some row =>
        cases c with
        | purgeOlderThan cutoff => cases hc
        | _ => rfl
  · cases hc

theorem get?_hit (hstep : c.step db = some (db', r)) (hc : c.isUpdate = true) {row : Row}
    (hrow : db.tables.jobs.get? j = some row) (hhit : c.hit row = true) :
    db'.tables.jobs.get? j = some (c.set row) := by
  rw [get?_update hstep hc, hrow, Option.map_some, if_pos hhit]

/-- The rows of other jobs stay. -/
theorem get?_other {k : JobId} (hstep : c.step db = some (db', r)) (hc : c.isUpdate = true)
    (hkey : ∀ row, c.hit row = true → row.id = k) (hj : j ≠ k) :
    db'.tables.jobs.get? j = db.tables.jobs.get? j := by
  rw [get?_update hstep hc]
  cases hrow : db.tables.jobs.get? j with
  | none => rfl
  | some row =>
      rw [Option.map_some, if_neg fun hhit => ?_]
      exact hj ((Table.key_of_get? hrow).symm.trans (hkey row hhit))

/-- Background calls leave the columns the audio depends on. -/
theorem audioRow_background (hstep : c.step db = some (db', r)) (hbg : c.isBackground = true) :
    (db'.tables.jobs.get? j).map (Row.audioRow P) = (db.tables.jobs.get? j).map (Row.audioRow P) := by
  rw [get?_update hstep (by cases c <;> first | rfl | cases hbg), Option.map_map]
  congr 1
  funext row
  rw [Function.comp_apply]
  split
  · cases c <;> first | rfl | cases hbg
  · rfl

/-- A row found cancelled, when it decodes. -/
theorem isCancelled_of_row {row : Row} (hrow : db.tables.jobs.get? j = some row)
    (hs : row.status = .cancelled) (hreadable : (modelValidate P row.requestJson).isOk = true) :
    isCancelled P j db.tables = true := by
  rw [← isOk_rowToJob] at hreadable
  unfold isCancelled get
  cases hjob : rowToJob P row with
  | error e =>
      rw [hjob] at hreadable
      cases hreadable
  | ok job =>
      obtain ⟨-, -, -, hstatus, -⟩ := rowToJob_eq_ok hjob
      rw [hrow, Option.filter_some_pos rfl]
      dsimp only
      rw [hjob]
      exact decide_eq_true (hstatus.trans hs)

/-- The store calls of a task are about its job. -/
theorem Task.call_hit {t : Task P} {act : Act} (hc : t.call act = some c) :
    c.isUpdate = true ∧ ∀ row, c.hit row = true → row.id = t.job.id := by
  unfold Task.call at hc
  split at hc
  case h_2 =>
    obtain ⟨path, -, rfl⟩ := Option.map_eq_some_iff.mp hc
    exact ⟨rfl, fun row hhit => of_decide_eq_true hhit⟩
  case h_8 => cases hc
  all_goals
    obtain rfl := Option.some.inj hc
    exact ⟨rfl, fun row hhit => id_of_heldBy hhit⟩

end Rows

/-! ### The runs the audio depends on -/

/-- No process crashes or is stopped, no store call fails, and no row expires. -/
def Calm (x : Entry (System P) (Event P) (Option (Reply P))) : Bool :=
  match x.event, x.reply with
  | .purge _, _ | .task _ .interrupt, _ => false
  | .claim .., some (.row (some row)) => (rowToJob P row).isOk
  | _, _ => true

/-- **What the audio of a job depends on.** -/
structure Orderly (x : Entry (System P) (Event P) (Option (Reply P))) : Prop where
  /-- a job cancelled while it waits for a retry still has an attempt that holds its audio -/
  cancel : ∀ j clientId stamp now row, x.event = .cancelJob j clientId stamp now →
    x.before.db.tables.jobs.get? j = some row → row.status = .queued → 1 ≤ row.attempt →
      ∀ p ∈ row.audioPath, ∃ a t, x.before.attempt a = some t ∧ t.job.id = j ∧
        t.audioPath = some p ∧ ∀ d, t.pc ≠ .leaving d
  /-- nobody claims a job between a fetch and its `set_audio_path` -/
  claim : ∀ w now lease locked j, x.event = .claim w now lease locked (some j) →
    ∀ n t, x.before.tasks n = some t → t.job.id = j → t.pc ≠ .recording
  /-- nobody has claimed the job of an attempt that has fetched its audio -/
  fetch : ∀ n t path mtime, x.event = .task n (.fetched path mtime) → x.before.tasks n = some t →
    ∀ row, x.before.db.tables.jobs.get? t.job.id = some row → t.job.attempt = row.attempt

/-! ### One step, seen from one job -/

/-- The rest of the system moves on. -/
theorem System.view_aside {s s' : System P} {j : JobId}
    (hrow : (s'.db.tables.jobs.get? j).map (Row.audioRow P) =
      (s.db.tables.jobs.get? j).map (Row.audioRow P))
    (hattempts : s'.attemptsOf j = s.attemptsOf j) (hupload : (s'.view j).upload = (s.view j).upload)
    (hfiles : ∀ p, s'.madeFor p = some j → s'.files p ≠ none →
      s.madeFor p = some j ∧ s.files p ≠ none)
    (hpending : ∀ p, s'.files p ≠ none → p ∈ s.cancelled → p ∈ s'.cancelled) :
    (s.view j).Step (s'.view j) := by
  have hview : s'.view j =
      { s.view j with files := (s'.view j).files, pending := (s'.view j).pending } :=
    JobView.ext hrow hattempts rfl rfl hupload
  rw [hview]
  exact .aside _ _ (fun p hp => hfiles p hp.1 hp.2) fun p hp => hpending p hp.2

section Step

variable {st : Settings} {s s' : System P} {e : Event P} {r : Option (Reply P)} {j : JobId}

/-- A task of the job acts. -/
theorem view_task (hw : Workers s) {n : ℕ} {act : Act} {t t' : Task P} {db : Db}
    (ht : s.tasks n = some t) (hcall : System.Called (t.call act) s.db r db)
    (hnext : t.next st db.tables (r.any Reply.positive) act = some t')
    (hact : ∀ path mtime, act ≠ .fetched path mtime) (hint : act ≠ .interrupt) :
    (s.view t.job.id).Step ((System.setTask { s with db } n t').view t.job.id) := by
  have hmove := Task.moves hcall hnext hact
  obtain ⟨hworker, hjob⟩ := Task.next_same hnext
  have haudio := Task.next_audioPath hnext hact
  obtain ⟨worker', job', audioPath', pc⟩ := t'
  dsimp only at hworker hjob haudio hmove
  subst hworker hjob haudio
  have ha : (s.view t.job.id).attempts (.inl n) = some t :=
    System.attemptsOf_eq_some.mpr ⟨ht, rfl⟩
  have hview : ∀ {o : Option AudioRow},
      (db.tables.jobs.get? t.job.id).map (Row.audioRow P) = o →
      (System.setTask { s with db } n { t with pc }).view t.job.id =
        { (s.view t.job.id).move (.inl n) { t with pc } with row := o } := fun ho =>
    JobView.ext ho (System.attemptsOf_own (System.attempt_setTask ..) rfl) rfl rfl rfl
  have held : ∀ {row : Row}, s.db.tables.jobs.get? t.job.id = some row →
      row.heldBy t.job.id (some t.worker) = true → row.status = .running ∧
        t.job.attempt = row.attempt := by
    intro row hrow hheld
    obtain ⟨-, hrun, howner⟩ := heldBy_iff.mp hheld
    exact ⟨hrun, (hw.attempt n t ht row hrow hrun howner).symm⟩
  -- every kind of move is a step of the view: what is left is the row after it
  cases hmove with
  | kept pc hbusy hbusy' hrecording hrecording' hfetching hdb =>
      rw [hview rfl]
      have hrow : (db.tables.jobs.get? t.job.id).map (Row.audioRow P) = (s.view t.job.id).row := by
        rcases hdb with rfl | ⟨c, r₀, hbg, hstep⟩
        · rfl
        · exact audioRow_background hstep hbg
      rw [hrow]
      exact .kept _ t pc ha hbusy hbusy' hrecording hrecording' hfetching
  | lost pc hbusy hrecording hpc hdb hlost =>
      subst hdb
      rw [hview rfl]
      refine .lost _ t pc ha hbusy hrecording hpc fun row hrow hrun howner => ?_
      obtain ⟨row, hget, rfl⟩ := Option.map_eq_some_iff.mp hrow
      have hheld := heldBy_iff.mpr ⟨Table.key_of_get? hget, hrun, howner⟩
      rw [hlost row hget] at hheld
      cases hheld
  | asked hpc hdb =>
      subst hdb
      rw [hview rfl]
      refine .asked _ t _ ha hpc fun row hrow hs hreadable => ?_
      obtain ⟨row, hget, rfl⟩ := Option.map_eq_some_iff.mp hrow
      exact isCancelled_of_row hget hs hreadable
  | recorded path now hpc haudio hstep =>
      have hget := get?_update (j := t.job.id) hstep rfl
      have hrow : (db.tables.jobs.get? t.job.id).map (Row.audioRow P) =
          (s.view t.job.id).row.map fun row => { row with audioPath := some path } := by
        rw [hget]
        show _ = Option.map _ (Option.map _ _)
        cases hrow : s.db.tables.jobs.get? t.job.id with
        | none => rfl
        | some row =>
            simp only [Option.map_some, Call.hit, Table.key_of_get? hrow, decide_true, if_true]
            rfl
      -- the path is written under the job's id alone, whoever holds the lease
      rw [hview hrow]
      exact .recorded _ t path ha hpc haudio
  | unrecorded hpc haudio hdb =>
      subst hdb
      rw [hview rfl]
      exact .unrecorded _ t ha hpc haudio
  | committed c r v hpc hpc' hstep hcommits hv =>
      -- a verdict is only reached by a call that hit the row, so the lease was held
      have hpos : r.positive = true := by
        by_contra hneg
        rw [Call.settles, if_neg hneg] at hv
        cases hv
      have done : ∀ status : JobStatus, status = .completed ∨ status = .failed →
          c.isUpdate = true → c.key = some t.job.id →
          (∀ row, c.hit row = row.heldBy t.job.id (some t.worker)) →
          (∀ row, (c.set row).audioRow P = { row.audioRow P with status, leaseOwner := none }) →
          (s.view t.job.id).Step
            ((System.setTask { s with db } n { t with pc := .leaving true }).view t.job.id) := by
        intro status hstatus hupdate hkey hhit hset
        rcases step_keyed hstep hkey with ⟨hneg, -⟩ | ⟨-, row, hrow, hrow'⟩
        · rw [hpos] at hneg
          cases hneg
        · obtain ⟨hrun, hlatest⟩ := held hrow (hhit row ▸ hrow')
          rw [hview (congrArg (Option.map (Row.audioRow P)) (get?_hit hstep hupdate hrow hrow')),
            Option.map_some, hset]
          exact .committed _ t (row.audioRow P) status ha hpc
            (congrArg (Option.map (Row.audioRow P)) hrow) hrun hlatest hstatus
      cases c with
      | finish k result w url outcome stamp now =>
          obtain ⟨rfl, rfl⟩ : k = t.job.id ∧ w = t.worker := by
            simpa only [Call.commits, Bool.and_eq_true, decide_eq_true_eq] using hcommits
          exact done .completed (.inl rfl) rfl rfl (fun _ => rfl) fun _ => rfl
      | fail k error kind w url outcome stamp now =>
          obtain ⟨rfl, rfl⟩ : k = t.job.id ∧ w = t.worker := by
            simpa only [Call.commits, Bool.and_eq_true, decide_eq_true_eq] using hcommits
          exact done .failed (.inr rfl) rfl rfl (fun _ => rfl) fun _ => rfl
      | releaseForRetry =>
          rw [Call.settles_of_no_verdict _ rfl] at hv
          cases hv
      | _ => cases hcommits
  | released now retryAfterS hpc hstep =>
      rcases step_keyed hstep rfl with ⟨hneg, -⟩ | ⟨-, row, hrow, hhit⟩
      · cases hneg
      · obtain ⟨hrun, hlatest⟩ := held hrow hhit
        rw [hview (congrArg (Option.map (Row.audioRow P)) (get?_hit hstep rfl hrow hhit))]
        exact .released _ t (row.audioRow P) ha (by rw [hpc]; rintro ⟨⟩)
          (congrArg (Option.map (Row.audioRow P)) hrow) hrun hlatest
  | interrupted h => exact absurd h hint

theorem files_of_unlink {path : Option Path} {p : Path} (h : (s.unlink path).files p ≠ none) :
    path ≠ some p ∧ s.files p ≠ none := by
  have hne : path ≠ some p := fun hp => h (if_pos hp)
  exact ⟨hne, fun hnone => h ((if_neg hne).trans hnone)⟩

/-- A submission keeps its upload. -/
theorem upload_setSubmission {new : NewJob P} {pc pc' : SubmissionPc}
    (hsub : s.submissions new.id = some ⟨new, pc⟩)
    (hsub' : s'.submissions = Function.update s.submissions new.id (some ⟨new, pc'⟩)) :
    (s'.view j).upload = (s.view j).upload := by
  simp only [System.view, hsub']
  by_cases hj : j = new.id
  · subst hj
    rw [Function.update_self, hsub]
    rfl
  · rw [Function.update_of_ne hj]

/-- A submission begins, with its upload if it has one. -/
theorem view_submit (ha : Admission st s) {new : NewJob P} (hid : new.id ∉ s.drawn)
    (hsub' : s'.submissions = Function.update s.submissions new.id (some ⟨new, .waiting⟩))
    (hdb : s'.db = s.db) (hattempt : s'.attempt = s.attempt) (hcancelled : s'.cancelled = s.cancelled)
    (hfiles : ∀ p k, s'.madeFor p = some k → s'.files p ≠ none →
      s.madeFor p = some k ∧ s.files p ≠ none ∨ k = new.id ∧ new.audioPath = some p) :
    (s.view j).Step (s'.view j) := by
  by_cases hj : j = new.id
  · subst hj
    have hnone : s.submissions new.id = none := by
      by_contra hne
      obtain ⟨b, hb⟩ := Option.ne_none_iff_exists'.mp hne
      exact hid (ha.submitted _ b hb).2
    have hrow : s.db.tables.jobs.get? new.id = none := by
      by_contra hne
      obtain ⟨row, hrow⟩ := Option.ne_none_iff_exists'.mp hne
      obtain ⟨b, hb, -⟩ := ha.stored _ row hrow
      rw [hnone] at hb
      cases hb
    have hview : s'.view new.id = { s.view new.id with
        upload := new.audioPath, files := (s'.view new.id).files } := by
      refine JobView.ext ?_ (System.attemptsOf_congr hattempt) rfl ?_ ?_
      · simp only [System.view, hdb]
      · simp only [System.view, hcancelled]
      · simp only [System.view, hsub', Function.update_self, Option.bind_some]
    rw [hview]
    refine .submitted _ _ ?_ ?_ fun p hp => ?_
    · simp only [System.view, hrow, Option.map_none]
    · simp only [System.view, hnone, Option.bind_none]
    · exact (hfiles p _ hp.1 hp.2).imp_right And.right
  · refine System.view_aside (by rw [hdb]) (System.attemptsOf_congr hattempt) ?_ (fun p hmade hp => ?_)
      fun p _ hp => hcancelled ▸ hp
    · simp only [System.view, hsub', Function.update_of_ne hj]
    · exact (hfiles p j hmade hp).resolve_right fun h => hj h.1

/-- A statement of a submission. -/
theorem view_statement {new : NewJob P} {pc : SubmissionPc} {statement : Statement}
    (hsub : s.submissions new.id = some ⟨new, pc⟩) (hs : System.OnStatement st s new pc statement s') :
    (s.view j).Step (s'.view j) := by
  obtain ⟨hdb, hloops, -, htasks, -⟩ := hs.workers
  refine System.view_aside (by rw [hdb]) (System.attemptsOf_congr (System.attempt_congr htasks hloops))
    ?_ ?_ fun p _ hp => hs.pending.1 ▸ hp
  · cases hs with
    | admitted id => split <;> exact upload_setSubmission hsub rfl
    | refused e => split <;> exact upload_setSubmission hsub rfl
    | _ => exact upload_setSubmission hsub rfl
  · intro p hmade hp
    cases hs with
    | admitted id =>
        by_cases hid : id = new.id
        · rw [if_pos hid] at hmade hp
          exact ⟨hmade, hp⟩
        · rw [if_neg hid] at hmade hp
          exact ⟨hmade, (files_of_unlink hp).2⟩
    | refused e =>
        cases hr : e.isRefusal <;> rw [hr] at hmade hp
        · exact ⟨hmade, hp⟩
        · exact ⟨hmade, (files_of_unlink hp).2⟩
    | _ => exact ⟨hmade, hp⟩

theorem view_commit (ha : Admission st s) {new : NewJob P} {db : Db} {job : Job P}
    (hsub : s.submissions new.id = some ⟨new, .inserted⟩)
    (hdb : (Call.create new none none).step s.db = some (db, .created (.ok job))) :
    (s.view j).Step ((System.setSubmission (System.unlock { s with db }) new
      (.admitted new.id)).view j) := by
  obtain ⟨hnone, hget, -⟩ := insertJob_eq_some (ha.inserted hsub hdb)
  by_cases hj : new.id = j
  · subst hj
    have hview : (System.setSubmission (System.unlock { s with db }) new
        (.admitted new.id)).view new.id = { s.view new.id with
          row := some ⟨.queued, 0, none, (s.view new.id).upload,
            (modelValidate P new.job.row.requestJson).isOk⟩ } := by
      refine JobView.ext ?_ (System.attemptsOf_congr rfl) rfl rfl (upload_setSubmission hsub rfl)
      refine (congrArg (Option.map (Row.audioRow P)) ((hget new.id).trans (if_pos rfl))).trans ?_
      simp only [System.view, hsub]
      rfl
    rw [hview]
    exact .created _ (congrArg (Option.map (Row.audioRow P)) hnone)
  · refine System.view_aside ?_ (System.attemptsOf_congr rfl) (upload_setSubmission hsub rfl)
      (fun p hmade hp => ⟨hmade, hp⟩) fun p _ hp => hp
    exact congrArg (Option.map (Row.audioRow P)) ((hget j).trans (if_neg hj))

theorem view_cancel {jobId : JobId} {clientId : String} {url : Option String} {stamp : EventStamp}
    {now : Time} {db : Db} {row : Row}
    (hdb : (Call.cancel (P := P) jobId clientId url stamp now).step s.db =
      some (db, .row (some row)))
    (hretry : ∀ row, s.db.tables.jobs.get? jobId = some row → row.status = .queued →
      1 ≤ row.attempt → ∀ p ∈ row.audioPath, ∃ a t, s.attempt a = some t ∧ t.job.id = jobId ∧
        t.audioPath = some p ∧ ∀ d, t.pc ≠ .leaving d) :
    (s.view j).Step (System.view { s with
      db, cancelled := (if row.attempt = 0 then row.audioPath.toList else []) ++ s.cancelled } j) := by
  by_cases hj : j = jobId
  · subst hj
    obtain ⟨hget, row₀, hrow₀, hhit, rfl⟩ := cancel_row hdb
    have hview : ∀ cancelled, System.view { s with db, cancelled } j = { s.view j with
        row := some { row₀.audioRow P with status := .cancelled, leaseOwner := none }
        pending := {p | p ∈ cancelled} } := fun cancelled =>
      JobView.ext (congrArg (Option.map (Row.audioRow P)) hget) (System.attemptsOf_congr rfl) rfl rfl
        rfl
    rw [hview]
    refine .cancelled (row₀.audioRow P) _ (congrArg (Option.map (Row.audioRow P)) hrow₀) ?_
      (fun p hp => List.mem_append_right _ hp) (fun h0 p hp => List.mem_append_left _ ?_)
      fun hs hpos p hp => ?_
    · have hactive := active_of_cancellable hhit
      by_contra hterm
      rw [isTerminal_iff.mp (Bool.eq_true_of_not_eq_false hterm)] at hactive
      cases hactive
    · rw [if_pos (show (row₀.cancel now).attempt = 0 from h0)]
      exact Option.mem_toList.mpr hp
    · obtain ⟨a, t, ht, hid, haudio, hpc⟩ := hretry row₀ hrow₀ hs hpos p hp
      exact ⟨a, t, System.attemptsOf_eq_some.mpr ⟨ht, hid⟩, haudio, hpc⟩
  · refine System.view_aside ?_ (System.attemptsOf_congr rfl) rfl (fun p hmade hp => ⟨hmade, hp⟩)
      fun p _ hp => List.mem_append_right _ hp
    exact congrArg (Option.map (Row.audioRow P))
      (get?_other hdb rfl (fun row hhit => id_of_cancellable hhit) hj)

theorem view_claim {worker : WorkerId} {now leaseForS : Time} {excludeIds locked : List JobId}
    {pick : Option JobId} {db : Db} {row : Row} {job : Job P}
    (hloop : s.loops worker = .claiming excludeIds)
    (hdb : (Call.claimNextQueued (P := P) worker now leaseForS excludeIds locked pick).step s.db =
      some (db, .row (some row))) (hjob : rowToJob P row = .ok job)
    (hrecording : ∀ k, pick = some k → ∀ n t, s.tasks n = some t → t.job.id = k →
      t.pc ≠ .recording) :
    (s.view j).Step ((System.setLoop { s with db } worker (.claimed job)).view j) := by
  obtain ⟨hid, hattempt, haudio, -⟩ := rowToJob_eq_ok hjob
  have hfree : s.attempt (.inr worker) = none := by
    rw [System.attempt, hloop]
    rfl
  have hupdate : (System.setLoop { s with db } worker (.claimed job)).attempt =
      Function.update s.attempt (.inr worker) (some (job.begin worker)) :=
    System.attempt_setLoop ..
  obtain ⟨-, hget, -⟩ := claim_step hdb
  obtain ⟨⟨t, o⟩, hclaim, heq⟩ := Option.map_eq_some_iff.mp hdb
  obtain ⟨rfl, hr⟩ := Prod.mk.inj heq
  obtain rfl := Reply.row.inj hr
  rcases claim_cases hclaim with ⟨-, ho⟩ | ⟨k, row₀, rfl, hrow₀, hid₀, hclaimable, ho⟩
  · cases ho
  · obtain rfl := Option.some.inj ho
    have hk : job.id = k := hid.trans hid₀
    rw [show (row₀.claim worker now leaseForS).id = k from hid₀] at hget
    by_cases hj : k = j
    · subst hj
      have hview : (System.setLoop { s with db := ⟨t, s.db.drawn⟩ } worker (.claimed job)).view k =
          { (s.view k).move (.inr worker) (job.begin worker) with
            row := some { row₀.audioRow P with
              status := .running, attempt := (row₀.audioRow P).attempt + 1
              leaseOwner := some (job.begin worker).worker } } :=
        JobView.ext (congrArg (Option.map (Row.audioRow P)) hget)
          (System.attemptsOf_own hupdate hk) rfl rfl rfl
      rw [hview]
      refine .claimed _ _ (row₀.audioRow P) (congrArg (Option.map (Row.audioRow P)) hrow₀) ?_ ?_ ?_
        hattempt haudio rfl fun b u hu hpc => ?_
      · have hactive := active_of_claimable hclaimable
        by_contra hterm
        rw [isTerminal_iff.mp (Bool.eq_true_of_not_eq_false hterm)] at hactive
        cases hactive
      · have hok := isOk_rowToJob (P := P) (row₀.claim worker now leaseForS)
        rw [hjob] at hok
        exact hok.symm
      · show s.attemptsOf k _ = none
        rw [System.attemptsOf, hfree]
        rfl
      · obtain ⟨hu, hid'⟩ := System.attemptsOf_eq_some.mp hu
        rcases b with n | w
        · exact hrecording k rfl n u hu hid' hpc
        · obtain ⟨job', -, rfl⟩ := Option.map_eq_some_iff.mp hu
          cases hpc
    · refine System.view_aside ?_ ?_ rfl (fun p hmade hp => ⟨hmade, hp⟩) fun p _ hp => hp
      · refine congrArg (Option.map (Row.audioRow P)) (get?_other hdb rfl (fun row hhit => ?_)
          (Ne.symm hj))
        exact Option.some.inj (of_decide_eq_true hhit)
      · rw [System.attemptsOf_update hupdate, Option.filter_some_neg (by simpa [Job.begin, hk] using hj)]
        refine Function.update_eq_self_iff.mpr ?_
        rw [System.attemptsOf, hfree]
        rfl

/-- A claim becomes a task. -/
theorem view_runJob (hw : Workers s) {worker : WorkerId} {job : Job P}
    (hloop : s.loops worker = .claimed job) :
    (s.view j).Step (System.view
      { (s.setLoop worker .idle).setTask s.started (job.begin worker) with
        active := (worker, job.id) :: s.active, started := s.started + 1 } j) := by
  have ha : s.attempt (.inr worker) = some (job.begin worker) := by
    rw [System.attempt, hloop]
    rfl
  have hb : s.attempt (.inl s.started) = none := by
    by_contra hne
    obtain ⟨t, ht⟩ := Option.ne_none_iff_exists'.mp hne
    exact absurd (hw.lt_started _ t ht) (Nat.lt_irrefl _)
  have hattempts : ((s.setLoop worker .idle).setTask s.started (job.begin worker)).attemptsOf j =
      Function.update (Function.update (s.attemptsOf j) (.inr worker) none) (.inl s.started)
        ((some (job.begin worker)).filter fun t => t.job.id = j) := by
    rw [System.attemptsOf_update (System.attempt_setTask ..),
      System.attemptsOf_update (System.attempt_setLoop ..)]
    rfl
  by_cases hj : job.id = j
  · have hown : (some (job.begin worker)).filter (fun t => t.job.id = j) = some (job.begin worker) :=
      Option.filter_some_pos (decide_eq_true hj)
    rw [hown] at hattempts
    -- the attempt moves from the loop to the new task
    have hview : System.view
        { (s.setLoop worker .idle).setTask s.started (job.begin worker) with
          active := (worker, job.id) :: s.active, started := s.started + 1 } j = { s.view j with
        attempts := Function.update (Function.update (s.view j).attempts (.inr worker) none)
          (.inl s.started) (some (job.begin worker)) } :=
      JobView.ext rfl hattempts rfl rfl rfl
    rw [hview]
    refine .started _ _ _ (System.attemptsOf_eq_some.mpr ⟨ha, hj⟩) ?_
    show s.attemptsOf j _ = none
    rw [System.attemptsOf, hb]
    rfl
  · have hother : (some (job.begin worker)).filter (fun t => t.job.id = j) = none :=
      Option.filter_some_neg (decide_eq_false hj)
    rw [hother] at hattempts
    refine System.view_aside rfl (hattempts.trans ?_) rfl (fun p hmade hp => ⟨hmade, hp⟩)
      fun p _ hp => hp
    have hnone : s.attemptsOf j (.inr worker) = none := by
      rw [System.attemptsOf, ha, hother]
    have hnone' : s.attemptsOf j (.inl s.started) = none := by
      rw [System.attemptsOf, hb]
      rfl
    rw [← hnone, Function.update_eq_self, hnone, ← hnone', Function.update_eq_self]

/-- A task of another job acts. -/
theorem view_task_other {n : ℕ} {act : Act} {t t' : Task P} {db : Db} (ht : s.tasks n = some t)
    (hcall : System.Called (t.call act) s.db r db)
    (hnext : t.next st db.tables (r.any Reply.positive) act = some t') (hj : t.job.id ≠ j) :
    (s.view j).Step ((System.setTask { s with db } n t').view j) := by
  refine System.view_aside (congrArg (Option.map (Row.audioRow P)) ?_)
    (System.attemptsOf_other (a := .inl n) (t := t) ht hj (System.attempt_setTask ..) ?_) rfl
    (fun p hmade hp => ⟨hmade, hp⟩) fun p _ hp => hp
  · rcases hcall with ⟨-, -, hdb⟩ | ⟨c, r₀, hc, -, hstep⟩
    · exact congrArg (fun db : Db => db.tables.jobs.get? j) hdb
    · exact get?_other hstep (Task.call_hit hc).1 (Task.call_hit hc).2 (Ne.symm hj)
  · rintro u ⟨⟩
    rw [(Task.next_same hnext).2]

theorem view_fetched {n : ℕ} {t : Task P} {path : Path} {mtime : Time} (ht : s.tasks n = some t)
    (hpc : t.pc = .fetching) (hlatest : ∀ row, s.db.tables.jobs.get? t.job.id = some row →
      t.job.attempt = row.attempt) :
    (s.view j).Step (System.view
      { s.setTask n { t with pc := .recording, audioPath := some path } with
        files := Function.update s.files path (some mtime)
        madeFor := Function.update s.madeFor path (some t.job.id) } j) := by
  -- no other path changes hands
  have old : ∀ {p : Path} {k : JobId}, p ≠ path →
      Function.update s.madeFor path (some t.job.id) p = some k →
      Function.update s.files path (some mtime) p ≠ none →
      s.madeFor p = some k ∧ s.files p ≠ none := by
    intro p k hne hmade hp
    rw [Function.update_of_ne hne] at hmade hp
    exact ⟨hmade, hp⟩
  by_cases hj : t.job.id = j
  · subst hj
    have hview : System.view
        { s.setTask n { t with pc := .recording, audioPath := some path } with
          files := Function.update s.files path (some mtime)
          madeFor := Function.update s.madeFor path (some t.job.id) } t.job.id =
        { (s.view t.job.id).move (.inl n) { t with pc := .recording, audioPath := some path } with
          files := {p | Function.update s.madeFor path (some t.job.id) p = some t.job.id ∧
            Function.update s.files path (some mtime) p ≠ none} } :=
      JobView.ext rfl (System.attemptsOf_own (System.attempt_setTask ..) rfl) rfl rfl rfl
    rw [hview]
    refine .fetched _ t path _ (System.attemptsOf_eq_some.mpr ⟨ht, rfl⟩) hpc (fun p hp => ?_)
      fun row hrow => ?_
    · by_cases hne : p = path
      · exact .inr hne
      · exact .inl (old hne hp.1 hp.2)
    · obtain ⟨row, hget, rfl⟩ := Option.map_eq_some_iff.mp hrow
      exact hlatest row hget
  · refine System.view_aside rfl (System.attemptsOf_other (a := .inl n) (t := t) ht hj
      (System.attempt_setTask ..) ?_) rfl (fun p hmade hp => old ?_ hmade hp) fun p _ hp => hp
    · rintro u ⟨⟩
      rfl
    · rintro rfl
      exact hj (Option.some.inj ((Function.update_self p _ s.madeFor).symm.trans hmade))

theorem view_leave {n : ℕ} {t : Task P} {d : Bool} (ht : s.tasks n = some t)
    (hpc : t.pc = .leaving d) {s₁ : System P} (hs₁ : s₁ = if d then s.unlink t.audioPath else s)
    {active : List (WorkerId × JobId)} :
    (s.view j).Step
      (System.view { s₁ with tasks := Function.update s.tasks n none, active := active } j) := by
  have hfiles : ∀ {p}, s₁.files p ≠ none → s.files p ≠ none ∧ (d = true → t.audioPath ≠ some p) := by
    intro p hp
    subst hs₁
    cases d with
    | false => exact ⟨hp, nofun⟩
    | true => exact ⟨(files_of_unlink hp).2, fun _ => (files_of_unlink hp).1⟩
  have hattempt : System.attempt { s₁ with tasks := Function.update s.tasks n none, active := active } =
      Function.update s.attempt (.inl n) none := by
    subst hs₁
    funext a
    rcases a with m | w
    · by_cases hm : m = n
      · subst hm
        simp [System.attempt]
      · simp [System.attempt, hm]
    · cases d <;> rfl
  by_cases hj : t.job.id = j
  · subst hj
    have hview : System.view { s₁ with tasks := Function.update s.tasks n none, active := active }
        t.job.id = { s.view t.job.id with
          attempts := Function.update (s.view t.job.id).attempts (.inl n) none
          files := {p | s.madeFor p = some t.job.id ∧ s₁.files p ≠ none} } := by
      refine JobView.ext ?_ (System.attemptsOf_update hattempt) ?_ ?_ ?_ <;> subst hs₁ <;>
        cases d <;> rfl
    rw [hview]
    exact .left _ t d _ (System.attemptsOf_eq_some.mpr ⟨ht, rfl⟩) hpc
      (fun p hp => ⟨hp.1, (hfiles hp.2).1⟩) fun hd p hp => (hfiles hp.2).2 hd
  · refine System.view_aside ?_ (System.attemptsOf_other (a := .inl n) (t := t) ht hj hattempt
      fun u hu => by cases hu) ?_ (fun p hmade hp => ⟨?_, (hfiles hp).1⟩) fun p _ hp => ?_
    · subst hs₁; cases d <;> rfl
    · subst hs₁; cases d <;> rfl
    · subst hs₁; cases d <;> exact hmade
    · subst hs₁; cases d <;> exact hp

/-- **A step of the system, seen from one job.** -/
theorem view_step (ha : Admission st s) (hw : Workers s) (hstep : s.step st e = some (s', r))
    (hcalm : Calm ⟨s, e, r, s'⟩ = true) (ho : Orderly ⟨s, e, r, s'⟩) (j : JobId) :
    (s.view j).Step (s'.view j) := by
  have same : ∀ {u : System P}, u.db = s.db → u.attempt = s.attempt → u.files = s.files →
      u.madeFor = s.madeFor → u.cancelled = s.cancelled → u.submissions = s.submissions →
      (s.view j).Step (u.view j) := by
    intro u hdb hattempt hfiles hmadeFor hcancelled hsub
    refine System.view_aside (by rw [hdb]) (System.attemptsOf_congr hattempt) ?_
      (fun p hmade hp => ⟨hmadeFor ▸ hmade, hfiles ▸ hp⟩) fun p _ hp => hcancelled ▸ hp
    simp only [System.view, hsub]
  cases System.step_cases hstep with
  | submit new mtime hid haudio =>
      exact view_submit ha hid rfl rfl (System.attempt_congr rfl rfl) rfl fun p k hmade hp =>
        .inl ⟨hmade, hp⟩
  | upload new mtime path hid haudio hpath =>
      refine view_submit ha hid rfl rfl (System.attempt_congr rfl rfl) rfl fun p k hmade hp => ?_
      by_cases hne : p = path
      · subst hne
        exact .inr ⟨(Option.some.inj ((Function.update_self p _ s.madeFor).symm.trans hmade)).symm,
          haudio⟩
      · exact .inl ⟨(Function.update_of_ne hne ..).symm.trans hmade,
          fun hnone => hp ((Function.update_of_ne hne ..).trans hnone)⟩
  | statement id statement new pc s' hsub hs =>
      obtain rfl := (ha.submitted _ _ hsub).1
      exact view_statement hsub hs
  | commit id new db job hsub hdb =>
      obtain rfl := (ha.submitted _ _ hsub).1
      exact view_commit ha hsub hdb
  | cancel jobId clientId url stamp now db row hdb =>
      exact view_cancel hdb fun row hrow => ho.cancel jobId clientId stamp now row rfl hrow
  | cancelMissed jobId clientId url stamp now db hdb =>
      rcases step_keyed hdb rfl with ⟨-, rfl, -⟩ | ⟨hpos, -⟩
      · exact same rfl rfl rfl rfl rfl rfl
      · cases hpos
  | unlinkCancelled path hpath =>
      refine System.view_aside rfl rfl rfl (fun p hmade hp => ⟨hmade, (files_of_unlink hp).2⟩)
        fun p hp hmem => (List.mem_erase_of_ne ?_).mpr hmem
      rintro rfl
      exact (files_of_unlink hp).1 rfl
  | beginClaim worker hloop =>
      exact same rfl (System.attempt_setLoop_of_none (by rw [hloop]; rfl) rfl) rfl rfl rfl rfl
  | claimNone worker now lease ex locked pick db hloop hdb =>
      refine System.view_aside (congrArg (Option.map (Row.audioRow P)) ?_)
        (System.attemptsOf_congr (System.attempt_setLoop_of_none (s := { s with db })
          (by rw [hloop]; rfl) rfl)) rfl (fun p hmade hp => ⟨hmade, hp⟩) fun p _ hp => hp
      obtain ⟨⟨t, o⟩, hclaim, heq⟩ := Option.map_eq_some_iff.mp hdb
      obtain ⟨-, hr⟩ := Prod.mk.inj heq
      obtain rfl := Reply.row.inj hr
      rcases claim_cases hclaim with ⟨rfl, -⟩ | ⟨_, _, -, -, -, -, ho⟩
      · refine (get?_update hdb rfl).trans ?_
        simp [Call.hit]
      · cases ho
  | claimUndecodable worker now lease ex locked pick db row error hloop hdb hrow =>
      -- a calm step decodes what it claims
      replace hcalm : (rowToJob P row).isOk = true := hcalm
      rw [hrow] at hcalm
      cases hcalm
  | claimed worker now lease ex locked pick db row job hloop hdb hrow =>
      refine view_claim hloop hdb hrow fun k hk => ?_
      subst hk
      exact ho.claim worker now lease locked k rfl
  | runJob worker job hloop => exact view_runJob hw hloop
  | task n act t t' db r ht hcall hnext hact =>
      by_cases hj : t.job.id = j
      · subst hj
        refine view_task hw ht hcall hnext hact ?_
        rintro rfl
        cases hcalm
      · exact view_task_other ht hcall hnext hj
  | fetched n t path mtime ht hpc hpath => exact view_fetched ht hpc (ho.fetch n t path mtime rfl ht)
  | leave n t d ht hpc => exact view_leave ht hpc rfl
  | purge => cases hcalm
  | unlinkPurged path hpath =>
      exact System.view_aside rfl rfl rfl (fun p hmade hp => ⟨hmade, (files_of_unlink hp).2⟩)
        fun p _ hp => hp
  | sweep now path mtime hfile =>
      split
      · exact System.view_aside rfl rfl rfl (fun p hmade hp => ⟨hmade, (files_of_unlink hp).2⟩)
          fun p _ hp => hp
      · exact same rfl rfl rfl rfl rfl rfl
  | background c db r hc hdb =>
      exact System.view_aside (audioRow_background hdb hc) rfl rfl (fun p hmade hp => ⟨hmade, hp⟩)
        fun p _ hp => hp

end Step

/-! ### Runs -/

theorem tended_init (P : Pydantic) (j : JobId) : ((System.init P).view j).Tended := by
  have none' : ∀ {a t}, ((System.init P).view j).attempts a ≠ some t := by
    rintro (_ | _) t ht <;> cases ht
  constructor
  case row => exact fun a t ht => absurd ht none'
  case one => exact fun a b t u ht => absurd ht none'
  case owner => exact fun a t row ht => absurd ht none'
  case path => exact fun a t row ht => absurd ht none'
  case recording => exact fun a t row ht => absurd ht none'
  case fetched => exact fun a t ht => absurd ht none'
  case fetching => exact fun a t ht => absurd ht none'
  case done => exact fun a t row ht => absurd ht none'
  all_goals
    intros
    rename_i h
    first
      | exact absurd rfl h.2
      | contradiction

section Runs

variable {st : Settings} {h : SystemLog P} {s : System P}

/-- **In every such run the audio of every job is looked after.** -/
theorem tended (run : (systemMachine P st).Run h s) (hcalm : ∀ x ∈ h, Calm x = true)
    (horderly : ∀ x ∈ h, Orderly x) (j : JobId) : (s.view j).Tended := by
  revert hcalm horderly j
  refine Machine.Run.invariant (M := systemMachine P st)
    (I := fun h s => (∀ x ∈ h, Calm x = true) → (∀ x ∈ h, Orderly x) → ∀ j, (s.view j).Tended)
    (fun _ _ j => tended_init P j) ?_ run
  intro h s e s' r run ih hstep hcalm horderly j
  have hlast : (⟨s, e, r, s'⟩ : Entry (System P) (Event P) (Option (Reply P))) ∈
      h ++ [⟨s, e, r, s'⟩] := List.mem_append_right _ List.mem_cons_self
  have hv := ih (fun x hx => hcalm x (List.mem_append_left _ hx))
    (fun x hx => horderly x (List.mem_append_left _ hx)) j
  exact hv.step (view_step (admission run) (workers run) hstep (hcalm _ hlast) (horderly _ hlast) j)

/-- The files drawn for a job are gone once it is over and nothing of it in flight: no attempt, and
no cancellation that is about to unlink one. -/
def System.AudioGone (s : System P) : Prop :=
  ∀ j row, s.db.tables.jobs.get? j = some row → row.status.isTerminal = true →
    (∀ a t, s.attempt a = some t → t.job.id ≠ j) → (∀ p ∈ s.cancelled, s.madeFor p ≠ some j) →
      ∀ p, s.madeFor p = some j → s.files p = none

theorem JobView.Tended.gone {v : JobView P} (hv : v.Tended) {row : AudioRow} (hrow : v.row = some row)
    (hterm : row.status.isTerminal = true) (hattempts : ∀ a t, v.attempts a ≠ some t)
    (hpending : ∀ p ∈ v.files, p ∉ v.pending) {p : Path} : p ∉ v.files := by
  intro hp
  have committed : row.status = .completed ∨ row.status = .failed → False := fun hs => by
    obtain ⟨a, t, ht, -⟩ := hv.ended row hrow hs p hp
    exact hattempts a t ht
  cases hs : row.status with
  | completed => exact committed (.inl hs)
  | failed => exact committed (.inr hs)
  | cancelled =>
      rcases hv.cancelled row hrow hs p hp with hpend | ⟨a, t, ht, -⟩
      · exact hpending p hp hpend
      · exact hattempts a t ht
  | _ => rw [hs] at hterm; cases hterm

/-- **Audio is gone once a job is over.** -/
theorem audio_gone (run : (systemMachine P st).Run h s) (hcalm : ∀ x ∈ h, Calm x = true)
    (horderly : ∀ x ∈ h, Orderly x) : ∀ x ∈ h, x.after.AudioGone := by
  intro x hx j row hrow hterm hflight hpending p hmade
  obtain ⟨h₁, h₂, rfl⟩ := List.append_of_mem hx
  obtain ⟨run₁, hstep, -⟩ := run.split
  have hsub : ∀ y ∈ h₁ ++ [x], y ∈ h₁ ++ x :: h₂ := by
    intro y hy
    rcases List.mem_append.mp hy with hy | hy
    · exact List.mem_append_left _ hy
    · exact List.mem_append_right _ (List.mem_singleton.mp hy ▸ List.mem_cons_self)
  have hv := tended (.snoc run₁ hstep) (fun y hy => hcalm y (hsub y hy))
    (fun y hy => horderly y (hsub y hy)) j
  by_contra hfile
  refine hv.gone (congrArg (Option.map (Row.audioRow P)) hrow) hterm (fun a t ht => ?_)
    (fun q hq hpend => hpending q hpend hq.1) ⟨hmade, hfile⟩
  obtain ⟨ht, hid⟩ := System.attemptsOf_eq_some.mp ht
  exact hflight a t ht hid

end Runs

/-- The client cancels while an attempt is at work, and the attempt notices. -/
def noticedEvents : List (Event .strict) :=
  releasedEvents.take 13 ++ [.cancelJob "job" "client" ⟨"event", 6⟩ 6,
    .task 0 (.reportStage .transcribing 7), .task 0 .ask, .task 0 .leave]

theorem audio_gone_noticed : ∃ h s, (systemMachine .strict sampleSettings).Run h s ∧
    (s.db.tables.jobs.get? "job").any (fun row => row.status = .cancelled) = true ∧
    ∀ x ∈ h, x.after.AudioGone := by
  obtain ⟨h, s, run, hone⟩ := Machine.Run.of_exec (systemMachine .strict sampleSettings)
    noticedEvents
    (fun h s => (s.db.tables.jobs.get? "job").any (fun row => row.status = .cancelled) &&
      h.all fun x => Calm x && match x.event with
        | .cancelJob j .. => (x.before.db.tables.jobs.get? j).all fun row => row.status ≠ .queued
        | .claim .. => x.before.started = 0
        | .task n (.fetched ..) => (x.before.tasks n).all fun t =>
            (x.before.db.tables.jobs.get? t.job.id).all fun row => t.job.attempt = row.attempt
        | _ => true)
    (by decide +kernel)
  obtain ⟨hcancelled, hall⟩ := Bool.and_eq_true_iff.mp hone
  have check := fun x hx => Bool.and_eq_true_iff.mp (List.all_eq_true.mp hall x hx)
  refine ⟨h, s, run, hcancelled, audio_gone run (fun x hx => (check x hx).1) fun x hx => ?_⟩
  have hx' := (check x hx).2
  obtain ⟨h₁, h₂, rfl⟩ := List.append_of_mem hx
  constructor
  case cancel =>
    intro j client stamp now row he hrow hs
    rw [he] at hx'
    dsimp only at hx'
    rw [hrow] at hx'
    exact absurd hs (of_decide_eq_true hx')
  case claim =>
    intro w now lease locked j he n t ht
    rw [he] at hx'
    have hlt := (workers run.split.1).lt_started n t ht
    rw [of_decide_eq_true hx'] at hlt
    exact absurd hlt (Nat.not_lt_zero n)
  case fetch =>
    intro n t path mtime he ht row hrow
    rw [he] at hx'
    dsimp only at hx'
    rw [ht] at hx'
    have hx'' := hx'
    rw [Option.all_some, hrow] at hx''
    exact of_decide_eq_true hx''

/-- A loop that never begins to claim is idle. -/
theorem loop_idle {st : Settings} {h : SystemLog P} {s : System P}
    (run : (systemMachine P st).Run h s) {w : WorkerId} (hw : ∀ x ∈ h, x.event ≠ .beginClaim w) :
    s.loops w = .idle := by
  revert hw
  refine Machine.Run.invariant (M := systemMachine P st)
    (I := fun h s => (∀ x ∈ h, x.event ≠ .beginClaim w) → s.loops w = .idle) (fun _ => rfl) ?_ run
  intro h s e s' r _ ih hstep hne
  have hidle := ih fun x hx => hne x (List.mem_append_left _ hx)
  replace hne : e ≠ .beginClaim w := hne _ (List.mem_append_right _ List.mem_cons_self)
  have moved : ∀ {worker : WorkerId} {pc : LoopPc P} {u : System P}, u.loops = s.loops →
      s.loops worker ≠ .idle → (u.setLoop worker pc).loops w = .idle := by
    intro worker pc u hu hloop
    refine (Function.update_of_ne (?_ : w ≠ worker) ..).trans (hu ▸ hidle)
    rintro rfl
    exact hloop hidle
  cases System.step_cases hstep with
  | statement id statement new pc s' hsub hs => rw [hs.workers.2.1, hidle]
  | beginClaim worker hloop =>
      refine (Function.update_of_ne (?_ : w ≠ worker) ..).trans hidle
      rintro rfl
      exact hne rfl
  | claimNone worker now lease ex locked pick db hloop => exact moved rfl (by rw [hloop]; exact nofun)
  | claimUndecodable worker now lease ex locked pick db row error hloop =>
      exact moved rfl (by rw [hloop]; exact nofun)
  | claimed worker now lease ex locked pick db row job hloop =>
      exact moved rfl (by rw [hloop]; exact nofun)
  | runJob worker job hloop => exact moved rfl (by rw [hloop]; exact nofun)
  | leave n t d => cases d <;> exact hidle
  | sweep => split <;> exact hidle
  | _ => exact hidle

/-- The client cancels while the job waits for its retry: the copy its attempt fetched stays. -/
theorem retry_cancelled_keeps_audio : ∃ h s, (systemMachine .strict sampleSettings).Run h s ∧
    (∀ x ∈ h, Calm x = true) ∧ ¬ s.AudioGone := by
  obtain ⟨h, s, run, hone⟩ := Machine.Run.of_exec (systemMachine .strict sampleSettings)
    (releasedEvents ++ [.cancelJob "job" "client" ⟨"event", 6⟩ 6])
    (fun h s => h.all (fun x => Calm x && match x.event with
        | .beginClaim w => w = "worker"
        | _ => true) &&
      ((s.db.tables.jobs.get? "job").any (fun row => row.status.isTerminal) &&
      (s.started = 1 && (s.tasks 0).isNone && (s.loops "worker").job.isNone && s.cancelled.isEmpty &&
      (s.madeFor "copy.wav" = some "job" && (s.files "copy.wav").isSome))))
    (by decide +kernel)
  simp only [Bool.and_eq_true, List.all_eq_true, decide_eq_true_eq, Option.isNone_iff_eq_none,
    List.isEmpty_iff] at hone
  obtain ⟨hall, hover, ⟨⟨⟨hstarted, htask⟩, hloop⟩, hcancelled⟩, hmade, hfile⟩ := hone
  obtain ⟨row, hrow, hterm⟩ := (Option.any_eq_true _ _).mp hover
  refine ⟨h, s, run, fun x hx => (hall x hx).1, fun hgone => ?_⟩
  have hidle : ∀ a, s.attempt a = none := by
    rintro (n | w)
    · by_contra hne
      obtain ⟨t, ht⟩ := Option.ne_none_iff_exists'.mp hne
      have hn := (workers run).lt_started n t ht
      rw [hstarted, Nat.lt_one_iff] at hn
      subst hn
      rw [show s.tasks 0 = some t from ht] at htask
      cases htask
    · by_cases hw : w = "worker"
      · subst hw
        rw [System.attempt, hloop]
        rfl
      · rw [System.attempt, loop_idle run fun x hx he => ?_]
        · rfl
        · have hx' := (hall x hx).2
          rw [he] at hx'
          exact hw (of_decide_eq_true hx')
  rw [hgone "job" row hrow hterm (fun a t ht => ?_) (fun p hp => ?_) "copy.wav" hmade] at hfile
  · cases hfile
  · rw [hidle a] at ht
    cases ht
  · rw [hcancelled] at hp
    cases hp

end Vemsa.Jobs
