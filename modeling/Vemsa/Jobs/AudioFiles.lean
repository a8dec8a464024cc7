import Vemsa.Jobs.Admission

/-!
# Jobs — AudioFiles

Who may delete what.  Every path is drawn for one job, and whoever is about to delete a file, the
sweeper apart, has seen that its job is over; a job that is over stays so.  `Owned` is that argument
as an invariant, and `live_audio_iff` what it comes to: only the sweeper can take the audio of a job
that is queued or running, when the file is older than `orphanMaxAge`.
-/

namespace Vemsa.Jobs
open Vemsa.Support

variable {P : Pydantic}

/-! ### Jobs that are over -/

/-- `j` was created, and is terminal or gone. -/
def Over (j : JobId) (db : Db) : Prop :=
  j ∈ db.drawn ∧ ∀ row, db.tables.jobs.get? j = some row → row.isActive = false

section Store

variable {c : Call P} {db db' : Db} {r : Reply P} {j : JobId}

/-- **What is over stays over.** -/
theorem Over.step (ho : Over j db) (hstep : c.step db = some (db', r)) : Over j db' := by
  refine ⟨(drawn_step hstep j).mpr (.inl ho.1), fun row' hrow' => Bool.eq_false_iff.mpr fun ha => ?_⟩
  cases hb : db.tables.jobs.get? j with
  | none => exact (not_drawn_of_created hstep hb hrow').1 ho.1
  | some row =>
      have hch := change_step hstep j
      rw [hb, hrow'] at hch
      exact absurd (hch.active ha) (by simp [ho.2 row hb])

/-- A terminal transition that takes effect ends its job. -/
theorem over_of_settles {v : Verdict} (hstep : c.step db = some (db', r))
    (hv : c.settles r j = some v) (hdrawn : ∀ row, db.tables.jobs.get? j = some row → j ∈ db.drawn) :
    Over j db' := by
  have hch := change_step hstep j
  rw [hv] at hch
  generalize c.claims r j = ct at hch
  cases hb : db.tables.jobs.get? j with
  | none =>
      rw [hb] at hch
      cases hch
  | some row =>
      refine ⟨(drawn_step hstep j).mpr (.inl (hdrawn row hb)), fun row' hrow' => ?_⟩
      rw [hb, hrow'] at hch
      cases hch <;> rfl

/-- The row a cancellation returns. -/
theorem cancel_row {clientId : String} {url : Option String} {stamp : EventStamp} {now : Time}
    {row : Row} (hstep : (Call.cancel (P := P) j clientId url stamp now).step db =
      some (db', .row (some row))) :
    db'.tables.jobs.get? j = some row ∧ ∃ row₀, db.tables.jobs.get? j = some row₀ ∧
      row₀.cancellable j clientId = true ∧ row = row₀.cancel now := by
  have hget : db'.tables.jobs.get? j = some row := by
    obtain ⟨⟨t, o⟩, hc, heq⟩ := Option.map_eq_some_iff.mp hstep
    obtain ⟨rfl, hr⟩ := Prod.mk.inj heq
    obtain rfl := Reply.row.inj hr
    obtain ⟨⟨t', b⟩, -, heq⟩ := Option.map_eq_some_iff.mp hc
    obtain ⟨rfl, hrow⟩ := Prod.mk.inj heq
    split at hrow
    · exact hrow
    · cases hrow
  refine ⟨hget, ?_⟩
  rcases step_keyed hstep rfl with ⟨hneg, -⟩ | ⟨-, row₀, hrow₀, hhit⟩
  · cases hneg
  · refine ⟨row₀, hrow₀, hhit, ?_⟩
    rcases get?_step hstep j with h | ⟨_, _, _, hcreate, -⟩
    · rw [hget, hrow₀] at h
      simpa [Call.onRow, hhit, Call.set] using h
    · cases hcreate

/-- Where the recorded path of a row comes from. -/
theorem audioPath_step {row' : Row} (hstep : c.step db = some (db', r))
    (hrow' : db'.tables.jobs.get? j = some row') :
    (∃ row, db.tables.jobs.get? j = some row ∧ row'.audioPath = row.audioPath) ∨
    (∃ path now, c = .setAudioPath j path now ∧ row'.audioPath = some path) ∨
    ∃ new a b, c = .create new a b ∧ new.id = j ∧ row'.audioPath = new.audioPath := by
  rcases get?_step hstep j with hget | ⟨new, a, b, rfl, hid, -, -, hget⟩
  · rw [hrow'] at hget
    obtain ⟨row, hrow, hon⟩ := Option.bind_eq_some_iff.mp hget.symm
    have hid := Table.key_of_get? hrow
    cases c with
    | purgeOlderThan cutoff =>
        rw [Call.onRow] at hon
        split at hon
        · cases hon
        · exact .inl ⟨row, hrow, by rw [Option.some.inj hon]⟩
    | setAudioPath k path now =>
        obtain rfl := Option.some.inj hon
        split
        · rename_i hhit
          obtain rfl : k = j := (of_decide_eq_true hhit).symm.trans hid
          exact .inr (.inl ⟨path, now, rfl, rfl⟩)
        · exact .inl ⟨row, hrow, rfl⟩
    | _ =>
        obtain rfl := Option.some.inj hon
        refine .inl ⟨row, hrow, ?_⟩
        split <;> rfl
  · rw [hrow'] at hget
    obtain rfl := Option.some.inj hget
    exact .inr (.inr ⟨new, a, b, rfl, hid, rfl⟩)

end Store

/-! ### What a task does -/

/-- Processing goes on. -/
def TaskPc.isBusy : TaskPc → Bool
  | asking | leaving _ => false
  | _ => true

/-- **Everything a task can do**, a fetch apart. -/
inductive Task.Move (t : Task P) (act : Act) (db db' : Db) : TaskPc → Prop where
  | kept (pc : TaskPc) (hbusy : t.pc.isBusy = true) (hbusy' : pc.isBusy = true)
      (hrecording : t.pc ≠ .recording) (hrecording' : pc ≠ .recording)
      (hfetching : pc = .fetching → t.audioPath = none)
      (hdb : db' = db ∨ ∃ (c : Call P) (r : Reply P), c.isBackground = true ∧
        c.step db = some (db', r)) : Move t act db db' pc
  /-- the job is not the worker's any more -/
  | lost (pc : TaskPc) (hbusy : t.pc.isBusy = true) (hrecording : t.pc ≠ .recording)
      (hpc : pc = .asking ∨ pc = .failing) (hdb : db' = db)
      (hlost : ∀ row, db.tables.jobs.get? t.job.id = some row →
        row.heldBy t.job.id (some t.worker) = false) : Move t act db db' pc
  | asked (hpc : t.pc = .asking) (hdb : db' = db) :
      Move t act db db' (.leaving (isCancelled P t.job.id db.tables))
  | recorded (path : Path) (now : Time) (hpc : t.pc = .recording) (haudio : t.audioPath = some path)
      (hstep : (Call.setAudioPath (P := P) t.job.id path now).step db = some (db', .done)) :
      Move t act db db' .working
  | unrecorded (hpc : t.pc = .recording) (haudio : t.audioPath = none) (hdb : db' = db) :
      Move t act db db' .working
  | committed (c : Call P) (r : Reply P) (v : Verdict) (hpc : t.pc ≠ .recording)
      (hpc' : t.pc ≠ .fetching) (hstep : c.step db = some (db', r))
      (hcommits : c.commits t.job.id t.worker = true) (hv : c.settles r t.job.id = some v) :
      Move t act db db' (.leaving true)
  | released (now retryAfterS : Time) (hpc : t.pc = .releasing)
      (hstep : (Call.releaseForRetry (P := P) t.job.id t.worker now retryAfterS).step db =
        some (db', .hit true)) : Move t act db db' (.leaving false)
  | interrupted (hact : act = .interrupt) (hdb : db' = db) : Move t act db db' (.leaving false)

/-- A call that asks for the worker's job hits it, or says no and changes nothing. -/
theorem held_or_lost {t : Task P} {c : Call P} {db db' : Db} {r : Option (Reply P)}
    (hcall : System.Called (some c) db r db') (hkey : c.key = some t.job.id)
    (hhit : ∀ row, c.hit row = row.heldBy t.job.id (some t.worker)) :
    (∃ r₀, r = some r₀ ∧ r₀.positive = true ∧ c.step db = some (db', r₀)) ∨
    (r.any Reply.positive = false ∧ db' = db ∧ ∀ row, db.tables.jobs.get? t.job.id = some row →
      row.heldBy t.job.id (some t.worker) = false) := by
  rcases hcall with ⟨hc, -⟩ | ⟨c₀, r₀, hc, rfl, hstep⟩
  · cases hc
  · obtain rfl := Option.some.inj hc
    rcases step_keyed hstep hkey with ⟨hneg, hdb, hno⟩ | ⟨hpos, -⟩
    · exact .inr ⟨hneg, hdb, fun row hrow => (hhit row).symm.trans (hno row hrow)⟩
    · exact .inl ⟨r₀, rfl, hpos, hstep⟩

theorem Task.moves {st : Settings} {t t' : Task P} {db db' : Db} {r : Option (Reply P)} {act : Act}
    (hcall : System.Called (t.call act) db r db')
    (hnext : t.next st db'.tables (r.any Reply.positive) act = some t')
    (hact : ∀ path mtime, act ≠ .fetched path mtime) : t.Move act db db' t'.pc := by
  obtain ⟨worker, job, audioPath, pc⟩ := t
  unfold Task.next at hnext
  split at hnext
  all_goals first
    | (cases hnext; done)
    | (obtain rfl := Option.some.inj hnext
       rename_i hpc
       dsimp only at hpc ⊢)
  -- the heartbeat before the work
  case h_1 leaseForS now now' =>
    subst hpc
    rcases held_or_lost hcall rfl fun _ => rfl with ⟨r₀, rfl, hpos, hstep⟩ | ⟨hneg, hdb, hlost⟩
    · simp only [Option.any_some, hpos, Bool.not_true, Bool.false_eq_true, if_false]
      split
      · rename_i hnone
        exact .kept _ rfl rfl (by rintro ⟨⟩) (by rintro ⟨⟩) (fun _ => Option.isNone_iff_eq_none.mp hnone)
          (.inr ⟨_, r₀, rfl, hstep⟩)
      · exact .kept _ rfl rfl (by rintro ⟨⟩) (by rintro ⟨⟩) (by rintro ⟨⟩) (.inr ⟨_, r₀, rfl, hstep⟩)
    · simp only [hneg, Bool.not_false, if_true]
      exact .lost _ rfl (by rintro ⟨⟩) (.inl rfl) hdb hlost
  case h_2 => exact absurd rfl (hact _ _)
  -- the fetched path is written to the row
  case h_3 now =>
    subst hpc
    cases audioPath with
    | none => exact .unrecorded rfl rfl hcall.none.2
    | some path =>
        rcases hcall with ⟨hc, -⟩ | ⟨c₀, r₀, hc, -, hstep⟩
        · cases hc
        · obtain rfl := Option.some.inj hc
          have hdone := hstep
          obtain ⟨-, rfl⟩ := Prod.mk.inj (Option.some.inj hdone)
          exact .recorded path now rfl rfl hstep
  -- a stage report
  case h_4 stage now =>
    subst hpc
    rcases held_or_lost hcall rfl fun _ => rfl with ⟨r₀, rfl, hpos, hstep⟩ | ⟨hneg, hdb, hlost⟩
    · simp only [Option.any_some, hpos, if_true]
      exact .kept _ rfl rfl (by rintro ⟨⟩) (by rintro ⟨⟩) (by rintro ⟨⟩) (.inr ⟨_, r₀, rfl, hstep⟩)
    · simp only [hneg, Bool.false_eq_true, if_false]
      exact .lost _ rfl (by rintro ⟨⟩) (.inl rfl) hdb hlost
  -- the engine is done, or raised
  case h_5 =>
    subst hpc
    exact .kept _ rfl rfl (by rintro ⟨⟩) (by rintro ⟨⟩) (by rintro ⟨⟩) (.inl hcall.none.2)
  case h_6 | h_7 =>
    subst hpc
    split <;> exact .kept _ rfl rfl (by rintro ⟨⟩) (by rintro ⟨⟩) (by rintro ⟨⟩) (.inl hcall.none.2)
  -- the last stage report, then what `finish` raises
  case h_8 =>
    subst hpc
    rcases held_or_lost hcall rfl fun _ => rfl with ⟨r₀, rfl, hpos, hstep⟩ | ⟨hneg, hdb, hlost⟩
    · simp only [Option.any_some, hpos, if_true]
      exact .kept _ rfl rfl (by rintro ⟨⟩) (by rintro ⟨⟩) (by rintro ⟨⟩) (.inr ⟨_, r₀, rfl, hstep⟩)
    · simp only [hneg, Bool.false_eq_true, if_false]
      exact .lost _ rfl (by rintro ⟨⟩) (.inl rfl) hdb hlost
  case h_9 =>
    subst hpc
    exact .kept _ rfl rfl (by rintro ⟨⟩) (by rintro ⟨⟩) (by rintro ⟨⟩) (.inl hcall.none.2)
  -- `finish` and `fail` settle the job where they hit
  case h_10 | h_12 =>
    subst hpc
    rcases held_or_lost hcall rfl fun _ => rfl with ⟨r₀, rfl, hpos, hstep⟩ | ⟨hneg, hdb, hlost⟩
    · simp only [Option.any_some, hpos, if_true]
      exact .committed _ r₀ _ (by rintro ⟨⟩) (by rintro ⟨⟩) hstep (by simp [Call.commits])
        (Call.settles_of_verdict rfl rfl hpos)
    · simp only [hneg, Bool.false_eq_true, if_false]
      exact .lost _ rfl (by rintro ⟨⟩) (.inl rfl) hdb hlost
  -- a release queues the job again
  case h_11 now retryAfterS =>
    subst hpc
    rcases held_or_lost hcall rfl fun _ => rfl with ⟨r₀, rfl, hpos, hstep⟩ | ⟨hneg, hdb, hlost⟩
    · simp only [Option.any_some, hpos, if_true]
      have hhit := hstep
      obtain ⟨-, rfl⟩ := Prod.mk.inj (Option.some.inj hhit)
      exact .released now retryAfterS rfl (by rw [← show _ = true from hpos]; exact hstep)
    · simp only [hneg, Bool.false_eq_true, if_false]
      exact .lost _ rfl (by rintro ⟨⟩) (.inr rfl) hdb hlost
  -- the check whether the job was cancelled decides about the audio
  case h_13 =>
    subst hpc
    obtain rfl := hcall.none.2
    exact .asked rfl rfl
  -- a shutdown, at any point
  case h_15 =>
    have hnone : Task.call ⟨worker, job, audioPath, pc⟩ (.interrupt) = none := by cases pc <;> rfl
    rw [hnone] at hcall
    exact .interrupted rfl hcall.none.2

/-! ### Attempts in flight -/

/-- Only a fetch gives a task its audio. -/
theorem Task.next_audioPath {st : Settings} {t t' : Task P} {tables : Tables} {hit : Bool} {act : Act}
    (h : t.next st tables hit act = some t') (hact : ∀ path mtime, act ≠ .fetched path mtime) :
    t'.audioPath = t.audioPath := by
  unfold Task.next at h
  split at h
  case h_2 => exact absurd rfl (hact _ _)
  all_goals first
    | (cases h; done)
    | (obtain rfl := Option.some.inj h; rfl)

/-- The job a loop has claimed and started no task for. -/
def LoopPc.job : LoopPc P → Option (Job P)
  | claimed job => some job
  | _ => none

/-- The task a claim starts. -/
def Job.begin (worker : WorkerId) (job : Job P) : Task P := ⟨worker, job, job.audioPath, .renewing⟩

namespace System

/-- The attempts in flight: the tasks, and the claims no task was started for yet. -/
def attempt (s : System P) : ℕ ⊕ WorkerId → Option (Task P)
  | .inl n => s.tasks n
  | .inr worker => (s.loops worker).job.map (Job.begin worker)

variable {st : Settings} {s s' : System P} {e : Event P} {r : Option (Reply P)}

theorem attempt_congr (htasks : s'.tasks = s.tasks) (hloops : s'.loops = s.loops) :
    s'.attempt = s.attempt := by
  funext a
  cases a <;> simp only [attempt, htasks, hloops]

theorem attempt_setTask (s : System P) (n : ℕ) (t : Task P) :
    (s.setTask n t).attempt = Function.update s.attempt (.inl n) (some t) := by
  funext a
  rcases a with m | w
  · by_cases h : m = n
    · subst h
      simp [attempt, setTask]
    · simp [attempt, setTask, h]
  · simp [attempt, setTask]

theorem attempt_setLoop (s : System P) (worker : WorkerId) (pc : LoopPc P) :
    (s.setLoop worker pc).attempt =
      Function.update s.attempt (.inr worker) (pc.job.map (Job.begin worker)) := by
  funext a
  rcases a with m | w
  · simp [attempt, setLoop]
  · by_cases h : w = worker
    · subst h
      simp [attempt, setLoop]
    · simp [attempt, setLoop, h]

/-- **Where an attempt comes from**: another moment of it, its fetch, or its claim. -/
theorem Step.attempt (h : Step st s e r s') {a : ℕ ⊕ WorkerId} {t' : Task P}
    (ht' : s'.attempt a = some t') :
    (∃ b t, s.attempt b = some t ∧ t'.worker = t.worker ∧ t'.job = t.job ∧
      t'.audioPath = t.audioPath) ∨
    (∃ path, t'.audioPath = some path ∧ s'.madeFor path = some t'.job.id) ∨
    ∃ row, s'.db.tables.jobs.get? t'.job.id = some row ∧ t'.audioPath = row.audioPath := by
  have kept : ∀ {u : System P}, u.attempt = s.attempt → u.attempt a = some t' →
      ∃ b t, s.attempt b = some t ∧ t'.worker = t.worker ∧ t'.job = t.job ∧
        t'.audioPath = t.audioPath := by
    intro u hu ht
    exact ⟨a, t', hu ▸ ht, rfl, rfl, rfl⟩
  have unclaimed : ∀ {worker : WorkerId} {pc : LoopPc P} {u : System P}, pc.job = none →
      u.attempt = s.attempt → (u.setLoop worker pc).attempt a = some t' →
      ∃ b t, s.attempt b = some t ∧ t'.worker = t.worker ∧ t'.job = t.job ∧
        t'.audioPath = t.audioPath := by
    intro worker pc u hpc hu ht
    rw [attempt_setLoop, hpc] at ht
    exact kept hu (update_none_eq_some.mp ht).2
  cases h with
  | statement id statement new pc s' hsub hs =>
      obtain ⟨-, hloops, -, htasks, -⟩ := hs.workers
      exact .inl (kept (attempt_congr htasks hloops) ht')
  | beginClaim worker hloop => exact .inl (unclaimed rfl rfl ht')
  | claimNone worker now lease ex locked pick db hloop hdb =>
      exact .inl (unclaimed rfl (attempt_congr rfl rfl) ht')
  | claimUndecodable worker now lease ex locked pick db row error hloop hdb hrow =>
      exact .inl (unclaimed rfl (attempt_congr rfl rfl) ht')
  | claimed worker now lease ex locked pick db row job hloop hdb hrow =>
      rw [attempt_setLoop] at ht'
      rcases update_some_eq_some.mp ht' with ⟨-, rfl⟩ | ⟨-, ht'⟩
      · obtain ⟨hid, -, haudio, -⟩ := rowToJob_eq_ok hrow
        have hget : db.tables.jobs.get? job.id = some row := by
          rw [hid]
          exact (claim_step hdb).2.1
        exact .inr (.inr ⟨row, hget, haudio⟩)
      · exact .inl (kept (attempt_congr rfl rfl) ht')
  | runJob worker job hloop =>
      have hrun := attempt_setTask (s.setLoop worker .idle) s.started
        (job.begin worker)
      replace ht' : ((s.setLoop worker .idle).setTask s.started (job.begin worker)).attempt a =
        some t' :=
        (congrFun (attempt_congr rfl rfl) a).trans ht'
      rw [hrun] at ht'
      rcases update_some_eq_some.mp ht' with ⟨-, rfl⟩ | ⟨-, ht'⟩
      · refine .inl ⟨.inr worker, job.begin worker, ?_, rfl, rfl, rfl⟩
        simp [System.attempt, hloop, LoopPc.job]
      · exact .inl (unclaimed rfl rfl ht')
  | task n act t t₁ db r ht hcall hnext hact =>
      rw [attempt_setTask] at ht'
      rcases update_some_eq_some.mp ht' with ⟨-, rfl⟩ | ⟨-, ht'⟩
      · obtain ⟨hworker, hjob⟩ := Task.next_same hnext
        exact .inl ⟨.inl n, t, ht, hworker, hjob, Task.next_audioPath hnext hact⟩
      · exact .inl (kept (attempt_congr rfl rfl) ht')
  | fetched n t path mtime ht hpc hpath =>
      replace ht' : (s.setTask n { t with pc := .recording, audioPath := some path }).attempt a =
        some t' := (congrFun (attempt_congr rfl rfl) a).trans ht'
      rw [attempt_setTask] at ht'
      rcases update_some_eq_some.mp ht' with ⟨-, rfl⟩ | ⟨-, ht'⟩
      · exact .inr (.inl ⟨path, rfl, Function.update_self ..⟩)
      · exact .inl (kept rfl ht')
  | leave n t d ht hpc =>
      refine .inl ⟨a, t', ?_, rfl, rfl, rfl⟩
      rcases a with m | w
      · exact (update_none_eq_some.mp ht').2
      · cases d <;> exact ht'
  | sweep => split at ht' <;> exact .inl (kept rfl ht')
  | _ => exact .inl (kept (attempt_congr rfl rfl) ht')

end System

/-! ### The invariant -/

/-- **Every path has one job**, and only the files of a job that is over are about to be deleted. -/
structure Owned (s : System P) : Prop where
  row : ∀ j row, s.db.tables.jobs.get? j = some row → ∀ p ∈ row.audioPath, s.madeFor p = some j
  attempt : ∀ a t, s.attempt a = some t → ∀ p ∈ t.audioPath, s.madeFor p = some t.job.id
  cancelled : ∀ p ∈ s.cancelled, ∃ j, s.madeFor p = some j ∧ Over j s.db
  purged : ∀ p ∈ s.purged, ∃ j, s.madeFor p = some j ∧ Over j s.db
  leaving : ∀ n t, s.tasks n = some t → t.pc = .leaving true → Over t.job.id s.db

theorem owned_init : Owned (System.init P) := by
  constructor
  case attempt => rintro (_ | _) t ht <;> cases ht
  all_goals
    intros
    contradiction

/-- Only a task that fetched its audio records a path, and only its own. -/
theorem Event.call_setAudioPath {s : System P} {e : Event P} {j : JobId} {path : Path} {now : Time}
    (hc : e.call s = some (.setAudioPath j path now)) :
    ∃ n t, s.tasks n = some t ∧ t.pc = .recording ∧ t.job.id = j ∧ t.audioPath = some path := by
  cases e with
  | task n act =>
      obtain ⟨t, ht, hcall⟩ := Option.bind_eq_some_iff.mp hc
      unfold Task.call at hcall
      split at hcall
      case h_2 hpc =>
        obtain ⟨path', haudio, heq⟩ := Option.map_eq_some_iff.mp hcall
        obtain ⟨rfl, rfl, -⟩ := Call.setAudioPath.inj heq
        exact ⟨n, t, ht, hpc, rfl, haudio⟩
      all_goals cases hcall
  | create id statement =>
      cases statement <;> simp only [Event.call, reduceCtorEq] at hc
      split at hc <;> cases hc
  | background c' =>
      simp only [Event.call] at hc
      split at hc
      · rename_i hbg
        obtain rfl := Option.some.inj hc
        cases hbg
      · cases hc
  | _ =>
      simp only [Event.call] at hc
      repeat' split at hc
      all_goals cases hc

/-- Only a commit calls `create`. -/
theorem Event.call_create {s : System P} {e : Event P} {new : NewJob P} {a b : Option ℕ}
    (hc : e.call s = some (.create new a b)) :
    ∃ id, e = .create id .commit ∧ s.submissions id = some ⟨new, .inserted⟩ := by
  cases e with
  | create id statement =>
      cases statement <;> simp only [Event.call, reduceCtorEq] at hc
      split at hc
      · rename_i new' hsub
        obtain ⟨rfl, -, -⟩ := Call.create.inj (Option.some.inj hc)
        exact ⟨id, rfl, hsub⟩
      · cases hc
  | _ => exact absurd rfl (Event.call_ne_create (fun _ _ h => by cases h) hc new a b)

section Step

variable {st : Settings} {s s' : System P} {e : Event P} {r : Option (Reply P)} {j : JobId}

theorem Over.system_step (ho : Over j s.db) (hstep : s.step st e = some (s', r)) : Over j s'.db := by
  rcases System.step_db hstep with ⟨-, -, hdb⟩ | ⟨c, r₀, -, -, hcall⟩
  · rwa [hdb]
  · exact ho.step hcall

/-- A job found cancelled is over. -/
theorem over_of_isCancelled {db : Db} (hc : isCancelled P j db.tables = true)
    (hdrawn : ∀ row, db.tables.jobs.get? j = some row → j ∈ db.drawn) : Over j db := by
  unfold isCancelled get at hc
  split at hc
  · rename_i job hget
    split at hget
    · cases hget
    · rename_i row hrow
      obtain ⟨hrow, -⟩ := Option.filter_eq_some_iff.mp hrow
      refine ⟨hdrawn row hrow, fun row' hrow' => ?_⟩
      obtain rfl := Option.some.inj (hrow.symm.trans hrow')
      cases hjob : rowToJob P row with
      | error e =>
          rw [hjob] at hget
          cases hget
      | ok job' =>
          rw [hjob] at hget
          obtain rfl := Option.some.inj (Except.ok.inj hget)
          obtain ⟨-, -, -, hstatus, -⟩ := rowToJob_eq_ok hjob
          rw [← isTerminal_iff, ← hstatus, of_decide_eq_true hc]
          rfl
  · cases hc

/-- The statements of a submission delete nothing later. -/
theorem System.OnStatement.pending {new : NewJob P} {pc : SubmissionPc} {statement : Statement}
    (h : OnStatement st s new pc statement s') :
    s'.cancelled = s.cancelled ∧ s'.purged = s.purged := by
  cases h with
  | admitted id => split <;> exact ⟨rfl, rfl⟩
  | refused e => split <;> exact ⟨rfl, rfl⟩
  | _ => exact ⟨rfl, rfl⟩

/-- What is about to be deleted when a task leaves, a cancellation is answered, or rows are purged. -/
theorem Owned.pending (ho : Owned s) (hstep : s.step st e = some (s', r))
    (hdrawn : ∀ j row, s.db.tables.jobs.get? j = some row → j ∈ s.db.drawn) :
    (∀ p ∈ s'.cancelled, p ∈ s.cancelled ∨ ∃ j, s'.madeFor p = some j ∧ Over j s'.db) ∧
    (∀ p ∈ s'.purged, p ∈ s.purged ∨ ∃ j, s'.madeFor p = some j ∧ Over j s'.db) ∧
    ∀ n t', s'.tasks n = some t' → t'.pc = .leaving true →
      s.tasks n = some t' ∨ Over t'.job.id s'.db := by
  have moved : ∀ {m n : ℕ} {t t' : Task P}, Function.update s.tasks m (some t) n = some t' →
      t.pc ≠ .leaving true → t'.pc = .leaving true →
      s.tasks n = some t' ∨ Over t'.job.id s'.db := by
    intro m n t t' ht' hne hpc
    rcases update_some_eq_some.mp ht' with ⟨-, rfl⟩ | ⟨-, ht'⟩
    · exact absurd hpc hne
    · exact .inl ht'
  cases System.step_cases hstep with
  | cancel jobId clientId url stamp now db row hdb =>
      refine ⟨fun p hp => ?_, fun p hp => .inl hp, fun n t' ht' _ => .inl ht'⟩
      rcases List.mem_append.mp hp with hp | hp
      · obtain ⟨-, row₀, hrow₀, -, rfl⟩ := cancel_row hdb
        split at hp
        · exact .inr ⟨jobId, ho.row jobId row₀ hrow₀ p (Option.mem_toList.mp hp),
            over_of_settles hdb (Call.settles_of_verdict rfl rfl rfl) (hdrawn jobId)⟩
        · cases hp
      · exact .inl hp
  | purge cutoff db rows paths hdb hpaths =>
      refine ⟨fun p hp => .inl hp, fun p hp => ?_, fun n t' ht' _ => .inl ht'⟩
      rcases List.mem_append.mp hp with hp | hp
      · obtain ⟨row, hrow, haudio⟩ := hpaths p hp
        have hdel := hdb
        obtain ⟨rfl, hrows⟩ := Prod.mk.inj (Option.some.inj hdel)
        obtain rfl := Reply.rows.inj hrows
        obtain ⟨hmem, hexp⟩ := List.mem_filter.mp hrow
        have hget := Table.get?_of_mem hmem
        refine .inr ⟨row.id, ho.row _ row hget p haudio, hdrawn _ row hget, fun row' hrow' => ?_⟩
        replace hrow' : (s.db.tables.jobs.delete (Row.expired cutoff)).get? row.id = some row' :=
          hrow'
        rw [Table.get?_delete, hget, Option.filter_some_neg (by simp [hexp])] at hrow'
        cases hrow'
      · exact .inl hp
  | task n act t t' db r ht hcall hnext hact =>
      refine ⟨fun p hp => .inl hp, fun p hp => .inl hp, fun m u hu hpc => ?_⟩
      rcases update_some_eq_some.mp hu with ⟨rfl, rfl⟩ | ⟨-, hu⟩
      · have hmove := Task.moves hcall hnext hact
        rw [hpc] at hmove
        rw [(Task.next_same hnext).2]
        generalize he : TaskPc.leaving true = pc at hmove
        refine .inr ?_
        cases hmove with
        | committed c r v _ _ hstep _ hv => exact over_of_settles hstep hv (hdrawn _)
        | asked _ hdb =>
            subst hdb
            exact over_of_isCancelled (TaskPc.leaving.inj he).symm (hdrawn _)
        | kept _ _ hbusy => subst he; cases hbusy
        | lost _ _ _ hpc' => subst he; rcases hpc' with h | h <;> cases h
        | _ => cases he
      · exact .inl hu
  | fetched n t path mtime ht hpc hpath =>
      exact ⟨fun p hp => .inl hp, fun p hp => .inl hp, fun m u hu => moved hu nofun⟩
  | runJob worker job hloop =>
      exact ⟨fun p hp => .inl hp, fun p hp => .inl hp, fun m u hu => moved hu nofun⟩
  | leave n t d ht hpc =>
      refine ⟨fun p hp => .inl ?_, fun p hp => .inl ?_, fun m u hu _ =>
        .inl (update_none_eq_some.mp hu).2⟩ <;> cases d <;> exact hp
  | unlinkCancelled path hpath =>
      exact ⟨fun p hp => .inl (List.mem_of_mem_erase hp), fun p hp => .inl hp,
        fun n t' ht' _ => .inl ht'⟩
  | unlinkPurged path hpath =>
      exact ⟨fun p hp => .inl hp, fun p hp => .inl (List.mem_of_mem_erase hp),
        fun n t' ht' _ => .inl ht'⟩
  | statement id statement new pc s' hsub hs =>
      obtain ⟨hcancelled, hpurged⟩ := hs.pending
      exact ⟨fun p hp => .inl (hcancelled ▸ hp), fun p hp => .inl (hpurged ▸ hp),
        fun n t' ht' _ => .inl (hs.workers.2.2.2.1 ▸ ht')⟩
  | sweep now path mtime hfile =>
      refine ⟨fun p hp => .inl ?_, fun p hp => .inl ?_, fun m u hu _ => .inl ?_⟩
      · split at hp <;> exact hp
      · split at hp <;> exact hp
      · split at hu <;> exact hu
  | _ => exact ⟨fun p hp => .inl hp, fun p hp => .inl hp, fun n t' ht' _ => .inl ht'⟩

theorem Owned.step (ho : Owned s) (ha : Admission st s) (hstep : s.step st e = some (s', r))
    (hdrawn : ∀ j row, s.db.tables.jobs.get? j = some row → j ∈ s.db.drawn) : Owned s' := by
  have h := System.step_cases hstep
  obtain ⟨hcancelled, hpurged, hleaving⟩ := ho.pending hstep hdrawn
  have old : ∀ {p}, (∃ j, s.madeFor p = some j ∧ Over j s.db) →
      ∃ j, s'.madeFor p = some j ∧ Over j s'.db := fun ⟨j, hp, hj⟩ =>
    ⟨j, (h.madeFor hp).1, hj.system_step hstep⟩
  have hrow : ∀ j row, s'.db.tables.jobs.get? j = some row → ∀ p ∈ row.audioPath,
      s'.madeFor p = some j := by
    intro j row' hrow' p hp
    rcases System.step_db hstep with ⟨-, -, hdb⟩ | ⟨c, r₀, hc, -, hcall⟩
    · exact (h.madeFor (ho.row j row' (hdb ▸ hrow') p hp)).1
    · rcases audioPath_step hcall hrow' with ⟨row, hrow, haudio⟩ | ⟨path, now, rfl, haudio⟩ |
        ⟨new, a, b, rfl, rfl, haudio⟩
      · exact (h.madeFor (ho.row j row hrow p (haudio ▸ hp))).1
      · obtain ⟨n, t, ht, -, rfl, haudio'⟩ := Event.call_setAudioPath hc
        exact (h.madeFor (ho.attempt (.inl n) t ht p (haudio'.trans (haudio.symm.trans hp)))).1
      · obtain ⟨id, -, hsub⟩ := Event.call_create hc
        obtain rfl := (ha.submitted _ _ hsub).1
        exact (h.madeFor (ha.upload _ _ hsub p (haudio ▸ hp))).1
  constructor
  case row =>
    exact hrow
  case attempt =>
    intro a t' ht' p hp
    rcases h.attempt ht' with ⟨b, t, ht, -, hjob, haudio⟩ | ⟨path, haudio, hmade⟩ |
      ⟨row, hrow', haudio⟩
    · rw [hjob]
      exact (h.madeFor (ho.attempt b t ht p (haudio ▸ hp))).1
    · obtain rfl := Option.some.inj (haudio.symm.trans hp)
      exact hmade
    · exact hrow _ row hrow' p (haudio ▸ hp)
  case cancelled =>
    exact fun p hp => (hcancelled p hp).elim (fun hp => old (ho.cancelled p hp)) id
  case purged =>
    exact fun p hp => (hpurged p hp).elim (fun hp => old (ho.purged p hp)) id
  case leaving =>
    exact fun n t' ht' hpc => (hleaving n t' ht' hpc).elim
      (fun ht => (ho.leaving n t' ht hpc).system_step hstep) id

end Step

/-- **In every run whoever deletes a file has seen its job end.** -/
theorem owned {st : Settings} {h : SystemLog P} {s : System P}
    (run : (systemMachine P st).Run h s) : Owned s := by
  refine Machine.Run.invariant (M := systemMachine P st) (I := fun _ s => Owned s) owned_init ?_ run
  intro h s e s' r run ho hstep
  refine ho.step (admission run) hstep fun j row hrow => ?_
  have hst := standing (store_run run) j
  rw [hrow] at hst
  cases hst with
  | present _ hd => exact hd

/-! ### Deletions -/

section Deletions

variable {st : Settings} {s s' : System P} {e : Event P} {r : Option (Reply P)} {p : Path}

/-- The row a path is recorded in is the row of the job it was drawn for. -/
theorem Owned.inactive (ho : Owned s) {j : JobId} (hp : s.madeFor p = some j) (hover : Over j s.db)
    {k : JobId} {row : Row} (hrow : s.db.tables.jobs.get? k = some row)
    (haudio : row.audioPath = some p) : row.isActive = false := by
  obtain rfl := Option.some.inj (hp.symm.trans (ho.row k row hrow p haudio))
  exact hover.2 row hrow

theorem files_unlink {path : Option Path} {mtime : Time} (hfile : s.files p = some mtime)
    (hgone : (s.unlink path).files p = none) : path = some p := by
  by_contra hne
  have hsame : (s.unlink path).files p = s.files p := if_neg hne
  rw [hsame, hfile] at hgone
  cases hgone

/-- **Who deletes what**: the sweeper an old file, and everybody else one whose job is over. -/
theorem Owned.deleted (ho : Owned s) (ha : Admission st s) (h : System.Step st s e r s')
    {mtime : Time} (hfile : s.files p = some mtime) (hgone : s'.files p = none) :
    (∃ now, e = .sweep now p ∧ mtime < now - orphanMaxAge) ∨
    ∀ k row, s.db.tables.jobs.get? k = some row → row.audioPath = some p → row.isActive = false := by
  have kept : ∀ {u : System P}, u.files p = none → u.files = s.files → False := by
    intro u hu he
    rw [he, hfile] at hu
    cases hu
  -- an upload is deleted by its own submission only if that never made a row
  have upload : ∀ {new : NewJob P} {pc : SubmissionPc}, s.submissions new.id = some ⟨new, pc⟩ →
      pc.outcome ≠ some (.ok new.id) → new.audioPath = some p →
      ∀ k row, s.db.tables.jobs.get? k = some row → row.audioPath = some p →
        row.isActive = false := by
    intro new pc hsub hout haudio k row hrow hp
    obtain rfl := Option.some.inj ((ha.upload _ _ hsub p haudio).symm.trans (ho.row k row hrow p hp))
    obtain ⟨b, hb, hout', -⟩ := ha.stored _ row hrow
    obtain rfl := Option.some.inj (hsub.symm.trans hb)
    exact absurd hout' hout
  cases h with
  | statement id statement new pc s' hsub hs =>
      obtain rfl := (ha.submitted _ _ hsub).1
      cases hs with
      | admitted id =>
          split at hgone
          · exact (kept hgone rfl).elim
          · rename_i hid
            refine .inr (upload hsub (fun h => hid ?_) (files_unlink hfile hgone))
            exact Except.ok.inj (Option.some.inj h)
      | refused e =>
          split at hgone
          · exact .inr (upload hsub nofun (files_unlink hfile hgone))
          · exact (kept hgone rfl).elim
      | _ => exact (kept hgone rfl).elim
  | upload new mtime' path hid haudio hpath =>
      replace hgone : Function.update s.files path (some mtime') p = none := hgone
      by_cases hp : p = path
      · rw [hp, Function.update_self] at hgone
        cases hgone
      · rw [Function.update_of_ne hp, hfile] at hgone
        cases hgone
  | fetched n t path mtime' ht hpc hpath =>
      replace hgone : Function.update s.files path (some mtime') p = none := hgone
      by_cases hp : p = path
      · rw [hp, Function.update_self] at hgone
        cases hgone
      · rw [Function.update_of_ne hp, hfile] at hgone
        cases hgone
  | unlinkCancelled path hpath =>
      obtain rfl := Option.some.inj (files_unlink (s := s) hfile hgone)
      obtain ⟨j, hj, hover⟩ := ho.cancelled _ hpath
      exact .inr fun k row => ho.inactive hj hover
  | unlinkPurged path hpath =>
      obtain rfl := Option.some.inj (files_unlink (s := s) hfile hgone)
      obtain ⟨j, hj, hover⟩ := ho.purged _ hpath
      exact .inr fun k row => ho.inactive hj hover
  | leave n t d ht hpc =>
      cases d with
      | false => exact (kept hgone rfl).elim
      | true =>
          have haudio := files_unlink (s := s) hfile hgone
          exact .inr fun k row =>
            ho.inactive (ho.attempt (.inl n) t ht p haudio) (ho.leaving n t ht hpc)
  | sweep now path mtime' hmtime =>
      split at hgone
      · rename_i hold
        obtain rfl := Option.some.inj (files_unlink (s := s) hfile hgone)
        obtain rfl := Option.some.inj (hfile.symm.trans hmtime)
        exact .inl ⟨now, rfl, hold⟩
      · exact (kept hgone rfl).elim
  | _ => exact (kept hgone rfl).elim

/-- The step deletes the recorded audio of a job that is queued or running. -/
def DeletesLive (x : Entry (System P) (Event P) (Option (Reply P))) : Prop :=
  ∃ j row p, x.before.db.tables.jobs.get? j = some row ∧ row.isActive = true ∧
    row.audioPath = some p ∧ (x.before.files p).isSome = true ∧ x.after.files p = none

/-- **In which runs no live audio is deleted**: those in which the sweeper never comes upon the
recorded audio of an active job after `orphanMaxAge`. -/
theorem live_audio_iff {h : SystemLog P} (run : (systemMachine P st).Run h s) :
    (∀ x ∈ h, ¬ DeletesLive x) ↔
      ∀ x ∈ h, ∀ now p mtime j row, x.event = .sweep now p → x.before.files p = some mtime →
        x.before.db.tables.jobs.get? j = some row → row.isActive = true → row.audioPath = some p →
          now - orphanMaxAge ≤ mtime := by
  constructor
  · rintro hnone x hx now p mtime j row he hfile hrow hactive haudio
    by_contra hold
    refine hnone x hx ⟨j, row, p, hrow, hactive, haudio, by rw [hfile]; rfl, ?_⟩
    have hstep := run.step_of_mem hx
    obtain ⟨s₀, e, r, s₁⟩ := x
    obtain rfl := he
    have hsweep : s₀.step st (.sweep now p) = some (s₁, r) := hstep
    cases System.step_cases hsweep with
    | sweep _ _ mtime' hfile' =>
        obtain rfl := Option.some.inj (hfile.symm.trans hfile')
        rw [if_pos (not_le.mp hold)]
        exact if_pos rfl
  · rintro hyoung x hx ⟨j, row, p, hrow, hactive, haudio, hfile, hgone⟩
    obtain ⟨mtime, hmtime⟩ := Option.isSome_iff_exists.mp hfile
    obtain ⟨h₁, h₂, rfl⟩ := List.append_of_mem hx
    obtain ⟨run₁, hstep, -⟩ := run.split
    rcases (owned run₁).deleted (admission run₁) (System.step_cases hstep) hmtime hgone with
      ⟨now, he, hold⟩ | hover
    · exact absurd (hyoung x hx now p mtime j row he hmtime hrow hactive haudio) (not_le.mpr hold)
    · rw [hover j row hrow haudio] at hactive
      cases hactive

end Deletions

/-- An upload that waits in the queue while the sweeper comes by. -/
def sweptEvents (now : Time) : List (Event .strict) :=
  (repeatedEvents .ofUpload).take 7 ++ [.sweep now "first.wav"]

theorem live_audio_iff_young : ∃ h s, (systemMachine .strict sampleSettings).Run h s ∧
    (s.files "first.wav").isSome = true ∧
    ((∀ x ∈ h, ¬ DeletesLive x) ↔
      ∀ x ∈ h, ∀ now p mtime j row, x.event = .sweep now p → x.before.files p = some mtime →
        x.before.db.tables.jobs.get? j = some row → row.isActive = true → row.audioPath = some p →
          now - orphanMaxAge ≤ mtime) := by
  obtain ⟨h, s, run, hfile⟩ := Machine.Run.of_exec (systemMachine .strict sampleSettings)
    (sweptEvents orphanMaxAge) (fun _ s => (s.files "first.wav").isSome) (by decide +kernel)
  exact ⟨h, s, run, hfile, live_audio_iff run⟩

/-- After a day in the queue the upload is gone, and the job still waits for it. -/
theorem queued_audio_swept : ∃ h s, (systemMachine .strict sampleSettings).Run h s ∧
    ∃ x ∈ h, DeletesLive x := by
  obtain ⟨h, s, run, hone⟩ := Machine.Run.of_exec (systemMachine .strict sampleSettings)
    (sweptEvents (orphanMaxAge + 1))
    (fun h _ => h.any fun x =>
      (x.before.db.tables.jobs.get? "first").any
          (fun row => row.isActive && row.audioPath = some "first.wav") &&
        ((x.before.files "first.wav").isSome && (x.after.files "first.wav").isNone))
    (by decide +kernel)
  obtain ⟨x, hx, hlive⟩ := List.any_eq_true.mp hone
  simp only [Bool.and_eq_true, Option.isNone_iff_eq_none] at hlive
  obtain ⟨hrow, hfile, hgone⟩ := hlive
  obtain ⟨row, hrow, hlive⟩ := (Option.any_eq_true _ _).mp hrow
  simp only [Bool.and_eq_true, decide_eq_true_eq] at hlive
  exact ⟨h, s, run, x, hx, "first", row, "first.wav", hrow, hlive.1, hlive.2, hfile, hgone⟩

end Vemsa.Jobs
