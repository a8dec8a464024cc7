import Vemsa.Jobs.Queue

/-!
# Jobs — Attempts

A lease names a worker, not an attempt, so nothing in the tables tells two attempts of one worker
apart.  What does is the claim loop: it excludes the jobs the worker still has in flight, and a job
leaves `_active` only when its task is over.  `Workers` is that discipline as an invariant of the
system; with it, a row held by the worker of an attempt is held by that attempt
(`commit_is_latest`).
-/

namespace Vemsa.Jobs
open Vemsa.Support

variable {P : Pydantic}

abbrev SystemLog (P : Pydantic) := List (Entry (System P) (Event P) (Option (Reply P)))

/-! ### Calls that are not claims -/

/-- A row that is running after a step that did not claim it was held by the same worker before,
at the same attempt. -/
theorem held_of_not_claimed {c : Call P} {db db' : Db} {r : Reply P} {j : JobId} {row' : Row}
    (hstep : c.step db = some (db', r)) (hclaim : c.claims r j = none)
    (hrow' : db'.tables.jobs.get? j = some row') (hrun : row'.status = .running) :
    ∃ row, db.tables.jobs.get? j = some row ∧ row.status = .running ∧
      row.leaseOwner = row'.leaseOwner ∧ row.attempt = row'.attempt := by
  have hc := change_step hstep j
  rw [hclaim, hrow'] at hc
  generalize db.tables.jobs.get? j = o at hc ⊢
  generalize c.settles r j = v at hc
  cases hc with
  | recorded row | staged row | renewed row => exact ⟨row, rfl, hrun, rfl, rfl⟩
  | kept => exact ⟨row', rfl, hrun, rfl, rfl⟩
  | _ => cases hrun

theorem Task.call_claims {t : Task P} {act : Act} {c : Call P} (hc : t.call act = some c)
    (r : Reply P) (j : JobId) : c.claims r j = none := by
  unfold Task.call at hc
  split at hc
  case h_2 =>
    obtain ⟨path, -, rfl⟩ := Option.map_eq_some_iff.mp hc
    rfl
  case h_8 => cases hc
  all_goals
    obtain rfl := Option.some.inj hc
    rfl

theorem Call.claims_of_isBackground {c : Call P} (hc : c.isBackground = true) (r : Reply P)
    (j : JobId) : c.claims r j = none := by
  cases c <;> first | rfl | cases hc

/-- A task keeps its worker and its job. -/
theorem Task.next_same {st : Settings} {t t' : Task P} {tables : Tables} {hit : Bool} {act : Act}
    (h : t.next st tables hit act = some t') : t'.worker = t.worker ∧ t'.job = t.job := by
  unfold Task.next at h
  split at h
  all_goals first
    | (cases h; done)
    | (obtain rfl := Option.some.inj h; exact ⟨rfl, rfl⟩)

/-! ### The invariant -/

/-- **The in-flight discipline.** -/
structure Workers (s : System P) : Prop where
  lt_started : ∀ n t, s.tasks n = some t → n < s.started
  active : ∀ n t, s.tasks n = some t → (t.worker, t.job.id) ∈ s.active
  claiming : ∀ w ex, s.loops w = .claiming ex → ∀ n t, s.tasks n = some t → t.worker = w →
    t.job.id ∈ ex
  claimed : ∀ w job, s.loops w = .claimed job → ∀ n t, s.tasks n = some t → t.worker = w →
    t.job.id ≠ job.id
  one : ∀ n m t u, s.tasks n = some t → s.tasks m = some u → t.worker = u.worker →
    t.job.id = u.job.id → n = m
  attempt : ∀ n t, s.tasks n = some t → ∀ row, s.db.tables.jobs.get? t.job.id = some row →
    row.status = .running → row.leaseOwner = some t.worker → row.attempt = t.job.attempt
  claimed_attempt : ∀ w job, s.loops w = .claimed job → ∀ row,
    s.db.tables.jobs.get? job.id = some row → row.status = .running →
      row.leaseOwner = some w → row.attempt = job.attempt

theorem workers_init : Workers (System.init P) := by
  constructor <;> intros <;> contradiction

section Step

variable {st : Settings} {s s' : System P} {e : Event P} {r : Option (Reply P)}

/-- Steps that start no task, claim nothing, and keep the loops. -/
theorem Workers.frame (hw : Workers s) (hloops : s'.loops = s.loops)
    (hstarted : s'.started = s.started)
    (htasks : ∀ n t', s'.tasks n = some t' → ∃ t, s.tasks n = some t ∧ t'.worker = t.worker ∧
      t'.job = t.job)
    (hactive : ∀ n t', s'.tasks n = some t' → (t'.worker, t'.job.id) ∈ s.active →
      (t'.worker, t'.job.id) ∈ s'.active)
    (hheld : ∀ j row', s'.db.tables.jobs.get? j = some row' → row'.status = .running →
      ∃ row, s.db.tables.jobs.get? j = some row ∧ row.status = .running ∧
        row.leaseOwner = row'.leaseOwner ∧ row.attempt = row'.attempt) : Workers s' where
  lt_started n t' ht' := by
    obtain ⟨t, ht, -⟩ := htasks n t' ht'
    rw [hstarted]
    exact hw.lt_started n t ht
  active n t' ht' := by
    obtain ⟨t, ht, hworker, hjob⟩ := htasks n t' ht'
    refine hactive n t' ht' ?_
    rw [hworker, hjob]
    exact hw.active n t ht
  claiming w ex hloop n t' ht' hworker := by
    obtain ⟨t, ht, hworker', hjob⟩ := htasks n t' ht'
    rw [hjob]
    exact hw.claiming w ex (hloops ▸ hloop) n t ht (hworker' ▸ hworker)
  claimed w job hloop n t' ht' hworker := by
    obtain ⟨t, ht, hworker', hjob⟩ := htasks n t' ht'
    rw [hjob]
    exact hw.claimed w job (hloops ▸ hloop) n t ht (hworker' ▸ hworker)
  one n m t' u' ht' hu' hworker hid := by
    obtain ⟨t, ht, hwt, hjt⟩ := htasks n t' ht'
    obtain ⟨u, hu, hwu, hju⟩ := htasks m u' hu'
    exact hw.one n m t u ht hu (by rw [← hwt, ← hwu, hworker]) (by rw [← hjt, ← hju, hid])
  attempt n t' ht' row' hrow' hrun howner := by
    obtain ⟨t, ht, hwt, hjt⟩ := htasks n t' ht'
    obtain ⟨row, hrow, hrun', howner', hattempt⟩ := hheld _ row' hrow' hrun
    rw [← hattempt, hjt]
    rw [hjt] at hrow
    exact hw.attempt n t ht row hrow hrun' (by rw [howner', howner, hwt])
  claimed_attempt w job hloop row' hrow' hrun howner := by
    obtain ⟨row, hrow, hrun', howner', hattempt⟩ := hheld _ row' hrow' hrun
    rw [← hattempt]
    exact hw.claimed_attempt w job (hloops ▸ hloop) row hrow hrun' (by rw [howner', howner])

/-- Steps that leave the workers alone and call the store, if at all, for something else. -/
theorem Workers.aside (hw : Workers s) (hloops : s'.loops = s.loops) (hactive : s'.active = s.active)
    (htasks : s'.tasks = s.tasks) (hstarted : s'.started = s.started) {c : Option (Call P)}
    (hcall : System.Called c s.db r s'.db)
    (hclaim : ∀ c₀ ∈ c, ∀ r₀ ∈ r, ∀ j, c₀.claims r₀ j = none) :
    Workers s' := by
  refine hw.frame hloops hstarted (fun n t' ht' => ⟨t', htasks ▸ ht', rfl, rfl⟩)
    (fun n t' _ h => hactive ▸ h) fun j row' hrow' hrun => ?_
  rcases hcall with ⟨-, -, hdb⟩ | ⟨c₀, r₀, hc, hr, hstep⟩
  · exact ⟨row', hdb ▸ hrow', hrun, rfl, rfl⟩
  · exact held_of_not_claimed hstep (hclaim c₀ hc r₀ hr j) hrow' hrun

/-- What a successful claim returns, and what it leaves of the other rows. -/
theorem claim_step {worker : WorkerId} {now leaseForS : Time} {excludeIds locked : List JobId}
    {pick : Option JobId} {db db' : Db} {row : Row}
    (hstep : (Call.claimNextQueued (P := P) worker now leaseForS excludeIds locked pick).step db =
      some (db', .row (some row))) :
    row.id ∉ excludeIds ∧ db'.tables.jobs.get? row.id = some row ∧ row.leaseOwner = some worker ∧
      ∀ j row', j ≠ row.id → db'.tables.jobs.get? j = some row' → row'.status = .running →
        ∃ row₀, db.tables.jobs.get? j = some row₀ ∧ row₀.status = .running ∧
          row₀.leaseOwner = row'.leaseOwner ∧ row₀.attempt = row'.attempt := by
  have hstep' := hstep
  obtain ⟨⟨t, o⟩, hc, heq⟩ := Option.map_eq_some_iff.mp hstep'
  obtain ⟨rfl, hr⟩ := Prod.mk.inj heq
  obtain rfl := Reply.row.inj hr
  rcases claim_cases hc with ⟨-, ho⟩ | ⟨k, row₀, rfl, hk, hid, hclaimable, ho⟩
  · cases ho
  · obtain rfl := Option.some.inj ho
    have hidrow : (row₀.claim worker now leaseForS).id = k := hid
    refine ⟨?_, ?_, rfl, fun j row' hj hrow' hrun => ?_⟩
    · rw [hidrow, ← hid]
      simp only [Row.claimable, Bool.and_eq_true, Bool.not_eq_true', List.contains_eq_mem,
        decide_eq_false_iff_not] at hclaimable
      exact hclaimable.2
    · have hget := get?_step hstep k
      rw [hidrow]
      rcases hget with hget | ⟨_, _, _, hcreate, -⟩
      · rw [hget, hk]
        simp [Call.onRow, Call.hit, Call.set, hid]
      · cases hcreate
    · refine held_of_not_claimed hstep ?_ hrow' hrun
      exact if_neg fun he => hj he.symm

/-- A claim loop moves on: `pc` has to be right about the tasks and the row of its worker. -/
theorem Workers.setLoop (hw : Workers s) {worker : WorkerId} {pc : LoopPc P}
    (hclaiming : ∀ ex, pc = .claiming ex → ∀ n t, s.tasks n = some t → t.worker = worker →
      t.job.id ∈ ex)
    (hclaimed : ∀ job, pc = .claimed job →
      (∀ n t, s.tasks n = some t → t.worker = worker → t.job.id ≠ job.id) ∧
      ∀ row, s.db.tables.jobs.get? job.id = some row → row.status = .running →
        row.leaseOwner = some worker → row.attempt = job.attempt) :
    Workers (s.setLoop worker pc) := by
  refine { hw with claiming := ?_, claimed := ?_, claimed_attempt := ?_ }
  · intro w ex hpc n t ht hworker
    by_cases hwk : w = worker
    · subst hwk
      exact hclaiming ex (by simpa [System.setLoop] using hpc) n t ht hworker
    · exact hw.claiming w ex (by simpa [System.setLoop, hwk] using hpc) n t ht hworker
  · intro w job hpc
    by_cases hwk : w = worker
    · subst hwk
      exact (hclaimed job (by simpa [System.setLoop] using hpc)).1
    · exact hw.claimed w job (by simpa [System.setLoop, hwk] using hpc)
  · intro w job hpc
    by_cases hwk : w = worker
    · subst hwk
      exact (hclaimed job (by simpa [System.setLoop] using hpc)).2
    · exact hw.claimed_attempt w job (by simpa [System.setLoop, hwk] using hpc)

/-- **The tables after a claim.**  The job claimed is not in flight at the worker that claims it, and
the row of a job in flight anywhere else now has another owner. -/
theorem Workers.claim (hw : Workers s) {worker : WorkerId} {now leaseForS : Time}
    {excludeIds locked : List JobId} {pick : Option JobId} {db : Db} {row : Row}
    (hloop : s.loops worker = .claiming excludeIds)
    (hstep : (Call.claimNextQueued (P := P) worker now leaseForS excludeIds locked pick).step s.db =
      some (db, .row (some row))) :
    Workers { s with db } ∧ ∀ n t, s.tasks n = some t → t.worker = worker → t.job.id ≠ row.id := by
  obtain ⟨hnot, hget, howner, hother⟩ := claim_step hstep
  have hfree : ∀ n t, s.tasks n = some t → t.worker = worker → t.job.id ≠ row.id :=
    fun n t ht hworker hid => hnot (hid ▸ hw.claiming worker excludeIds hloop n t ht hworker)
  refine ⟨{ hw with attempt := ?_, claimed_attempt := ?_ }, hfree⟩
  · intro n t ht row' hrow' hrun howner'
    by_cases hid : t.job.id = row.id
    · rw [hid] at hrow'
      obtain rfl := Option.some.inj (hget.symm.trans hrow')
      exact absurd hid (hfree n t ht (Option.some.inj (howner'.symm.trans howner)))
    · obtain ⟨row₀, hrow₀, hrun₀, ho, ha⟩ := hother t.job.id row' hid hrow' hrun
      rw [← ha]
      exact hw.attempt n t ht row₀ hrow₀ hrun₀ (ho.trans howner')
  · intro w job hpc row' hrow' hrun howner'
    replace hpc : s.loops w = .claimed job := hpc
    by_cases hid : job.id = row.id
    · rw [hid] at hrow'
      obtain rfl := Option.some.inj (hget.symm.trans hrow')
      obtain rfl : w = worker := Option.some.inj (howner'.symm.trans howner)
      rw [hloop] at hpc
      cases hpc
    · obtain ⟨row₀, hrow₀, hrun₀, ho, ha⟩ := hother job.id row' hid hrow' hrun
      rw [← ha]
      exact hw.claimed_attempt w job hpc row₀ hrow₀ hrun₀ (ho.trans howner')

theorem rowToJob_eq_ok {row : Row} {job : Job P} (h : rowToJob P row = .ok job) :
    job.id = row.id ∧ job.attempt = row.attempt ∧ job.audioPath = row.audioPath ∧
      job.status = row.status ∧ job.requestDigest = row.requestDigest := by
  unfold rowToJob at h
  split at h
  · cases h
  · obtain rfl := Except.ok.inj h
    exact ⟨rfl, rfl, rfl, rfl, rfl⟩

theorem Workers.step (hw : Workers s) (h : System.Step st s e r s') : Workers s' := by
  have same : ∀ {db}, s.db = db → System.Called (P := P) none s.db none db := fun h =>
    .inl ⟨rfl, rfl, h.symm⟩
  have called : ∀ {c : Call P} {r₀ db}, c.step s.db = some (db, r₀) →
      System.Called (some c) s.db (some r₀) db := fun h => .inr ⟨_, _, rfl, rfl, h⟩
  have nocall : ∀ c₀ ∈ (none : Option (Call P)), ∀ r₀ ∈ (none : Option (Reply P)), ∀ j,
      c₀.claims r₀ j = none := fun _ h => by cases h
  have harmless : ∀ {c : Call P} {r₁ : Option (Reply P)}, (∀ r j, c.claims r j = none) →
      ∀ c₀ ∈ some c, ∀ r₀ ∈ r₁, ∀ j, c₀.claims r₀ j = none := by
    intro c r₁ hc c₀ h r₀ _ j
    obtain rfl := Option.some.inj h
    exact hc r₀ j
  -- only a claim and the start of a task touch what the workers rely on
  cases h with
  | submit | upload => exact hw.aside rfl rfl rfl rfl (same rfl) nocall
  | unlinkCancelled | unlinkPurged => exact hw.aside rfl rfl rfl rfl (same rfl) nocall
  | sweep => split <;> exact hw.aside rfl rfl rfl rfl (same rfl) nocall
  | statement id statement new pc s' hsub hs =>
      obtain ⟨hdb, hloops, hactive, htasks, hstarted⟩ := hs.workers
      exact hw.aside hloops hactive htasks hstarted (same hdb.symm) nocall
  | commit id new db job hsub hdb =>
      exact hw.aside rfl rfl rfl rfl (called hdb) (harmless fun _ _ => rfl)
  | cancel jobId clientId url stamp now db row hdb =>
      exact hw.aside rfl rfl rfl rfl (called hdb) (harmless fun _ _ => rfl)
  | cancelMissed jobId clientId url stamp now db hdb =>
      exact hw.aside rfl rfl rfl rfl (called hdb) (harmless fun _ _ => rfl)
  | purge cutoff db rows paths hdb =>
      exact hw.aside rfl rfl rfl rfl (called hdb) (harmless fun _ _ => rfl)
  | background c db r hbg hdb =>
      exact hw.aside rfl rfl rfl rfl (called hdb) (harmless (Call.claims_of_isBackground hbg))
  | task n act t t' db r ht hcall hnext hact =>
      -- a task keeps its worker and its job, and its calls claim nothing
      obtain ⟨hworker, hjob⟩ := Task.next_same hnext
      refine hw.frame rfl rfl (fun m u hu => ?_) (fun _ _ _ h => h) fun j row' hrow' hrun => ?_
      · rcases update_some_eq_some.mp hu with ⟨rfl, rfl⟩ | ⟨-, hu⟩
        · exact ⟨t, ht, hworker, hjob⟩
        · exact ⟨u, hu, rfl, rfl⟩
      · rcases hcall with ⟨-, -, hdb⟩ | ⟨c, r₀, hc, -, hstep⟩
        · exact ⟨row', hdb ▸ hrow', hrun, rfl, rfl⟩
        · exact held_of_not_claimed hstep (Task.call_claims hc r₀ j) hrow' hrun
  | fetched n t path mtime ht hpc hpath =>
      refine hw.frame rfl rfl (fun m u hu => ?_) (fun _ _ _ h => h)
        fun j row' hrow' hrun => ⟨row', hrow', hrun, rfl, rfl⟩
      rcases update_some_eq_some.mp hu with ⟨rfl, rfl⟩ | ⟨-, hu⟩
      · exact ⟨t, ht, rfl, rfl⟩
      · exact ⟨u, hu, rfl, rfl⟩
  | leave n t d ht hpc =>
      have hdb : (if d = true then s.unlink t.audioPath else s).db = s.db := by split <;> rfl
      refine hw.frame (by split <;> rfl) (by split <;> rfl)
        (fun m u hu => ⟨u, (update_none_eq_some.mp hu).2, rfl, rfl⟩) (fun m u hu hmem => ?_)
        fun j row' hrow' hrun => ⟨row', hdb ▸ hrow', hrun, rfl, rfl⟩
      -- the pair that is taken off `active` is no other task's
      obtain ⟨hm, hu⟩ := update_none_eq_some.mp hu
      refine List.mem_filter.mpr ⟨hmem, decide_eq_true fun heq => hm ?_⟩
      obtain ⟨hworker, hid⟩ := Prod.mk.inj heq
      exact hw.one m n u t hu ht hworker hid
  | beginClaim worker hloop =>
      refine hw.setLoop (fun ex hpc n t ht hworker => ?_) fun job hpc => by cases hpc
      obtain rfl := LoopPc.claiming.inj hpc
      exact List.mem_map.mpr ⟨(t.worker, t.job.id),
        List.mem_filter.mpr ⟨hw.active n t ht, decide_eq_true hworker⟩, rfl⟩
  | claimNone worker now lease ex locked pick db hloop hdb =>
      have hw' : Workers { s with db } := by
        refine hw.aside rfl rfl rfl rfl (called hdb) fun c hc r hr j => ?_
        obtain rfl := Option.some.inj hc
        obtain rfl := Option.some.inj hr
        rfl
      exact hw'.setLoop (fun ex hpc => by cases hpc) fun job hpc => by cases hpc
  | claimUndecodable worker now lease ex locked pick db row error hloop hdb hrow =>
      exact (hw.claim hloop hdb).1.setLoop (fun ex hpc => by cases hpc) fun job hpc => by cases hpc
  | claimed worker now lease ex locked pick db row job hloop hdb hrow =>
      obtain ⟨hw', hfree⟩ := hw.claim hloop hdb
      obtain ⟨hid, hattempt, -⟩ := rowToJob_eq_ok hrow
      refine hw'.setLoop (fun ex hpc => by cases hpc) fun job' hpc => ?_
      obtain rfl := LoopPc.claimed.inj hpc
      rw [hid, hattempt]
      refine ⟨hfree, fun row' hrow' _ _ => ?_⟩
      rw [← Option.some.inj ((claim_step hdb).2.1.symm.trans hrow')]
  | runJob worker job hloop =>
      -- the new task holds what the loop had claimed, and the loop lets go of it
      have hidle : Workers (s.setLoop worker .idle) :=
        hw.setLoop (fun ex hpc => by cases hpc) fun job hpc => by cases hpc
      constructor
      case lt_started =>
        intro n t ht
        rcases update_some_eq_some.mp ht with ⟨rfl, -⟩ | ⟨-, ht⟩
        · exact Nat.lt_succ_self _
        · exact Nat.lt_succ_of_lt (hw.lt_started n t ht)
      case active =>
        intro n t ht
        rcases update_some_eq_some.mp ht with ⟨-, rfl⟩ | ⟨-, ht⟩
        · exact List.mem_cons_self
        · exact List.mem_cons_of_mem _ (hw.active n t ht)
      case claiming =>
        intro w ex hpc n t ht hworker
        rcases update_some_eq_some.mp ht with ⟨-, rfl⟩ | ⟨-, ht⟩
        · subst hworker
          simp [System.setLoop, System.setTask] at hpc
        · exact hidle.claiming w ex hpc n t ht hworker
      case claimed =>
        intro w job' hpc n t ht hworker
        rcases update_some_eq_some.mp ht with ⟨-, rfl⟩ | ⟨-, ht⟩
        · subst hworker
          simp [System.setLoop, System.setTask] at hpc
        · exact hidle.claimed w job' hpc n t ht hworker
      case one =>
        intro n m t u ht hu hworker hid
        rcases update_some_eq_some.mp ht with ⟨rfl, rfl⟩ | ⟨-, ht⟩ <;>
          rcases update_some_eq_some.mp hu with ⟨rfl, rfl⟩ | ⟨-, hu⟩
        -- a claimed job is no running task's
        · rfl
        · exact absurd hid.symm (hw.claimed worker job hloop m u hu hworker.symm)
        · exact absurd hid (hw.claimed worker job hloop n t ht hworker)
        · exact hw.one n m t u ht hu hworker hid
      case attempt =>
        intro n t ht row hrow hrun howner
        rcases update_some_eq_some.mp ht with ⟨-, rfl⟩ | ⟨-, ht⟩
        · exact hw.claimed_attempt worker job hloop row hrow hrun howner
        · exact hw.attempt n t ht row hrow hrun howner
      case claimed_attempt =>
        exact hidle.claimed_attempt

end Step

/-- **In every run the in-flight discipline holds.** -/
theorem workers {st : Settings} {h : SystemLog P} {s : System P}
    (run : (systemMachine P st).Run h s) : Workers s :=
  Machine.Run.invariant (M := systemMachine P st) (I := fun _ s => Workers s) workers_init
    (fun _ _ _ _ _ _ hw hstep => hw.step (System.step_cases hstep)) run

/-! ### Commits -/

/-- `finish`, `fail` and `release_for_retry` of a worker for a job. -/
def Call.commits (j : JobId) (worker : WorkerId) : Call P → Bool
  | finish k _ w .. | fail k _ _ w .. | releaseForRetry k w .. => k = j && w = worker
  | _ => false

/-- **A commit that takes effect is the latest attempt's.**  At any moment, whatever task of the
worker issues it. -/
theorem commit_is_latest {s : System P} (hw : Workers s) {n : ℕ} {t : Task P}
    (ht : s.tasks n = some t) {c : Call P} (hc : c.commits t.job.id t.worker = true) {db : Db}
    {r : Reply P} (hstep : c.step s.db = some (db, r)) :
    (r.positive = true ∧ ∃ row, s.db.tables.jobs.get? t.job.id = some row ∧
      row.status = .running ∧ row.attempt = t.job.attempt) ∨ (r.positive = false ∧ db = s.db) := by
  have hkey : c.key = some t.job.id ∧
      ∀ row, c.hit row = true → row.heldBy t.job.id (some t.worker) = true := by
    cases c <;> simp only [Call.commits, Bool.and_eq_true, decide_eq_true_eq, Bool.false_eq_true]
      at hc <;> obtain ⟨rfl, rfl⟩ := hc <;> exact ⟨rfl, fun _ h => h⟩
  rcases step_keyed hstep hkey.1 with ⟨hpos, hdb, -⟩ | ⟨hpos, row, hrow, hhit⟩
  · exact .inr ⟨hpos, hdb⟩
  · obtain ⟨-, hrun, howner⟩ := heldBy_iff.mp (hkey.2 row hhit)
    exact .inl ⟨hpos, row, hrow, hrun, hw.attempt n t ht row hrow hrun howner⟩

/-- **No stale attempt ever commits.** -/
theorem no_stale_commit {st : Settings} {h : SystemLog P} {s : System P}
    (run : (systemMachine P st).Run h s) :
    (∀ h₁ x h₂ n act t c r, h = h₁ ++ x :: h₂ → x.event = .task n act →
      x.before.tasks n = some t → t.call act = some c → c.commits t.job.id t.worker = true →
      x.reply = some r →
        (r.positive = true → ∃ row, x.before.db.tables.jobs.get? t.job.id = some row ∧
          row.status = .running ∧ row.attempt = t.job.attempt ∧
          t.job.attempt = (claimTimes t.job.id (h₁.flatMap storeEntries)).length) ∧
        (r.positive = false → x.after.db = x.before.db)) ∧
    (∀ n m t u, s.tasks n = some t → s.tasks m = some u → t.worker = u.worker →
      t.job.id = u.job.id → n = m) ∧
    ∀ w job, s.loops w = .claimed job → ∀ n t, s.tasks n = some t → t.worker = w →
      t.job.id ≠ job.id := by
  refine ⟨?_, (workers run).one, (workers run).claimed⟩
  rintro h₁ ⟨s₀, e, o, s₁⟩ h₂ n act t c r rfl rfl ht hcall hcommits rfl
  obtain ⟨run₁, hstep, -⟩ := run.split
  obtain ⟨c', r', hc', hr', hdb⟩ : ∃ c' r', t.call act = some c' ∧ some r = some r' ∧
      c'.step s₀.db = some (s₁.db, r') := by
    rcases System.step_db hstep with ⟨-, hr, -⟩ | ⟨c', r', hc', hr', hdb⟩
    · cases hr
    · refine ⟨c', r', ?_, hr', hdb⟩
      rw [← hc']
      simp [Event.call, show s₀.tasks n = some t from ht]
  obtain rfl := Option.some.inj (hcall.symm.trans hc')
  obtain rfl := Option.some.inj hr'
  rcases commit_is_latest (workers run₁) ht hcommits hdb with ⟨hpos, row, hrow, hrun, ha⟩ | ⟨hpos, he⟩
  · refine ⟨fun _ => ⟨row, hrow, hrun, ha, ?_⟩, fun hneg => absurd (hpos.symm.trans hneg) (by simp)⟩
    have hst := standing (store_run run₁) t.job.id
    rw [hrow] at hst
    cases hst with
    | present _ _ hl => rw [← ha, hl.attempt]
  · exact ⟨fun hpos' => absurd (hpos'.symm.trans hpos) (by simp), fun _ => he⟩

/-- The first attempt of task 0 hands its job back. -/
def releasesFirst (x : Entry (System .strict) (Event .strict) (Option (Reply .strict))) : Bool :=
  match x.event, x.reply with
  | .task 0 (.release now retryAfterS), some (.hit true) => (x.before.tasks 0).any fun t =>
      t.job.attempt = 1 && (t.call (.release now retryAfterS)).isSome
  | _, _ => false

/-- A release that takes effect is that of the one claim before it. -/
theorem no_stale_commit_released : ∃ h s, (systemMachine .strict sampleSettings).Run h s ∧
    ∃ h₁ x t row, h = h₁ ++ [x] ∧ x.before.tasks 0 = some t ∧
      x.before.db.tables.jobs.get? t.job.id = some row ∧ row.status = .running ∧ row.attempt = 1 ∧
      (claimTimes t.job.id (h₁.flatMap storeEntries)).length = 1 := by
  obtain ⟨h, s, run, hlast⟩ := Machine.Run.of_exec (systemMachine .strict sampleSettings)
    (releasedEvents.take 15) (fun h _ => h.getLast?.any releasesFirst) (by decide +kernel)
  obtain ⟨x, hx, hreleases⟩ := (Option.any_eq_true _ _).mp hlast
  obtain ⟨h₁, rfl⟩ := List.getLast?_eq_some_iff.mp hx
  unfold releasesFirst at hreleases
  split at hreleases
  · rename_i now retryAfterS hevent hreply
    obtain ⟨t, ht, hfirst⟩ := (Option.any_eq_true _ _).mp hreleases
    obtain ⟨hone, hcalls⟩ := Bool.and_eq_true_iff.mp hfirst
    obtain ⟨c, hc⟩ := Option.isSome_iff_exists.mp hcalls
    have hcommits : c.commits t.job.id t.worker = true := by
      obtain ⟨worker, job, audioPath, pc⟩ := t
      cases pc <;> cases hc
      simp [Call.commits]
    obtain ⟨row, hrow, hrunning, hattempt, htimes⟩ := ((no_stale_commit run).1 h₁ x [] 0 _ t c _ rfl
      hevent ht hc hcommits hreply).1 rfl
    rw [of_decide_eq_true hone] at hattempt htimes
    exact ⟨_, s, run, h₁, x, t, row, rfl, ht, hrow, hrunning, hattempt, htimes.symm⟩
  · cases hreleases

/-! ### Retries -/

section Retries

variable {st : Settings} {s s' : System P} {e : Event P} {r : Option (Reply P)}

/-- `release_for_retry` of a job. -/
def Call.releases (j : JobId) : Call P → Bool
  | releaseForRetry k .. => k = j
  | _ => false

/-- How often a job was handed back. -/
def releases (j : JobId) (h : StoreLog P) : ℕ :=
  h.countP fun x => x.event.releases j && x.reply.positive

/-- Only a job that may be retried is about to be. -/
theorem Task.next_releasing {t t' : Task P} {tables : Tables} {hit : Bool} {act : Act}
    (h : t.next st tables hit act = some t') (hpc : t'.pc = .releasing) :
    t'.job.attempt < st.oomMaxAttempts := by
  obtain ⟨worker, job, audioPath, pc⟩ := t
  unfold Task.next at h
  split at h
  case h_6 | h_7 =>
    obtain rfl := Option.some.inj h
    by_contra hlt
    simp [hlt] at hpc
  all_goals first
    | (cases h; done)
    | (obtain rfl := Option.some.inj h; repeat' split at hpc
       all_goals cases hpc)

/-- A task about to hand its job back may do so. -/
def Retryable (st : Settings) (s : System P) : Prop :=
  ∀ n t, s.tasks n = some t → t.pc = .releasing → t.job.attempt < st.oomMaxAttempts

theorem Retryable.step (hr : Retryable st s) (h : System.Step st s e r s') : Retryable st s' := by
  cases h with
  | statement _ _ _ _ _ _ hs => rw [Retryable, hs.workers.2.2.2.1]; exact hr
  | sweep => split <;> exact hr
  | task n act t t' db r ht _ hnext =>
      intro m u hu hpc
      rcases update_some_eq_some.mp hu with ⟨-, rfl⟩ | ⟨-, hu⟩
      · exact Task.next_releasing hnext hpc
      · exact hr m u hu hpc
  | fetched n t path mtime ht =>
      intro m u hu hpc
      rcases update_some_eq_some.mp hu with ⟨-, rfl⟩ | ⟨-, hu⟩
      · cases hpc
      · exact hr m u hu hpc
  | leave n t d => exact fun m u hu hpc => hr m u (update_none_eq_some.mp hu).2 hpc
  | runJob worker job =>
      intro m u hu hpc
      rcases update_some_eq_some.mp hu with ⟨-, rfl⟩ | ⟨-, hu⟩
      · cases hpc
      · exact hr m u hu hpc
  | _ => exact hr

/-- Only a task that is handing its job back calls `release_for_retry`. -/
theorem releasing_of_call {c : Call P} {j : JobId} (hc : e.call s = some c)
    (hrel : c.releases j = true) :
    ∃ n t, s.tasks n = some t ∧ t.pc = .releasing ∧ t.job.id = j ∧
      c.commits t.job.id t.worker = true := by
  cases e with
  | task n act =>
      obtain ⟨t, ht, hcall⟩ := Option.bind_eq_some_iff.mp hc
      unfold Task.call at hcall
      split at hcall
      case h_6 hpc =>
        obtain rfl := Option.some.inj hcall
        exact ⟨n, t, ht, hpc, of_decide_eq_true hrel, by simp [Call.commits]⟩
      case h_2 =>
        obtain ⟨path, -, rfl⟩ := Option.map_eq_some_iff.mp hcall
        cases hrel
      all_goals first
        | (cases hcall; done)
        | (obtain rfl := Option.some.inj hcall; cases hrel)
  | create id statement =>
      cases statement <;> simp only [Event.call, reduceCtorEq] at hc
      split at hc
      · obtain rfl := Option.some.inj hc
        cases hrel
      · cases hc
  | cancelJob =>
      simp only [Event.call] at hc
      split at hc
      · split at hc
        · cases hc
        · obtain rfl := Option.some.inj hc
          cases hrel
      · cases hc
  | claim =>
      simp only [Event.call] at hc
      split at hc
      · obtain rfl := Option.some.inj hc
        cases hrel
      · cases hc
  | purge =>
      obtain rfl := Option.some.inj hc
      cases hrel
  | background c' =>
      simp only [Event.call] at hc
      split at hc
      · rename_i hbg
        obtain rfl := Option.some.inj hc
        cases c' <;> first | cases hrel | cases hbg
      · cases hc
  | _ => cases hc

/-- The retries of a job so far: each took an attempt of its own, below the limit. -/
structure Retried (st : Settings) (j : JobId) (n : ℕ) (db : Db) : Prop where
  le : n ≤ st.oomMaxAttempts - 1
  undrawn : j ∉ db.drawn → n = 0
  attempt : ∀ row, db.tables.jobs.get? j = some row →
    n + (if row.status = .running then 1 else 0) ≤ row.attempt

/-- A call that hands nothing back leaves room for the retries there were. -/
theorem Retried.other {c : Call P} {db db' : Db} {r : Reply P} {j : JobId} {n : ℕ}
    (hr : Retried st j n db) (hstep : c.step db = some (db', r)) : Retried st j n db' := by
  refine ⟨hr.le, fun hd => hr.undrawn fun h => hd ((drawn_step hstep j).mpr (.inl h)),
    fun row' hrow' => ?_⟩
  cases hb : db.tables.jobs.get? j with
  | none =>
      rw [hr.undrawn (not_drawn_of_created hstep hb hrow').1]
      obtain ⟨-, -, new, _, _, -, rfl⟩ := not_drawn_of_created hstep hb hrow'
      exact Nat.le_refl 0
  | some row =>
      have hle := hr.attempt row hb
      have hc := change_step hstep j
      rw [hb, hrow'] at hc
      generalize c.claims r j = ct at hc
      generalize c.settles r j = v at hc
      cases hc with
      | recorded | staged | renewed | kept => exact hle
      | claimed =>
          refine Nat.le_trans ?_ (Nat.add_le_add_right (Nat.le_of_add_right_le hle) 1)
          rfl
      | _ => exact Nat.le_of_add_right_le hle

/-- Handing a job back queues it again, at the same attempt. -/
theorem release_row {c : Call P} {db db' : Db} {r : Reply P} {j : JobId} {row row' : Row}
    (hstep : c.step db = some (db', r)) (hrel : c.releases j = true) (hpos : r.positive = true)
    (hrow : db.tables.jobs.get? j = some row) (hrow' : db'.tables.jobs.get? j = some row') :
    row'.status = .queued ∧ row'.attempt = row.attempt := by
  cases c <;> simp only [Call.releases, decide_eq_true_eq, Bool.false_eq_true] at hrel
  subst hrel
  rcases step_keyed hstep rfl with ⟨hneg, -⟩ | ⟨-, row₀, hrow₀, hhit⟩
  · rw [hpos] at hneg
    cases hneg
  · obtain rfl := Option.some.inj (hrow.symm.trans hrow₀)
    rcases get?_step hstep _ with hget | ⟨_, _, _, hcreate, -⟩
    · rw [hrow, hrow'] at hget
      simp only [Option.bind_some, Call.onRow, hhit, if_true, Option.some.injEq] at hget
      subst hget
      exact ⟨rfl, rfl⟩
    · cases hcreate

/-- **Retries in every run.** -/
theorem retried {h : SystemLog P} (run : (systemMachine P st).Run h s) :
    Retryable st s ∧ ∀ j, Retried st j (releases j (h.flatMap storeEntries)) s.db ∧
      ∀ y ∈ h.flatMap storeEntries, y.event.releases j = true → y.reply.positive = true →
        ∃ row, y.before.tables.jobs.get? j = some row ∧ row.attempt < st.oomMaxAttempts := by
  refine Machine.Run.invariant (M := systemMachine P st)
    (I := fun h s => Retryable st s ∧ ∀ j, Retried st j (releases j (h.flatMap storeEntries)) s.db ∧
      ∀ y ∈ h.flatMap storeEntries, y.event.releases j = true → y.reply.positive = true →
        ∃ row, y.before.tables.jobs.get? j = some row ∧ row.attempt < st.oomMaxAttempts)
    ⟨(fun _ _ h => nomatch h), fun j => ⟨⟨Nat.zero_le _, fun _ => rfl, (fun _ h => nomatch h)⟩,
      (fun _ h => nomatch h)⟩⟩ ?_ run
  rintro h s e s' r run ⟨hretry, ih⟩ hstep
  refine ⟨hretry.step (System.step_cases hstep), fun j => ?_⟩
  obtain ⟨hr, hlog⟩ := ih j
  rw [List.flatMap_append, List.flatMap_singleton]
  rcases System.step_db hstep with ⟨hc, rfl, hdb⟩ | ⟨c, r₀, hc, rfl, hcall⟩
  · have hnil : storeEntries ⟨s, e, none, s'⟩ = [] := by simp [storeEntries]
    rw [hnil, List.append_nil, hdb]
    exact ⟨hr, hlog⟩
  · have hone : storeEntries ⟨s, e, some r₀, s'⟩ = [⟨s.db, c, r₀, s'.db⟩] := by
      simp [storeEntries, hc]
    rw [hone]
    by_cases hrel : c.releases j = true ∧ r₀.positive = true
    · -- the row is running, at the attempt of the task that hands it back
      obtain ⟨n, t, ht, hpc, rfl, hcommits⟩ := releasing_of_call hc hrel.1
      have hlt := hretry n t ht hpc
      rcases commit_is_latest (workers run) ht hcommits hcall with ⟨-, row, hrow, hrun, ha⟩ | ⟨hneg, -⟩
      · have hle := hr.attempt row hrow
        rw [if_pos hrun, ha] at hle
        have hcount : releases t.job.id (h.flatMap storeEntries ++ [⟨s.db, c, r₀, s'.db⟩]) =
            releases t.job.id (h.flatMap storeEntries) + 1 := by
          simp [releases, List.countP_append, hrel]
        refine ⟨⟨by omega, fun hd => ?_, fun row' hrow' => ?_⟩, fun y hy hyr hyp => ?_⟩
        · have hst := standing (store_run run) t.job.id
          rw [hrow] at hst
          cases hst with
          | present _ hd' => exact absurd ((drawn_step hcall _).mpr (.inl hd')) hd
        · obtain ⟨hq, ha'⟩ := release_row hcall hrel.1 hrel.2 hrow hrow'
          rw [hcount, hq, ha', ha]
          simpa using hle
        · rcases List.mem_append.mp hy with hy | hy
          · exact hlog y hy hyr hyp
          · rw [List.mem_singleton] at hy
            subst hy
            exact ⟨row, hrow, ha ▸ hlt⟩
      · rw [hrel.2] at hneg
        cases hneg
    · have hcount : releases j (h.flatMap storeEntries ++ [⟨s.db, c, r₀, s'.db⟩]) =
          releases j (h.flatMap storeEntries) := by
        simp [releases, List.countP_append, hrel]
      rw [hcount]
      refine ⟨hr.other hcall, fun y hy hyr hyp => ?_⟩
      rcases List.mem_append.mp hy with hy | hy
      · exact hlog y hy hyr hyp
      · rw [List.mem_singleton] at hy
        subst hy
        exact absurd ⟨hyr, hyp⟩ hrel

end Retries

/-! ### Rows -/

/-- **The representation invariant of `jobs`**, in every run of the store, and in every run of the
system the bound on how often a job is handed back. -/
theorem row_invariant (P : Pydantic) :
    (∀ (h : StoreLog P) (s : Db), (storeMachine P).Run h s →
      (∀ j row, s.tables.jobs.get? j = some row → RowInvariant j h row) ∧
      ∀ j k row row' key, s.tables.jobs.get? j = some row → s.tables.jobs.get? k = some row' →
        row.clientId = row'.clientId → row.idempotencyKey = some key →
          row'.idempotencyKey = some key → j = k) ∧
    ∀ (st : Settings) (h : SystemLog P) (s : System P), (systemMachine P st).Run h s → ∀ j,
      releases j (h.flatMap storeEntries) ≤ st.oomMaxAttempts - 1 ∧
      ∀ y ∈ h.flatMap storeEntries, y.event.releases j = true → y.reply.positive = true →
        ∃ row, y.before.tables.jobs.get? j = some row ∧ row.attempt < st.oomMaxAttempts :=
  ⟨fun _ _ run => ⟨fun _ _ hrow => rowInvariant run hrow, fun _ _ _ _ _ hj hk hclient hkey hkey' =>
    unique_key run hj hk hclient hkey hkey'⟩,
    fun _ _ _ run j => ⟨((retried run).2 j).1.le, ((retried run).2 j).2⟩⟩

theorem row_invariant_released : ∃ h s, (systemMachine .strict sampleSettings).Run h s ∧
    (s.db.tables.jobs.get? "job").any (·.retryAfter = some 35) = true ∧
    (∀ row, s.db.tables.jobs.get? "job" = some row →
      RowInvariant "job" (h.flatMap storeEntries) row) ∧
    releases "job" (h.flatMap storeEntries) ≤ 2 - 1 := by
  obtain ⟨h, s, run, hone⟩ := Machine.Run.of_exec (systemMachine .strict sampleSettings)
    releasedEvents (fun _ s => (s.db.tables.jobs.get? "job").any (·.retryAfter = some 35))
    (by decide +kernel)
  exact ⟨h, s, run, hone, ((row_invariant .strict).1 _ _ (store_run run)).1 "job",
    ((row_invariant .strict).2 _ _ _ run "job").1⟩

end Vemsa.Jobs
