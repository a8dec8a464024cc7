import Vemsa.Jobs.PostgresStore

/-!
# Jobs — StoreMachine

The store as a machine: any call at any moment, by anyone.  Ids are drawn with `uuid4`, so an id
is never drawn twice; that is all the machine adds to the tables.

A call touches the rows of `jobs` one by one (`Call.onRow`), and `create` adds one row:
`get?_step` is the only fact about the calls that the run arguments use.  What a call leaves in
the other two tables is `jobStats_step` and `webhookOutbox_step`.
-/

namespace Vemsa.Jobs
open Vemsa.Support

/-- A store call with its arguments, and what the clock and the database decide for it. -/
inductive Call (P : Pydantic) where
  | create (new : NewJob P) (maxActive maxActivePerClient : Option ℕ)
  | claimNextQueued (worker : WorkerId) (now leaseForS : Time) (excludeIds locked : List JobId)
      (pick : Option JobId)
  | releaseForRetry (jobId : JobId) (worker : WorkerId) (now retryAfterS : Time)
  | setAudioPath (jobId : JobId) (audioPath : Path) (now : Time)
  | setStage (jobId : JobId) (stage : JobStage) (worker : WorkerId) (now : Time)
  | renewLease (jobId : JobId) (worker : WorkerId) (leaseForS now now' : Time)
  | cancel (jobId : JobId) (clientId : String) (webhookUrl : Option String) (stamp : EventStamp)
      (now : Time)
  | finish (jobId : JobId) (result : TranscriptionResult PyFloat) (worker : WorkerId)
      (webhookUrl : Option String) (outcome : Option JobOutcome) (stamp : EventStamp) (now : Time)
  | fail (jobId : JobId) (error : String) (kind : FailureKind) (worker : WorkerId)
      (webhookUrl : Option String) (outcome : Option JobOutcome) (stamp : EventStamp) (now : Time)
  | purgeOlderThan (cutoff : Time)
  | purgeStatsOlderThan (cutoff : Time)
  | claimWebhook (worker : WorkerId) (now leaseForS : Time) (locked : List EventId)
      (pick : Option EventId)
  | markWebhookDelivered (id : EventId) (worker : WorkerId)
  | rescheduleWebhook (id : EventId) (worker : WorkerId) (error : String) (delayS now : Time)
      (maxAttempts : ℕ)

/-- What a call answers. -/
inductive Reply (P : Pydantic) where
  | created (r : Except CreateError (Job P))
  | row (r : Option Row)
  | hit (b : Bool)
  | rows (rs : List Row)
  | event (e : Option OutboxRow)
  | done

/-- The tables, and the job ids drawn so far. -/
structure Db where
  tables : Tables
  drawn : List JobId

section Machine

variable {P : Pydantic}

/-- One call.  `none`: the database cannot decide so, or the id was drawn before. -/
def Call.step (db : Db) : Call P → Option (Db × Reply P)
  | create new maxActive maxActivePerClient =>
    if new.id ∈ db.drawn then none
    else
      match Jobs.create P new.job maxActive maxActivePerClient db.tables with
      | .error e => some (⟨db.tables, new.id :: db.drawn⟩, .created (.error e))
      | .ok (t, job) => some (⟨t, new.id :: db.drawn⟩, .created (.ok job))
  | claimNextQueued worker now leaseForS excludeIds locked pick =>
    (Jobs.claimNextQueued worker now leaseForS excludeIds locked pick db.tables).map
      fun (t, r) => (⟨t, db.drawn⟩, .row r)
  | releaseForRetry jobId worker now retryAfterS =>
    let (t, b) := Jobs.releaseForRetry jobId worker now retryAfterS db.tables
    some (⟨t, db.drawn⟩, .hit b)
  | setAudioPath jobId audioPath now =>
    some (⟨Jobs.setAudioPath jobId audioPath now db.tables, db.drawn⟩, .done)
  | setStage jobId stage worker now =>
    let (t, b) := Jobs.setStage jobId stage (some worker) now db.tables
    some (⟨t, db.drawn⟩, .hit b)
  | renewLease jobId worker leaseForS now now' =>
    let (t, b) := Jobs.renewLease jobId worker leaseForS now now' db.tables
    some (⟨t, db.drawn⟩, .hit b)
  | cancel jobId clientId webhookUrl stamp now =>
    (Jobs.cancel jobId clientId webhookUrl stamp now db.tables).map
      fun (t, r) => (⟨t, db.drawn⟩, .row r)
  | finish jobId result worker webhookUrl outcome stamp now =>
    (Jobs.finish P jobId result (some worker) webhookUrl outcome stamp now db.tables).map
      fun (t, b) => (⟨t, db.drawn⟩, .hit b)
  | fail jobId error kind worker webhookUrl outcome stamp now =>
    (Jobs.fail jobId error kind (some worker) webhookUrl outcome stamp now db.tables).map
      fun (t, b) => (⟨t, db.drawn⟩, .hit b)
  | purgeOlderThan cutoff =>
    let (t, rs) := Jobs.purgeOlderThan cutoff db.tables
    some (⟨t, db.drawn⟩, .rows rs)
  | purgeStatsOlderThan cutoff =>
    some (⟨Jobs.purgeStatsOlderThan cutoff db.tables, db.drawn⟩, .done)
  | claimWebhook worker now leaseForS locked pick =>
    (Jobs.claimWebhook worker now leaseForS locked pick db.tables).map
      fun (t, e) => (⟨t, db.drawn⟩, .event e)
  | markWebhookDelivered id worker =>
    some (⟨Jobs.markWebhookDelivered id worker db.tables, db.drawn⟩, .done)
  | rescheduleWebhook id worker error delayS now maxAttempts =>
    let (t, b) := Jobs.rescheduleWebhook id worker error delayS now maxAttempts db.tables
    some (⟨t, db.drawn⟩, .hit b)

variable (P)

/-- The store, from empty tables. -/
def storeMachine : Machine Db (Call P) (Reply P) where
  init := ⟨.empty, []⟩
  step := Call.step

variable {P}

/-! ### One row -/

/-- The rows of `jobs` a call's `UPDATE` selects. -/
def Call.hit (row : Row) : Call P → Bool
  | claimNextQueued _ _ _ _ _ pick => some row.id = pick
  | releaseForRetry jobId worker _ _ | setStage jobId _ worker _ | renewLease jobId worker _ _ _
  | finish jobId _ worker _ _ _ _ | fail jobId _ _ worker _ _ _ _ => row.heldBy jobId (some worker)
  | setAudioPath jobId _ _ => row.id = jobId
  | cancel jobId clientId _ _ _ => row.cancellable jobId clientId
  | _ => false

/-- What it sets them to. -/
def Call.set (row : Row) : Call P → Row
  | claimNextQueued worker now leaseForS _ _ _ => row.claim worker now leaseForS
  | releaseForRetry _ _ now retryAfterS => row.release now retryAfterS
  | setAudioPath _ audioPath now => { row with audioPath := some audioPath, updatedAt := now }
  | setStage _ stage _ now => { row with stage, updatedAt := now }
  | renewLease _ _ leaseForS now now' =>
    { row with leaseExpiresAt := some (now + leaseForS), updatedAt := now' }
  | cancel _ _ _ _ now => row.cancel now
  | finish _ result _ _ _ _ now => row.finish result now
  | fail _ error kind _ _ _ _ now => row.fail error kind now
  | _ => row

/-- What a call makes of a row that is there; `none` deletes it. -/
def Call.onRow (c : Call P) (row : Row) : Option Row :=
  match c with
  | purgeOlderThan cutoff => if row.expired cutoff then none else some row
  | _ => some (if c.hit row then c.set row else row)

/-- The terminal transition a call asks for. -/
def Call.verdict : Call P → Option Verdict
  | cancel jobId _ webhookUrl stamp now =>
    some { jobId, status := .cancelled, now, webhookUrl, stamp
           payload := { jobId, status := .cancelled } }
  | finish jobId result worker webhookUrl outcome stamp now =>
    some { jobId, status := .completed, now, worker, outcome, webhookUrl, stamp
           payload := { jobId, status := .completed, result := some result } }
  | fail jobId error _ worker webhookUrl outcome stamp now =>
    some { jobId, status := .failed, now, worker, outcome, webhookUrl, stamp
           payload := { jobId, status := .failed, error := some error } }
  | _ => none

/-- The event it inserts if it takes effect. -/
def Verdict.events (v : Verdict) : List OutboxRow := (v.webhookUrl.map v.event).toList

/-- The call says that it took effect. -/
def Reply.positive : Reply P → Bool
  | hit b => b
  | row r => r.isSome
  | _ => false

/-- The terminal transition of `j` that a call and its reply amount to. -/
def Call.settles (c : Call P) (r : Reply P) (j : JobId) : Option Verdict :=
  if r.positive then c.verdict.filter fun v => v.jobId = j else none

/-- The rows of `job_stats` a call deletes. -/
def Call.purges (stats : StatsRow) : Call P → Bool
  | purgeStatsOlderThan cutoff => stats.finishedAt < cutoff
  | _ => false

section Tables

variable {t t' : Tables} {j : JobId}

theorem jobs_insertJobStats (t : Tables) (v : Verdict) : (insertJobStats t v).jobs = t.jobs := by
  unfold insertJobStats
  split
  · rfl
  · split <;> rfl

theorem insertWebhook_eq_some {v : Verdict} (h : insertWebhook t v = some t') :
    t'.jobs = t.jobs ∧ t'.jobStats = t.jobStats ∧
      t'.webhookOutbox.rows = v.events ++ t.webhookOutbox.rows ∧
      ∀ e ∈ v.events, t.webhookOutbox.get? e.id = none := by
  unfold insertWebhook at h
  split at h
  · rename_i hurl
    obtain rfl := Option.some.inj h
    simp [Verdict.events, hurl]
  · rename_i url hurl
    split at h
    · obtain ⟨outbox, hins, rfl⟩ := Option.map_eq_some_iff.mp h
      obtain ⟨hnone, hrows⟩ := Table.insert_eq_some hins
      refine ⟨rfl, rfl, ?_, ?_⟩
      · rw [hrows]
        simp [Verdict.events, hurl]
      · simpa [Verdict.events, hurl] using hnone
    · cases h

theorem get?_updateJobs (t : Tables) (hit : Row → Bool) (f : Row → Row)
    (hf : ∀ r, (f r).id = r.id) (j : JobId) :
    (t.updateJobs hit f hf).1.jobs.get? j =
      (t.jobs.get? j).map fun r => if hit r then f r else r :=
  Table.get?_update t.jobs hit f hf j

/-- An `UPDATE` by primary key reports `UPDATE 1` exactly when its clause selects the row. -/
theorem updateJobs_snd (t : Tables) {hit : Row → Bool} {f : Row → Row} (hf : ∀ r, (f r).id = r.id)
    (hkey : ∀ r, hit r = true → r.id = j) :
    (t.updateJobs hit f hf).2 = true ↔ ∃ row, t.jobs.get? j = some row ∧ hit row = true := by
  rw [← Table.matched_eq_one_iff hkey]
  exact decide_eq_true_iff

/-- and leaves the tables alone otherwise. -/
theorem updateJobs_of_not {hit : Row → Bool} {f : Row → Row} (hf : ∀ r, (f r).id = r.id)
    (hkey : ∀ r, hit r = true → r.id = j) (h : (t.updateJobs hit f hf).2 = false) :
    (t.updateJobs hit f hf).1 = t := by
  have hne : t.jobs.matched hit ≠ 1 := by simpa [Tables.updateJobs] using h
  simp only [Tables.updateJobs, Table.update_of_not_matched hkey hne]

/-- **A terminal transition** hits a row and records it in all three tables, or does nothing. -/
theorem settle_cases {hit : Row → Bool} {f : Row → Row} {hf : ∀ r, (f r).id = r.id} {v : Verdict}
    {b : Bool} (h : settle t hit f hf v = some (t', b)) (hkey : ∀ r, hit r = true → r.id = v.jobId) :
    (b = false ∧ t' = t ∧ ∀ row, t.jobs.get? v.jobId = some row → hit row = false) ∨
    (b = true ∧ t'.jobs = t.jobs.update hit f hf ∧ ∃ row, t.jobs.get? v.jobId = some row ∧
      hit row = true ∧
      t'.jobStats = (t.jobStats.insert (v.statsRow (f row))).getD t.jobStats ∧
      t'.webhookOutbox.rows = v.events ++ t.webhookOutbox.rows ∧
      ∀ e ∈ v.events, t.webhookOutbox.get? e.id = none) := by
  have hsnd := updateJobs_snd t hf hkey
  have hnot := updateJobs_of_not (t := t) hf hkey
  unfold settle at h
  split at h
  · rename_i t₁ hu
    obtain ⟨rfl, rfl⟩ := Prod.mk.inj (Option.some.inj h)
    rw [hu] at hsnd hnot
    refine .inl ⟨rfl, hnot rfl, fun row hrow => ?_⟩
    exact Bool.eq_false_iff.mpr fun hh => absurd (hsnd.mpr ⟨row, hrow, hh⟩) Bool.false_ne_true
  · rename_i t₁ hu
    obtain ⟨t₂, hw, heq⟩ := Option.map_eq_some_iff.mp h
    obtain ⟨rfl, rfl⟩ := Prod.mk.inj heq
    obtain ⟨row, hrow, hh⟩ := hsnd.mp (by rw [hu])
    have ht₁ : t₁ = (t.updateJobs hit f hf).1 := by rw [hu]
    have hget : t₁.jobs.get? v.jobId = some (f row) := by
      rw [ht₁, get?_updateJobs, hrow, Option.map_some, if_pos hh]
    obtain ⟨hjobs, hstats, hout⟩ := insertWebhook_eq_some hw
    rw [jobs_insertJobStats] at hjobs
    refine .inr ⟨rfl, by rw [hjobs, ht₁]; rfl, row, hrow, hh, ?_, ?_⟩
    · rw [hstats]
      unfold insertJobStats
      rw [hget]
      dsimp only
      have hst : t₁.jobStats = t.jobStats := by rw [ht₁]; rfl
      rw [hst]
      cases t.jobStats.insert (v.statsRow (f row)) with
      | none => rw [Option.getD_none, ← hst]
      | some stats => rfl
    · have hob : (insertJobStats t₁ v).webhookOutbox = t.webhookOutbox := by
        have hst : t₁.webhookOutbox = t.webhookOutbox := by rw [ht₁]; rfl
        unfold insertJobStats
        rw [hget]
        dsimp only
        split <;> exact hst
      rwa [hob] at hout

/-- A result that is stored can be stored. -/
theorem finish_eq_some {result : TranscriptionResult PyFloat} {worker : Option WorkerId}
    {url : Option String} {outcome : Option JobOutcome} {stamp : EventStamp} {now : Time}
    {x : Tables × Bool} (h : finish P j result worker url outcome stamp now t = some x) :
    P.Storable result.texts ∧
      settle t (Row.heldBy j worker) (Row.finish result now) (fun _ => rfl)
        { jobId := j, status := .completed, now, worker, outcome, webhookUrl := url, stamp
          payload := { jobId := j, status := .completed, result := some result } } = some x := by
  unfold finish at h
  split at h
  · rename_i hstored
    obtain ⟨json, hjson⟩ := Option.isSome_iff_exists.mp hstored
    exact ⟨(resultJson_eq_some.mp hjson).1, h⟩
  · cases h

/-- A request that is inserted can be stored. -/
theorem onRequest_eq_ok {request : JobRequest P} :
    onRequest request = .ok () ↔ P.Storable request.fields.texts := by
  unfold onRequest
  split
  · rename_i hstored
    obtain ⟨json, hjson⟩ := Option.isSome_iff_exists.mp hstored
    simpa using (requestJson_eq_some.mp hjson).1
  · rename_i hstored
    have hnot : ¬ P.Storable request.fields.texts := fun htexts =>
      hstored (Option.isSome_iff_exists.mpr ⟨_, requestJson_eq_some.mpr ⟨htexts, rfl⟩⟩)
    simpa using hnot

theorem onRequest_eq_error {request : JobRequest P} {e : CreateError}
    (h : onRequest request = .error e) : e = .unstorable := by
  unfold onRequest at h
  split at h
  · cases h
  · exact (Except.error.inj h).symm

end Tables

/-! ### One step -/

section Step

variable {c : Call P} {db db' : Db} {r : Reply P}

/-- What a submission comes to: the row is inserted under an id nobody had, or nothing is. -/
theorem create_cases {job : Job P} {a b : Option ℕ} {t t' : Tables} {job' : Job P}
    (h : Jobs.create P job a b t = .ok (t', job')) :
    (t' = t ∧ ∃ key ∈ job.idempotencyKey, ∃ row, lookUpKey t job.clientId key = some row ∧
      rowToJob P row = .ok job' ∧ row.requestDigest = job.requestDigest) ∨
    (job' = job ∧ insertJob t job.row = some t' ∧
      onCounts a b (activeCounts t job.clientId) = .ok () ∧ onRequest job.request = .ok ()) := by
  unfold Jobs.create at h
  simp only [except_bind_eq_ok] at h
  obtain ⟨o, ho, h⟩ := h
  cases o with
  | some original =>
      obtain ⟨rfl, rfl⟩ := Prod.mk.inj (Except.ok.inj h)
      refine .inl ⟨rfl, ?_⟩
      cases hk : job.idempotencyKey with
      | none => simp [hk, onKeyRow] at ho
      | some key =>
          rw [hk, Option.bind_some] at ho
          refine ⟨key, rfl, ?_⟩
          unfold onKeyRow at ho
          split at ho
          · cases ho
          · rename_i row hrow
            split at ho
            · cases ho
            · rename_i original' horig
              split at ho
              · cases ho
              · rename_i hdigest
                obtain rfl := Option.some.inj (Except.ok.inj ho)
                refine ⟨row, hrow, horig, ?_⟩
                unfold rowToJob at horig
                split at horig
                · cases horig
                · obtain rfl := Except.ok.inj horig
                  simpa using hdigest
  | none =>
      simp only [except_bind_eq_ok] at h
      obtain ⟨⟨⟩, hcounts, ⟨⟩, hrequest, h⟩ := h
      split at h
      · cases h
      · rename_i t₁ hins
        obtain ⟨rfl, rfl⟩ := Prod.mk.inj (Except.ok.inj h)
        exact .inr ⟨rfl, hins, hcounts, hrequest⟩

theorem insertJob_eq_some {t t' : Tables} {row : Row} (h : insertJob t row = some t') :
    t.jobs.get? row.id = none ∧
      (∀ j, t'.jobs.get? j = if row.id = j then some row else t.jobs.get? j) ∧
      (∀ q, t'.jobs.matched q = t.jobs.matched q + if q row then 1 else 0) ∧
      t'.jobs.rows = row :: t.jobs.rows ∧
      (∀ key ∈ row.idempotencyKey, lookUpKey t row.clientId key = none) ∧
      t'.jobStats = t.jobStats ∧ t'.webhookOutbox = t.webhookOutbox := by
  unfold insertJob at h
  split at h
  · cases h
  · rename_i hkey
    obtain ⟨jobs, hins, rfl⟩ := Option.map_eq_some_iff.mp h
    obtain ⟨hnone, hrows⟩ := Table.insert_eq_some hins
    refine ⟨hnone, Table.get?_insert hins, Table.matched_insert hins, hrows, fun key hk => ?_, rfl,
      rfl⟩
    rw [Option.mem_def] at hk
    simpa [hk] using hkey

/-- The job a call's clause is about. -/
def Call.key : Call P → Option JobId
  | releaseForRetry jobId _ _ _ | setStage jobId _ _ _ | renewLease jobId _ _ _ _
  | cancel jobId _ _ _ _ | finish jobId _ _ _ _ _ _ | fail jobId _ _ _ _ _ _ _ => some jobId
  | _ => none

theorem id_of_heldBy {row : Row} {j : JobId} {w : Option WorkerId} (h : row.heldBy j w = true) :
    row.id = j := by
  simp only [Row.heldBy, Bool.and_eq_true, decide_eq_true_eq] at h
  exact h.1.1

theorem id_of_cancellable {row : Row} {j : JobId} {client : String}
    (h : row.cancellable j client = true) : row.id = j := by
  simp only [Row.cancellable, Bool.and_eq_true, decide_eq_true_eq] at h
  exact h.1.1

theorem Call.id_set (c : Call P) (row : Row) : (c.set row).id = row.id := by
  cases c <;> rfl

theorem Call.id_of_hit {j : JobId} {row : Row} (hk : c.key = some j) (h : c.hit row = true) :
    row.id = j := by
  cases c <;> simp only [Call.key, Option.some.injEq, reduceCtorEq] at hk <;> subst hk
  case cancel => exact id_of_cancellable h
  all_goals exact id_of_heldBy h

theorem Call.key_of_verdict {v : Verdict} (hv : c.verdict = some v) : c.key = some v.jobId := by
  cases c <;> simp only [Call.verdict, Option.some.injEq, reduceCtorEq] at hv <;> subst hv <;> rfl

/-- The three terminal calls are one transaction with different clauses. -/
theorem step_settle {v : Verdict} (h : c.step db = some (db', r)) (hv : c.verdict = some v) :
    settle db.tables c.hit c.set c.id_set v = some (db'.tables, r.positive) ∧
      db'.drawn = db.drawn := by
  have hkey := Call.key_of_verdict hv
  cases c <;> simp only [Call.verdict, Option.some.injEq, reduceCtorEq] at hv <;> subst hv
  case finish =>
    obtain ⟨⟨t, b⟩, hs, heq⟩ := Option.map_eq_some_iff.mp h
    obtain ⟨rfl, rfl⟩ := Prod.mk.inj heq
    exact ⟨(finish_eq_some hs).2, rfl⟩
  case fail =>
    obtain ⟨⟨t, b⟩, hs, heq⟩ := Option.map_eq_some_iff.mp h
    obtain ⟨rfl, rfl⟩ := Prod.mk.inj heq
    exact ⟨hs, rfl⟩
  case cancel j client url stamp now =>
    obtain ⟨⟨t, o⟩, hc, heq⟩ := Option.map_eq_some_iff.mp h
    obtain ⟨rfl, rfl⟩ := Prod.mk.inj heq
    obtain ⟨⟨t', b⟩, hs, heq⟩ := Option.map_eq_some_iff.mp hc
    obtain ⟨rfl, rfl⟩ := Prod.mk.inj heq
    refine ⟨?_, rfl⟩
    -- the row `RETURNING` gives is there exactly when the update hit
    rcases settle_cases hs (fun r hr => id_of_cancellable hr) with
      ⟨rfl, -, -⟩ | ⟨rfl, hjobs, row, hrow, -⟩
    · exact hs
    · have hget := (congrArg (·.get? j) hjobs).trans
        (get?_updateJobs db.tables (Row.cancellable j client) (Row.cancel now) (fun _ => rfl) j)
      have hrow' : db.tables.jobs.get? j = some row := hrow
      rw [hrow'] at hget
      have hpos : (Reply.row (P := P) (if true = true then t'.jobs.get? j else none)).positive =
          true := by
        rw [if_pos rfl, show t'.jobs.get? j = some _ from hget]
        rfl
      rw [hpos]
      exact hs

/-- The calls that are one `UPDATE` of `jobs`. -/
theorem step_update (h : c.step db = some (db', r))
    (hc : match c with
      | .releaseForRetry .. | .setAudioPath .. | .setStage .. | .renewLease .. => True
      | _ => False) :
    db' = ⟨(db.tables.updateJobs c.hit c.set c.id_set).1, db.drawn⟩ ∧
      (c.key.isSome → r.positive = (db.tables.updateJobs c.hit c.set c.id_set).2) := by
  cases c <;> simp only at hc
  all_goals
    obtain ⟨rfl, rfl⟩ := Prod.mk.inj (Option.some.inj h)
    exact ⟨rfl, fun hk => by first | rfl | cases hk⟩

/-- **A guarded call takes effect on its row, or changes nothing.** -/
theorem step_keyed {j : JobId} (h : c.step db = some (db', r)) (hk : c.key = some j) :
    (r.positive = false ∧ db' = db ∧ ∀ row, db.tables.jobs.get? j = some row → c.hit row = false) ∨
    (r.positive = true ∧ ∃ row, db.tables.jobs.get? j = some row ∧ c.hit row = true) := by
  cases hv : c.verdict with
  | some v =>
      obtain ⟨hs, hdrawn⟩ := step_settle h hv
      have hj : v.jobId = j := by
        rw [Call.key_of_verdict hv] at hk
        exact Option.some.inj hk
      subst hj
      rcases settle_cases hs (fun r hr => Call.id_of_hit hk hr) with
        ⟨hb, ht, hno⟩ | ⟨hb, -, row, hrow, hhit, -⟩
      · refine .inl ⟨hb, ?_, hno⟩
        obtain ⟨t, d⟩ := db
        obtain ⟨t', d'⟩ := db'
        exact Db.mk.injEq .. ▸ ⟨ht, hdrawn⟩
      · exact .inr ⟨hb, row, hrow, hhit⟩
  | none =>
      have hup := step_update h (by
        cases c <;> simp only [Call.key, Call.verdict, reduceCtorEq] at hk hv ⊢)
      obtain ⟨rfl, hpos⟩ := hup
      have hpos := hpos (by rw [hk]; rfl)
      have hsnd := updateJobs_snd db.tables c.id_set fun r hr => Call.id_of_hit hk hr
      cases hb : (db.tables.updateJobs c.hit c.set c.id_set).2 with
      | true => exact .inr ⟨hpos.trans hb, hsnd.mp hb⟩
      | false =>
          refine .inl ⟨hpos.trans hb, ?_, fun row hrow => Bool.eq_false_iff.mpr fun hh => ?_⟩
          · rw [updateJobs_of_not c.id_set (fun r hr => Call.id_of_hit hk hr) hb]
          · rw [hsnd.mpr ⟨row, hrow, hh⟩] at hb
            cases hb

/-- **What a call other than `create` does to `jobs`**: one `UPDATE`, which may select no row, or the
purge. -/
theorem jobs_step (h : c.step db = some (db', r)) (hc : ∀ new a b, c ≠ .create new a b) :
    db'.tables.jobs = db.tables.jobs.update c.hit c.set c.id_set ∨
    ∃ cutoff, c = .purgeOlderThan cutoff ∧
      db'.tables.jobs = db.tables.jobs.delete (Row.expired cutoff) := by
  have untouched : db'.tables.jobs = db.tables.jobs → (∀ row, c.hit row = false) →
      db'.tables.jobs = db.tables.jobs.update c.hit c.set c.id_set := by
    intro hjobs hno
    rw [hjobs, Table.update_of_matched_zero (Table.matched_eq_zero_iff.mpr fun r _ => hno r)]
  cases hv : c.verdict with
  | some v =>
      obtain ⟨hs, -⟩ := step_settle h hv
      have hkey : ∀ r, c.hit r = true → r.id = v.jobId := fun _ hr =>
        Call.id_of_hit (Call.key_of_verdict hv) hr
      refine .inl ?_
      rcases settle_cases hs hkey with ⟨-, ht, hno⟩ | ⟨-, hjobs, -⟩
      · rw [ht]
        refine (Table.update_of_matched_zero (Table.matched_eq_zero_iff.mpr fun r hr => ?_)).symm
        refine Bool.eq_false_iff.mpr fun hh => ?_
        rw [hno r (by rw [← hkey r hh]; exact Table.get?_of_mem hr)] at hh
        cases hh
      · exact hjobs
  | none =>
      cases c with
      | create new a b => exact absurd rfl (hc new a b)
      | claimNextQueued w now s ex locked pick =>
          obtain ⟨⟨t, o⟩, hclaim, heq⟩ := Option.map_eq_some_iff.mp h
          obtain ⟨rfl, rfl⟩ := Prod.mk.inj heq
          unfold Jobs.claimNextQueued at hclaim
          split at hclaim
          · obtain ⟨rfl, rfl⟩ := Prod.mk.inj (Option.some.inj hclaim)
            exact .inl rfl
          · cases hclaim
      | releaseForRetry | setAudioPath | setStage | renewLease =>
          obtain ⟨rfl, -⟩ := step_update h trivial
          exact .inl rfl
      | purgeOlderThan cutoff =>
          obtain ⟨rfl, rfl⟩ := Prod.mk.inj (Option.some.inj h)
          exact .inr ⟨cutoff, rfl, rfl⟩
      | purgeStatsOlderThan | markWebhookDelivered | rescheduleWebhook =>
          obtain ⟨rfl, rfl⟩ := Prod.mk.inj (Option.some.inj h)
          exact .inl (untouched rfl fun _ => rfl)
      | claimWebhook =>
          obtain ⟨⟨t, o⟩, hclaim, heq⟩ := Option.map_eq_some_iff.mp h
          obtain ⟨rfl, rfl⟩ := Prod.mk.inj heq
          unfold Jobs.claimWebhook at hclaim
          split at hclaim
          · obtain ⟨rfl, rfl⟩ := Prod.mk.inj (Option.some.inj hclaim)
            exact .inl (untouched rfl fun _ => rfl)
          · cases hclaim
      | cancel | finish | fail => cases hv

/-- **What `create` does**: it inserts its row under an id nobody had drawn, or nothing. -/
theorem create_step {new : NewJob P} {a b : Option ℕ}
    (h : (Call.create new a b).step db = some (db', r)) :
    new.id ∉ db.drawn ∧ db'.drawn = new.id :: db.drawn ∧
      (db'.tables = db.tables ∨
        r = .created (.ok new.job) ∧ P.Storable new.request.fields.texts ∧
          insertJob db.tables new.job.row = some db'.tables) := by
  rw [Call.step] at h
  split at h
  · cases h
  · rename_i hnew
    split at h
    · obtain ⟨rfl, rfl⟩ := Prod.mk.inj (Option.some.inj h)
      exact ⟨hnew, rfl, .inl rfl⟩
    · rename_i t job hc
      obtain ⟨rfl, rfl⟩ := Prod.mk.inj (Option.some.inj h)
      rcases create_cases hc with ⟨rfl, -⟩ | ⟨rfl, hins, -, hrequest⟩
      · exact ⟨hnew, rfl, .inl rfl⟩
      · exact ⟨hnew, rfl, .inr ⟨rfl, onRequest_eq_ok.mp hrequest, hins⟩⟩

/-- **What one call does to one row**: what its clauses say, or `create` has just made it. -/
theorem get?_step (h : c.step db = some (db', r)) (j : JobId) :
    db'.tables.jobs.get? j = (db.tables.jobs.get? j).bind c.onRow ∨
    ∃ new a b, c = .create new a b ∧ new.id = j ∧ new.id ∉ db.drawn ∧
      db.tables.jobs.get? j = none ∧ db'.tables.jobs.get? j = some new.job.row := by
  by_cases hc : ∀ new a b, c ≠ .create new a b
  · rcases jobs_step h hc with hjobs | ⟨cutoff, rfl, hjobs⟩
    · rw [hjobs, Table.get?_update]
      refine .inl ?_
      cases hrow : db.tables.jobs.get? j with
      | none => rfl
      | some row =>
          cases c with
          | purgeOlderThan cutoff =>
              -- the purge selects no row to update; it has deleted the expired ones
              obtain ⟨rfl, rfl⟩ := Prod.mk.inj (Option.some.inj h)
              have hget := (Table.get?_delete db.tables.jobs (Row.expired cutoff) j).symm.trans
                ((congrArg (·.get? j) hjobs).trans (Table.get?_update ..))
              rw [hrow] at hget
              cases hx : row.expired cutoff with
              | true => simp [Option.filter, hx] at hget
              | false => simp [Call.onRow, Call.hit, hx]
          | _ => rfl
    · rw [hjobs, Table.get?_delete]
      refine .inl ?_
      cases db.tables.jobs.get? j with
      | none => rfl
      | some row => cases hx : row.expired cutoff <;> simp [Call.onRow, hx, Option.filter]
  · obtain ⟨new, a, b, rfl⟩ : ∃ new a b, c = .create new a b := by
      simpa only [not_forall, ne_eq, not_not] using hc
    obtain ⟨hnew, -, ht | ⟨-, -, hins⟩⟩ := create_step h
    · rw [ht]
      exact .inl (Option.bind_fun_some _).symm
    · obtain ⟨hnone, hget, -⟩ := insertJob_eq_some hins
      by_cases hj : new.id = j
      · subst hj
        exact .inr ⟨new, a, b, rfl, rfl, hnew, hnone, by rw [hget]; exact if_pos rfl⟩
      · refine .inl ?_
        rw [hget]
        exact (if_neg hj).trans (Option.bind_fun_some _).symm

/-- A call that settles nothing leaves the statistics and the outbox to the retention purge and to
delivery. -/
theorem tables_step (h : c.step db = some (db', r)) (hv : ∀ j, c.settles r j = none) :
    (∀ j, db'.tables.jobStats.get? j =
      (db.tables.jobStats.get? j).filter fun stats => !c.purges stats) ∧
    ∀ e' ∈ db'.tables.webhookOutbox.rows, ∃ e ∈ db.tables.webhookOutbox.rows, e.id = e'.id := by
  have same : ∀ {t : Tables}, t.jobStats = db.tables.jobStats →
      t.webhookOutbox.rows = db.tables.webhookOutbox.rows → (∀ stats, c.purges stats = false) →
      (∀ j, t.jobStats.get? j = (db.tables.jobStats.get? j).filter fun stats => !c.purges stats) ∧
        ∀ e' ∈ t.webhookOutbox.rows, ∃ e ∈ db.tables.webhookOutbox.rows, e.id = e'.id := by
    intro t hstats hout hp
    refine ⟨fun j => ?_, fun e' he' => ⟨e', by rwa [← hout], rfl⟩⟩
    rw [hstats]
    cases db.tables.jobStats.get? j <;> simp [Option.filter, hp]
  have kept : ∀ {o : Table OutboxRow.id} {p f}, (∃ hf, o = db.tables.webhookOutbox.update p f hf) →
      ∀ e' ∈ o.rows, ∃ e ∈ db.tables.webhookOutbox.rows, e.id = e'.id := by
    rintro o p f ⟨hf, rfl⟩ e' he'
    obtain ⟨e, he, rfl⟩ := List.mem_map.mp he'
    refine ⟨e, he, ?_⟩
    split
    · exact (hf e).symm
    · rfl
  cases hverdict : c.verdict with
  | some v =>
      obtain ⟨hs, -⟩ := step_settle h hverdict
      have hpos : r.positive = false := by simpa [Call.settles, hverdict] using hv v.jobId
      rcases settle_cases hs fun r hr => Call.id_of_hit (Call.key_of_verdict hverdict) hr with
        ⟨-, ht, -⟩ | ⟨hb, -⟩
      · rw [ht]
        exact same rfl rfl fun stats => by cases c <;> first | rfl | cases hverdict
      · rw [hpos] at hb
        cases hb
  | none =>
      cases c with
      | create new a b =>
          rw [Call.step] at h
          split at h
          · cases h
          · split at h
            · obtain ⟨rfl, rfl⟩ := Prod.mk.inj (Option.some.inj h)
              exact same rfl rfl fun _ => rfl
            · rename_i t job hc
              obtain ⟨rfl, rfl⟩ := Prod.mk.inj (Option.some.inj h)
              rcases create_cases hc with ⟨rfl, -⟩ | ⟨rfl, hins, -⟩
              · exact same rfl rfl fun _ => rfl
              · obtain ⟨-, -, -, -, -, hstats, hout⟩ := insertJob_eq_some hins
                exact same hstats (by rw [hout]) fun _ => rfl
      | claimNextQueued w now s ex locked pick =>
          obtain ⟨⟨t, o⟩, hc, heq⟩ := Option.map_eq_some_iff.mp h
          obtain ⟨rfl, rfl⟩ := Prod.mk.inj heq
          unfold Jobs.claimNextQueued at hc
          split at hc
          · obtain ⟨rfl, rfl⟩ := Prod.mk.inj (Option.some.inj hc)
            exact same rfl rfl fun _ => rfl
          · cases hc
      | releaseForRetry | setAudioPath | setStage | renewLease =>
          obtain ⟨rfl, -⟩ := step_update h trivial
          exact same rfl rfl fun _ => rfl
      | purgeOlderThan cutoff =>
          obtain ⟨rfl, rfl⟩ := Prod.mk.inj (Option.some.inj h)
          exact ⟨(same rfl rfl fun _ => rfl).1, fun e' he' => ⟨e', List.mem_of_mem_filter he', rfl⟩⟩
      | purgeStatsOlderThan cutoff =>
          obtain ⟨rfl, rfl⟩ := Prod.mk.inj (Option.some.inj h)
          exact ⟨fun j => Table.get?_delete .., fun e' he' => ⟨e', he', rfl⟩⟩
      | markWebhookDelivered =>
          obtain ⟨rfl, rfl⟩ := Prod.mk.inj (Option.some.inj h)
          exact ⟨(same rfl rfl fun _ => rfl).1, fun e' he' => ⟨e', List.mem_of_mem_filter he', rfl⟩⟩
      | rescheduleWebhook =>
          obtain ⟨rfl, rfl⟩ := Prod.mk.inj (Option.some.inj h)
          exact ⟨(same rfl rfl fun _ => rfl).1, kept ⟨by exact fun _ => rfl, rfl⟩⟩
      | claimWebhook =>
          obtain ⟨⟨t, o⟩, hc, heq⟩ := Option.map_eq_some_iff.mp h
          obtain ⟨rfl, rfl⟩ := Prod.mk.inj heq
          unfold Jobs.claimWebhook at hc
          split at hc
          · obtain ⟨rfl, rfl⟩ := Prod.mk.inj (Option.some.inj hc)
            exact ⟨(same rfl rfl fun _ => rfl).1, kept ⟨by exact fun _ => rfl, rfl⟩⟩
          · cases hc
      | cancel | finish | fail => cases hverdict

/-- **What one call does to one statistics row**: the terminal transition writes it, unless there
is one, and only the purge deletes it. -/
theorem jobStats_step (h : c.step db = some (db', r)) (j : JobId) :
    (∃ v row, c.settles r j = some v ∧ db.tables.jobs.get? j = some row ∧ c.hit row = true ∧
      db'.tables.jobStats.get? j =
        some ((db.tables.jobStats.get? j).getD (v.statsRow (c.set row)))) ∨
    (c.settles r j = none ∧ db'.tables.jobStats.get? j =
      (db.tables.jobStats.get? j).filter fun stats => !c.purges stats) := by
  by_cases hv : ∀ j, c.settles r j = none
  · exact .inr ⟨hv j, (tables_step h hv).1 j⟩
  · obtain ⟨k, hk⟩ := not_forall.mp hv
    obtain ⟨v, hk⟩ := Option.ne_none_iff_exists'.mp hk
    unfold Call.settles at hk
    split at hk
    · rename_i hpos
      obtain ⟨hverdict, -⟩ := Option.filter_eq_some_iff.mp hk
      obtain ⟨hs, -⟩ := step_settle h hverdict
      have hkey : ∀ r, c.hit r = true → r.id = v.jobId := fun _ hr =>
        Call.id_of_hit (Call.key_of_verdict hverdict) hr
      rcases settle_cases hs hkey with ⟨hb, -⟩ | ⟨-, -, row, hrow, hhit, hstats, -⟩
      · rw [hpos] at hb
        cases hb
      · have hid : (v.statsRow (c.set row)).jobId = v.jobId := (c.id_set row).trans (hkey row hhit)
        by_cases hj : v.jobId = j
        · subst hj
          refine .inl ⟨v, row, ?_, hrow, hhit, ?_⟩
          · simp [Call.settles, hpos, hverdict]
          · rw [hstats]
            cases hins : db.tables.jobStats.insert (v.statsRow (c.set row)) with
            | none =>
                obtain ⟨old, hold⟩ := Table.insert_eq_none_iff.mp hins
                rw [hid] at hold
                rw [Option.getD_none, hold, Option.getD_some]
            | some stats =>
                have hnone := (Table.insert_eq_some hins).1
                rw [hid] at hnone
                rw [Option.getD_some, Table.get?_insert hins, if_pos hid, hnone, Option.getD_none]
        · refine .inr ⟨by simp [Call.settles, hpos, hverdict, hj], ?_⟩
          have hp : ∀ stats, c.purges stats = false := by
            intro stats
            cases c <;> first | rfl | cases hverdict
          have hsame : db'.tables.jobStats.get? j = db.tables.jobStats.get? j := by
            rw [hstats]
            cases hins : db.tables.jobStats.insert (v.statsRow (c.set row)) with
            | none => rfl
            | some stats => rw [Option.getD_some, Table.get?_insert hins, if_neg (by rwa [hid])]
          rw [hsame]
          cases db.tables.jobStats.get? j <;> simp [Option.filter, hp]
    · cases hk

/-- **What one call adds to the outbox for one job**: the event of its terminal transition. -/
theorem webhookOutbox_step (h : c.step db = some (db', r)) (j : JobId) :
    (db'.tables.webhookOutbox.rows.filter fun e =>
      (db.tables.webhookOutbox.get? e.id).isNone && e.jobId = j) =
      ((c.settles r j).map Verdict.events).getD [] := by
  have old : ∀ {l : List OutboxRow}, (∀ e' ∈ l, ∃ e ∈ db.tables.webhookOutbox.rows, e.id = e'.id) →
      (l.filter fun e => (db.tables.webhookOutbox.get? e.id).isNone && e.jobId = j) = [] := by
    intro l hl
    refine List.filter_eq_nil_iff.mpr fun e' he' => ?_
    obtain ⟨e, he, hid⟩ := hl e' he'
    simp [← hid, Table.get?_of_mem he]
  by_cases hv : ∀ j, c.settles r j = none
  · rw [old (tables_step h hv).2, hv j]
    rfl
  · obtain ⟨k, hk⟩ := not_forall.mp hv
    obtain ⟨v, hk⟩ := Option.ne_none_iff_exists'.mp hk
    unfold Call.settles at hk
    split at hk
    · rename_i hpos
      obtain ⟨hverdict, -⟩ := Option.filter_eq_some_iff.mp hk
      obtain ⟨hs, -⟩ := step_settle h hverdict
      rcases settle_cases hs fun _ hr => Call.id_of_hit (Call.key_of_verdict hverdict) hr with
        ⟨hb, -⟩ | ⟨-, -, row, -, -, -, hrows, hnew⟩
      · rw [hpos] at hb
        cases hb
      · have hjob : ∀ e ∈ v.events, e.jobId = v.jobId := by
          simp [Verdict.events, Verdict.event]
        rw [hrows, List.filter_append, old fun e he => ⟨e, he, rfl⟩, List.append_nil, Call.settles,
          if_pos hpos, hverdict]
        by_cases hj : v.jobId = j
        · rw [Option.filter_some_pos (by simpa using hj), Option.map_some, Option.getD_some]
          exact List.filter_eq_self.mpr fun e he => by simp [hnew e he, hjob e he, hj]
        · rw [Option.filter_some_neg (by simpa using hj)]
          exact List.filter_eq_nil_iff.mpr fun e he => by simp [hjob e he, hj]
    · cases hk

/-- Ids are drawn by `create` and stay drawn. -/
theorem drawn_step (h : c.step db = some (db', r)) (j : JobId) :
    j ∈ db'.drawn ↔ j ∈ db.drawn ∨ ∃ new a b, c = .create new a b ∧ new.id = j := by
  cases hverdict : c.verdict with
  | some v =>
      rw [(step_settle h hverdict).2]
      refine ⟨.inl, fun hj => hj.resolve_right ?_⟩
      rintro ⟨new, a, b, rfl, -⟩
      cases hverdict
  | none =>
      cases c with
      | create new a b =>
          rw [Call.step] at h
          split at h
          · cases h
          · split at h <;>
            · obtain ⟨rfl, rfl⟩ := Prod.mk.inj (Option.some.inj h)
              simp only [List.mem_cons, Call.create.injEq]
              refine ⟨fun hj => hj.elim (fun e => .inr ⟨_, _, _, ⟨rfl, rfl, rfl⟩, e.symm⟩) .inl, ?_⟩
              rintro (hj | ⟨_, _, _, ⟨rfl, -, -⟩, rfl⟩)
              · exact .inr hj
              · exact .inl rfl
      | claimNextQueued | claimWebhook =>
          obtain ⟨⟨t, o⟩, -, heq⟩ := Option.map_eq_some_iff.mp h
          obtain ⟨rfl, rfl⟩ := Prod.mk.inj heq
          simp
      | cancel | finish | fail => cases hverdict
      | _ =>
          obtain ⟨rfl, rfl⟩ := Prod.mk.inj (Option.some.inj h)
          simp

end Step

end Machine

end Vemsa.Jobs
