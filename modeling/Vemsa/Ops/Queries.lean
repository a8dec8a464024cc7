import Vemsa.Support.Grouping
import Vemsa.Jobs.Lifecycle
import Vemsa.Jobs.Timestamps

/-!
# Ops — Queries

The throughput of the dashboard: `job_stats` in buckets.  The starts of the buckets are listed in
Python, from the first one on; the rows are put into them in SQL, by `date_bin`.

* `mem_starts`: the starts are the multiples of the bucket within the range, from its first instant.
* `dateBin_mem_starts`: `date_bin` names one of them.
* `fill_ok`: the loop over the rows adds each to its bucket.
* `throughput_accounts`: every row is in a bucket, and the buckets add up to the tasks.

Times are in microseconds.  The sums are exact: amounts are in any commutative monoid.  A query may
return its rows in any order.
-/

namespace Vemsa.Ops
open Vemsa.Support Vemsa.Jobs

/-! ### Ranges -/

/-- The keys of `WINDOWS`. -/
inductive Window where
  | h1 | h6 | h24 | d7 | d30
deriving DecidableEq

def minutes (n : ℤ) : Time := n * 60 * 1000000

def hours (n : ℤ) : Time := minutes (n * 60)

def days (n : ℤ) : Time := hours (n * 24)

/-- The span and the throughput bucket of an entry of `WINDOWS`. -/
structure WindowSpec where
  span : Time
  bucket : Time
  positive : 0 < bucket

/-- `WINDOWS` -/
def windows : Window → WindowSpec
  | .h1 => ⟨hours 1, minutes 5, by decide⟩
  | .h6 => ⟨hours 6, minutes 15, by decide⟩
  | .h24 => ⟨hours 24, hours 1, by decide⟩
  | .d7 => ⟨days 7, hours 6, by decide⟩
  | .d30 => ⟨days 30, days 1, by decide⟩

/-- `Range`; with a bucket that is not positive, `starts` would have no end. -/
structure Range where
  window : Window
  since : Time
  until_ : Time
  bucket : Time
  positive : 0 < bucket

/-- `Range.for_window`, from the current time; the epoch is 0. -/
def Range.forWindow (window : Window) (bucket : Time) (positive : 0 < bucket) (now : Time) : Range :=
  let since := now - (windows window).span
  { window, since := since - since % bucket, until_ := now, bucket, positive }

/-- The range of `/api/throughput`: `_range(window, bucket_index=1)` -/
def throughputRange (window : Window) (now : Time) : Range :=
  .forWindow window (windows window).bucket (windows window).positive now

/-- The loop of `Range.starts`. -/
def startsFrom (until_ bucket : Time) (positive : 0 < bucket) (start : Time) : List Time :=
  if start < until_ then start :: startsFrom until_ bucket positive (start + bucket) else []
termination_by (until_ - start).toNat
decreasing_by exact (Int.toNat_lt_toNat (by linarith)).mpr (by linarith)

/-- `Range.starts` -/
def Range.starts (span : Range) : List Time :=
  startsFrom span.until_ span.bucket span.positive span.since

/-- `date_bin(stride, t, origin)` of the database, which rounds down. -/
def dateBin (stride t origin : Time) : Time := origin + (t - origin) / stride * stride

section Starts

variable {until_ bucket start t : Time} {positive : 0 < bucket} {span : Range}

theorem mem_startsFrom : t ∈ startsFrom until_ bucket positive start ↔
    ∃ k : ℕ, t = start + k * bucket ∧ t < until_ := by
  induction start using startsFrom.induct until_ bucket positive with
  | case1 start hmore ih =>
      rw [startsFrom, if_pos hmore, List.mem_cons, ih]
      constructor
      · rintro (rfl | ⟨k, rfl, hlt⟩)
        · exact ⟨0, by simp, hmore⟩
        · exact ⟨k + 1, by push_cast; ring, hlt⟩
      · rintro ⟨k, rfl, hlt⟩
        cases k with
        | zero => exact .inl (by simp)
        | succ k => exact .inr ⟨k, by push_cast; ring, hlt⟩
  | case2 start hdone =>
      rw [startsFrom, if_neg hdone]
      refine iff_of_false List.not_mem_nil ?_
      rintro ⟨k, rfl, hlt⟩
      have hk : 0 ≤ (k : ℤ) * bucket := by positivity
      linarith

/-- Each start is at least a bucket before the next. -/
theorem startsFrom_spaced : (startsFrom until_ bucket positive start).Pairwise fun a b => a + bucket ≤ b := by
  induction start using startsFrom.induct until_ bucket positive with
  | case1 start hmore ih =>
      rw [startsFrom, if_pos hmore]
      refine List.pairwise_cons.mpr ⟨fun t ht => ?_, ih⟩
      obtain ⟨k, rfl, -⟩ := mem_startsFrom.mp ht
      have hk : 0 ≤ (k : ℤ) * bucket := by positivity
      linarith
  | case2 start hdone =>
      rw [startsFrom, if_neg hdone]
      exact .nil

theorem mem_starts : t ∈ span.starts ↔ ∃ k : ℕ, t = span.since + k * span.bucket ∧ t < span.until_ :=
  mem_startsFrom

theorem starts_nodup (span : Range) : span.starts.Nodup :=
  startsFrom_spaced.imp fun hspaced heq => by
    have hpositive := span.positive
    linarith

/-! ### Binning -/

/-- The bin of an instant begins at most a stride before it. -/
theorem dateBin_le (positive : 0 < bucket) (t origin : Time) :
    dateBin bucket t origin ≤ t ∧ t < dateBin bucket t origin + bucket := by
  have hdiv := Int.emod_add_mul_ediv (t - origin) bucket
  have hnonneg := Int.emod_nonneg (t - origin) positive.ne'
  have hlt := Int.emod_lt_of_pos (t - origin) positive
  rw [dateBin, Int.mul_comm]
  exact ⟨by linarith, by linarith⟩

/-- **The bin of a row of the range is one of the buckets.** -/
theorem dateBin_mem_starts (hsince : span.since ≤ t) (huntil : t < span.until_) :
    dateBin span.bucket t span.since ∈ span.starts := by
  refine mem_starts.mpr ⟨((t - span.since) / span.bucket).toNat, ?_, ?_⟩
  · rw [Int.toNat_of_nonneg (Int.ediv_nonneg (by linarith) span.positive.le)]
    rfl
  · exact (dateBin_le span.positive t span.since).1.trans_lt huntil

end Starts

/-! ### Tables -/

/-- `job_stats`, with its `CHECK` of the status. -/
structure JobStats where
  table : Table StatsRow.jobId
  check : ∀ row ∈ table.rows, row.status.isTerminal = true

/-- The numbers that are added up. -/
@[ext]
structure Figures (A : Type) where
  completed : ℕ
  failed : ℕ
  cancelled : ℕ
  audioSeconds : A
  processingS : A

/-- A row of the first query of `throughput`. -/
structure BucketRow (A : Type) where
  bucket : Time
  status : JobStatus
  jobs : ℕ
  audioSeconds : A
  processingS : A

/-- A row of its second query. -/
structure TaskRow (A : Type) extends Figures A where
  task : Option String

/-- An entry of `buckets`. -/
structure Bucket (A : Type) extends Figures A where
  start : Time

/-- What `throughput` returns. -/
structure Throughput (A : Type) where
  buckets : List (Bucket A)
  byTask : List (TaskRow A)
  totals : Figures A

/-- The exception of a key that a `dict` lacks. -/
structure KeyError where
  key : JobStatus

section Queries

variable {A : Type} [AddCommMonoid A]

instance : Zero (Figures A) := ⟨⟨0, 0, 0, 0, 0⟩⟩

instance : Add (Figures A) :=
  ⟨fun x y => ⟨x.completed + y.completed, x.failed + y.failed, x.cancelled + y.cancelled,
    x.audioSeconds + y.audioSeconds, x.processingS + y.processingS⟩⟩

instance : AddCommMonoid (Figures A) where
  add_assoc x y z := by ext <;> exact add_assoc ..
  zero_add x := by ext <;> exact zero_add _
  add_zero x := by ext <;> exact add_zero _
  add_comm x y := by ext <;> exact add_comm ..
  nsmul := nsmulRec

variable (amount : PyFloat → A)

/-- `COALESCE(SUM(column), 0)` -/
def sqlSum (column : List (Option PyFloat)) : A := (column.filterMap fun x => x.map amount).sum

/-- `WHERE finished_at >= $1 AND finished_at < $2` -/
def JobStats.finishedIn (stats : JobStats) (span : Range) : List StatsRow :=
  stats.table.rows.filter fun row => span.since ≤ row.finishedAt ∧ row.finishedAt < span.until_

/-- `date_bin($3::interval, finished_at, $1::timestamptz) AS bucket, status` -/
def binKey (span : Range) (row : StatsRow) : Time × JobStatus :=
  (dateBin span.bucket row.finishedAt span.since, row.status)

def bucketRow (group : (Time × JobStatus) × List StatsRow) : BucketRow A where
  bucket := group.1.1
  status := group.1.2
  jobs := group.2.length
  audioSeconds := sqlSum amount (group.2.map StatsRow.audioSeconds)
  processingS := sqlSum amount (group.2.map StatsRow.processingS)

/-- The first query of `throughput`. -/
def JobStats.bucketQuery (stats : JobStats) (span : Range) : List (BucketRow A) :=
  (groupBy (binKey span) (stats.finishedIn span)).map (bucketRow amount)

/-- The aggregates of the second query. -/
def taskFigures (group : List StatsRow) : Figures A :=
  let completed := group.filter fun row => row.status = .completed
  { completed := group.countP fun row => row.status = .completed
    failed := group.countP fun row => row.status = .failed
    cancelled := group.countP fun row => row.status = .cancelled
    audioSeconds := sqlSum amount (completed.map StatsRow.audioSeconds)
    processingS := sqlSum amount (completed.map StatsRow.processingS) }

/-- The second query of `throughput`. -/
def JobStats.taskQuery (stats : JobStats) (span : Range) : List (TaskRow A) :=
  (groupBy StatsRow.task (stats.finishedIn span)).map fun group =>
    { toFigures := taskFigures amount group.2, task := group.1 }

/-! ### Throughput -/

/-- `bucket[row["status"]] += int(row["jobs"])` -/
def Figures.addJobs (figures : Figures A) (status : JobStatus) (jobs : ℕ) :
    Except KeyError (Figures A) :=
  match status with
  | .completed => .ok { figures with completed := figures.completed + jobs }
  | .failed => .ok { figures with failed := figures.failed + jobs }
  | .cancelled => .ok { figures with cancelled := figures.cancelled + jobs }
  | .queued | .running => .error ⟨status⟩

/-- The body of the loop, for a row whose bucket is known. -/
def Figures.addRow (figures : Figures A) (row : BucketRow A) : Except KeyError (Figures A) := do
  let figures ← figures.addJobs row.status row.jobs
  if row.status = .completed then
    return { figures with
      audioSeconds := figures.audioSeconds + row.audioSeconds
      processingS := figures.processingS + row.processingS }
  else return figures

/-- The loop over the rows; `buckets` is a `dict` by the start. -/
def fill : List (BucketRow A) → List (Bucket A) → Except KeyError (List (Bucket A))
  | [], buckets => return buckets
  | row :: rows, buckets =>
    match buckets.find? fun bucket => bucket.start = row.bucket with
    | none => fill rows buckets
    | some bucket => do
      let figures ← bucket.toFigures.addRow row
      fill rows (buckets.map fun other =>
        if other.start = row.bucket then { other with toFigures := figures } else other)

/-- `throughput`, on what its two queries return -/
def throughput (span : Range) (rows : List (BucketRow A)) (byTask : List (TaskRow A)) :
    Except KeyError (Throughput A) := do
  let buckets ← fill rows (span.starts.map fun start => { toFigures := 0, start })
  return { buckets, byTask, totals := (buckets.map Bucket.toFigures).sum }

/-! ### What a job counts for -/

/-- What a job adds to the figures. -/
def jobFigures (row : StatsRow) : Figures A := taskFigures amount [row]

/-- What a row of the first query adds to them. -/
def BucketRow.figures (row : BucketRow A) : Figures A :=
  match row.status with
  | .completed => ⟨row.jobs, 0, 0, row.audioSeconds, row.processingS⟩
  | .failed => ⟨0, row.jobs, 0, 0, 0⟩
  | .cancelled => ⟨0, 0, row.jobs, 0, 0⟩
  | .queued | .running => 0

variable {amount} {span : Range} {stats : JobStats}

theorem sqlSum_append (column column' : List (Option PyFloat)) :
    sqlSum amount (column ++ column') = sqlSum amount column + sqlSum amount column' := by
  simp [sqlSum]

theorem taskFigures_append (group group' : List StatsRow) :
    taskFigures amount (group ++ group') = taskFigures amount group + taskFigures amount group' := by
  refine Figures.ext List.countP_append List.countP_append List.countP_append ?_ ?_
  · simp only [taskFigures, List.filter_append, List.map_append, sqlSum_append]
    rfl
  · simp only [taskFigures, List.filter_append, List.map_append, sqlSum_append]
    rfl

/-- **The aggregates of a group** are what its jobs count for. -/
theorem taskFigures_eq_sum (group : List StatsRow) :
    taskFigures amount group = (group.map (jobFigures amount)).sum := by
  induction group with
  | nil => rfl
  | cons row group ih =>
      rw [List.map_cons, List.sum_cons, ← ih]
      exact taskFigures_append [row] group

/-- A group of one status has what its row says. -/
theorem bucketRow_figures {group : (Time × JobStatus) × List StatsRow}
    (hstatus : ∀ row ∈ group.2, row.status = group.1.2) :
    (bucketRow amount group).figures = (group.2.map (jobFigures amount)).sum := by
  obtain ⟨⟨bin, status⟩, jobs⟩ := group
  have hcount : ∀ status', (jobs.countP fun row => row.status = status') =
      if status = status' then jobs.length else 0 := fun status' => by
    split
    · rename_i heq
      exact List.countP_eq_length.mpr fun row hrow => by simpa using (hstatus row hrow).trans heq
    · rename_i hne
      refine List.countP_eq_zero.mpr fun row hrow => ?_
      simpa [hstatus row hrow] using hne
  have hcompleted : (jobs.filter fun row => row.status = .completed) =
      if status = .completed then jobs else [] := by
    split
    · rename_i heq
      exact List.filter_eq_self.mpr fun row hrow => by simpa using (hstatus row hrow).trans heq
    · rename_i hne
      refine List.filter_eq_nil_iff.mpr fun row hrow => ?_
      simpa [hstatus row hrow] using hne
  rw [← taskFigures_eq_sum, taskFigures, hcompleted]
  simp only [hcount]
  cases status <;> rfl

/-! ### Filling the buckets -/

theorem addRow_ok {figures : Figures A} {row : BucketRow A} (h : row.status.isTerminal = true) :
    figures.addRow row = .ok (figures + row.figures) := by
  obtain ⟨bucket, status, jobs, audioSeconds, processingS⟩ := row
  cases status with
  | queued | running => cases h
  | completed => rfl
  | failed =>
      exact congrArg Except.ok
        (Figures.ext (add_zero _).symm rfl (add_zero _).symm (add_zero _).symm (add_zero _).symm)
  | cancelled =>
      exact congrArg Except.ok
        (Figures.ext (add_zero _).symm (add_zero _).symm rfl (add_zero _).symm (add_zero _).symm)

/-- What rows add to a bucket. -/
def addedTo (start : Time) (rows : List (BucketRow A)) : Figures A :=
  ((rows.filter fun row => row.bucket = start).map BucketRow.figures).sum

theorem addedTo_cons (start : Time) (row : BucketRow A) (rows : List (BucketRow A)) :
    addedTo start (row :: rows) =
      if row.bucket = start then row.figures + addedTo start rows else addedTo start rows := by
  rw [addedTo, List.filter_cons]
  by_cases h : row.bucket = start <;> simp [h, addedTo]

/-- **The loop** adds every row to its bucket, if it has one. -/
theorem fill_ok {rows : List (BucketRow A)} {buckets : List (Bucket A)}
    (hstatus : ∀ row ∈ rows, row.status.isTerminal = true) (hstarts : (buckets.map Bucket.start).Nodup) :
    fill rows buckets = .ok (buckets.map fun bucket =>
      { bucket with toFigures := bucket.toFigures + addedTo bucket.start rows }) := by
  induction rows generalizing buckets with
  | nil =>
      have hsame : ∀ bucket : Bucket A, { bucket with toFigures := bucket.toFigures + addedTo bucket.start [] } =
          bucket := fun bucket => congrArg (Bucket.mk · _) (add_zero _)
      simp only [hsame, List.map_id']
      rfl
  | cons row rows ih =>
      obtain ⟨hrow, hrows⟩ := List.forall_mem_cons.mp hstatus
      rw [fill]
      split
      · rename_i hnone
        rw [ih hrows hstarts]
        refine congrArg Except.ok (List.map_congr_left fun bucket hbucket => ?_)
        have hne : row.bucket ≠ bucket.start := fun heq => by
          simpa [heq] using List.find?_eq_none.mp hnone bucket hbucket
        rw [addedTo_cons, if_neg hne]
      · rename_i bucket hfound
        have hbucket := List.mem_of_find?_eq_some hfound
        have hstart : bucket.start = row.bucket := by
          simpa using List.find?_some hfound
        rw [addRow_ok hrow]
        change fill rows _ = _
        rw [ih hrows, List.map_map]
        · refine congrArg Except.ok (List.map_congr_left fun other hother => ?_)
          by_cases heq : other.start = row.bucket
          · -- the starts differ, so this is the bucket that was found
            obtain rfl := List.inj_on_of_nodup_map hstarts hother hbucket (heq.trans hstart.symm)
            simp [heq, addedTo_cons, add_assoc]
          · have hne : row.bucket ≠ other.start := fun h => heq h.symm
            simp [heq, addedTo_cons, hne]
        · have hsame : ∀ other : Bucket A, (if other.start = row.bucket then
              { other with toFigures := bucket.toFigures + row.figures } else other).start =
              other.start := fun other => by split <;> rfl
          simpa [Function.comp_def, hsame] using hstarts

/-! ### The answer -/

/-- The jobs whose bin starts there. -/
def JobStats.binned (stats : JobStats) (span : Range) (start : Time) : List StatsRow :=
  (stats.finishedIn span).filter fun row => dateBin span.bucket row.finishedAt span.since = start

theorem terminal_of_finishedIn {row : StatsRow} (h : row ∈ stats.finishedIn span) :
    row.status.isTerminal = true := stats.check row (List.mem_filter.mp h).1

theorem mem_finishedIn {row : StatsRow} : row ∈ stats.finishedIn span ↔
    row ∈ stats.table.rows ∧ span.since ≤ row.finishedAt ∧ row.finishedAt < span.until_ := by
  simp [JobStats.finishedIn]

/-- A row of the first query comes from a job. -/
theorem mem_bucketQuery {row : BucketRow A} (h : row ∈ stats.bucketQuery amount span) :
    ∃ job ∈ stats.finishedIn span, row.status = job.status ∧
      row.bucket = dateBin span.bucket job.finishedAt span.since := by
  obtain ⟨group, hgroup, rfl⟩ := List.mem_map.mp h
  obtain ⟨⟨job, hjob, hkey⟩, -⟩ := mem_groupBy hgroup
  exact ⟨job, hjob, congrArg Prod.snd hkey.symm, congrArg Prod.fst hkey.symm⟩

/-- **What the first query adds to a bucket** is what the jobs binned there count for. -/
theorem addedTo_bucketQuery (start : Time) :
    addedTo start (stats.bucketQuery amount span) =
      ((stats.binned span start).map (jobFigures amount)).sum := by
  have hfigures : ∀ group ∈ groupBy (binKey span) (stats.finishedIn span),
      (bucketRow amount group).figures = (group.2.map (jobFigures amount)).sum := fun group hgroup => by
    obtain ⟨-, hitems⟩ := mem_groupBy hgroup
    refine bucketRow_figures fun row hrow => ?_
    rw [hitems] at hrow
    exact congrArg Prod.snd (of_decide_eq_true (List.mem_filter.mp hrow).2)
  rw [JobStats.binned, addedTo, JobStats.bucketQuery, List.filter_map, List.map_map]
  refine (congrArg List.sum (List.map_congr_left fun group hgroup => ?_)).trans
    (sum_groups_filter (fun k => k.1 = start) (binKey span) (jobFigures amount) _)
  exact hfigures group (List.mem_filter.mp hgroup).1

theorem binned_sum (stats : JobStats) (span : Range) : (span.starts.map fun start =>
    ((stats.binned span start).map (jobFigures amount)).sum).sum =
      ((stats.finishedIn span).map (jobFigures amount)).sum :=
  sum_keyed (starts_nodup span) fun row hrow => by
    obtain ⟨-, hsince, huntil⟩ := mem_finishedIn.mp hrow
    exact dateBin_mem_starts hsince huntil

/-- **The answer**: each bucket with the jobs that finished in it. -/
theorem throughput_ok {rows : List (BucketRow A)} {tasks : List (TaskRow A)}
    (hrows : rows.Perm (stats.bucketQuery amount span)) :
    throughput span rows tasks = .ok
      { buckets := span.starts.map fun start =>
          { toFigures := ((stats.binned span start).map (jobFigures amount)).sum, start }
        byTask := tasks
        totals := ((stats.finishedIn span).map (jobFigures amount)).sum } := by
  have hstatus : ∀ row ∈ rows, row.status.isTerminal = true := fun row hrow => by
    obtain ⟨job, hjob, hsame, -⟩ := mem_bucketQuery (hrows.mem_iff.mp hrow)
    rw [hsame]
    exact terminal_of_finishedIn hjob
  have hstarts : ((span.starts.map fun start => Bucket.mk (0 : Figures A) start).map Bucket.start).Nodup := by
    simpa [Function.comp_def] using starts_nodup span
  have hadded : ∀ start, (0 : Figures A) + addedTo start rows =
      ((stats.binned span start).map (jobFigures amount)).sum := fun start => by
    rw [zero_add, ← addedTo_bucketQuery]
    exact ((hrows.filter _).map _).sum_eq
  rw [throughput, fill_ok hstatus hstarts, List.map_map]
  simp only [Function.comp_def, hadded]
  rw [← binned_sum]
  change Except.ok _ = Except.ok _
  rw [List.map_map]
  rfl

/-- A row of the second query has what the jobs of its task count for. -/
theorem figures_of_taskQuery {row : TaskRow A} (h : row ∈ stats.taskQuery amount span) :
    row.toFigures =
      (((stats.finishedIn span).filter fun job => job.task = row.task).map (jobFigures amount)).sum := by
  obtain ⟨group, hgroup, rfl⟩ := List.mem_map.mp h
  rw [← (mem_groupBy hgroup).2]
  exact taskFigures_eq_sum group.2

theorem taskQuery_sum {tasks : List (TaskRow A)} (htasks : tasks.Perm (stats.taskQuery amount span)) :
    (tasks.map TaskRow.toFigures).sum = ((stats.finishedIn span).map (jobFigures amount)).sum := by
  rw [(htasks.map _).sum_eq, JobStats.taskQuery, List.map_map, ← sum_groups StatsRow.task]
  exact congrArg List.sum (List.map_congr_left fun group _ => taskFigures_eq_sum group.2)

end Queries

/-- The tables of every run of the store pass the check. -/
def JobStats.ofRun {P : Pydantic} {h : StoreLog P} {s : Db} (run : (storeMachine P).Run h s) : JobStats where
  table := s.tables.jobStats
  check := fun _ hrow => (stats_agree run (Table.get?_of_mem hrow)).1.1

/-- **Throughput accounts for every job.**  Every job of the range is in one of the buckets, which are
disjoint and cover the range; no row of the query is skipped; each bucket and each task has what its jobs
count for; and the totals of the buckets are those of the tasks, and of all jobs of the range. -/
theorem throughput_accounts {A : Type} [AddCommMonoid A] (amount : PyFloat → A) (stats : JobStats)
    (window : Window) (now : Time) {rows : List (BucketRow A)} {tasks : List (TaskRow A)}
    (hrows : rows.Perm (stats.bucketQuery amount (throughputRange window now)))
    (htasks : tasks.Perm (stats.taskQuery amount (throughputRange window now))) :
    let span := throughputRange window now
    (∀ job ∈ stats.table.rows, span.since ≤ job.finishedAt → job.finishedAt < span.until_ →
      ∃ start ∈ span.starts, start = dateBin span.bucket job.finishedAt span.since ∧
        job.finishedAt ∈ Set.Ico start (start + span.bucket)) ∧
    (∀ row ∈ rows, row.bucket ∈ span.starts) ∧
    (span.starts.Pairwise fun a b => Disjoint (Set.Ico a (a + span.bucket)) (Set.Ico b (b + span.bucket))) ∧
    (Set.Ico span.since span.until_ ⊆ ⋃ start ∈ span.starts, Set.Ico start (start + span.bucket)) ∧
    ∃ answer, throughput span rows tasks = .ok answer ∧ answer.buckets.map Bucket.start = span.starts ∧
      (∀ bucket ∈ answer.buckets,
        bucket.toFigures = ((stats.binned span bucket.start).map (jobFigures amount)).sum) ∧
      answer.byTask = tasks ∧
      (∀ row ∈ answer.byTask, row.toFigures =
        (((stats.finishedIn span).filter fun job => job.task = row.task).map (jobFigures amount)).sum) ∧
      answer.totals = ((stats.finishedIn span).map (jobFigures amount)).sum ∧
      answer.totals = (answer.buckets.map Bucket.toFigures).sum ∧
      answer.totals = (answer.byTask.map TaskRow.toFigures).sum := by
  intro span
  have hbin : ∀ t, span.since ≤ t → t < span.until_ → ∃ start ∈ span.starts,
      start = dateBin span.bucket t span.since ∧ t ∈ Set.Ico start (start + span.bucket) :=
    fun t hsince huntil =>
      ⟨_, dateBin_mem_starts hsince huntil, rfl, dateBin_le span.positive t span.since⟩
  refine ⟨fun job _ => hbin job.finishedAt, fun row hrow => ?_, ?_, fun t ht => ?_, ?_⟩
  · obtain ⟨job, hjob, -, hbucket⟩ := mem_bucketQuery (hrows.mem_iff.mp hrow)
    obtain ⟨-, hsince, huntil⟩ := mem_finishedIn.mp hjob
    rw [hbucket]
    exact dateBin_mem_starts hsince huntil
  · refine startsFrom_spaced.imp fun {a b} hspaced => Set.disjoint_left.mpr fun t ha hb => ?_
    exact absurd (ha.2.trans_le hspaced) (not_lt.mpr hb.1)
  · obtain ⟨start, hstart, -, hmem⟩ := hbin t ht.1 ht.2
    exact Set.mem_biUnion hstart hmem
  · refine ⟨_, throughput_ok hrows, by simp [Function.comp_def], ?_, rfl, fun row hrow => ?_, rfl, ?_,
      (taskQuery_sum htasks).symm⟩
    · rintro bucket hbucket
      obtain ⟨start, -, rfl⟩ := List.mem_map.mp hbucket
      rfl
    · exact figures_of_taskQuery (htasks.mem_iff.mp hrow)
    · rw [List.map_map]
      exact (binned_sum stats span).symm

/-- A job that finished on the edge of a bucket, and one that failed in the last, which is cut short. -/
def twoJobs : JobStats where
  table := ⟨[
    { jobId := "a", clientId := "c", status := .completed, task := some "transcribe", engine := none,
      model := none, language := none, alignment := none, device := none, workerId := none, attempts := 1,
      createdAt := 0, startedAt := none, finishedAt := minutes 5, processingS := some (.finite 2),
      audioSeconds := some (.finite 60), stageSeconds := none, errorClass := none },
    { jobId := "b", clientId := "c", status := .failed, task := some "align", engine := none,
      model := none, language := none, alignment := none, device := none, workerId := none, attempts := 1,
      createdAt := 0, startedAt := none, finishedAt := minutes 61, processingS := none,
      audioSeconds := none, stageSeconds := none, errorClass := none }], by decide⟩
  check := by simp [JobStatus.isTerminal]

theorem throughput_accounts_twoJobs :
    let span := throughputRange .h1 (minutes 62)
    ∃ answer, throughput span (twoJobs.bucketQuery exactTime span) (twoJobs.taskQuery exactTime span) =
        .ok answer ∧
      answer.buckets.map Bucket.start = span.starts ∧
      answer.totals = ⟨1, 1, 0, 60, 2⟩ ∧
      answer.totals = (answer.buckets.map Bucket.toFigures).sum ∧
      answer.totals = (answer.byTask.map TaskRow.toFigures).sum := by
  intro span
  obtain ⟨answer, hanswer, hstarts, -, -, -, htotals, hbuckets, htasks⟩ :=
    (throughput_accounts exactTime twoJobs .h1 (minutes 62) (.refl _) (.refl _)).2.2.2.2
  refine ⟨answer, hanswer, hstarts, ?_, hbuckets, htasks⟩
  rw [htotals]
  ext <;> decide +kernel

end Vemsa.Ops
