import Vemsa.Ops.Queries
import Vemsa.Support.Percentiles

/-!
# Ops — Dashboard

The other pages of the dashboard that read `job_stats`: `performance`, `quality` and `clients`, over
the range the throughput has.  A query may return rows that its `ORDER BY` does not tell apart in any
order; only `quality` drops some.

* `dashboards_agree`: all pages count the same jobs.
* `performance_percentiles`: the two percentiles of a measure have the share of the jobs on their
  sides that they are said to have.
-/

namespace Vemsa.Ops
open Vemsa.Support Vemsa.Jobs

/-! ### Rows -/

/-- `p50` and `p95` of a measure. -/
abbrev Percentiles := Option ℚ × Option ℚ

/-- An entry of `tasks` of `performance`. -/
structure PerformanceRow where
  task : Option String
  completed : ℕ
  failed : ℕ
  cancelled : ℕ
  retried : ℕ
  rtf : Percentiles
  queueWaitS : Percentiles
  processingS : Percentiles

/-- An entry of `stages`. -/
structure StageRow where
  stage : String
  p50 : Option ℚ
  p95 : Option ℚ
  totalS : ℚ
  jobs : ℕ

/-- An entry of `alignment` of `quality`. -/
structure AlignmentRow where
  task : Option String
  alignment : String
  jobs : ℕ

/-- An entry of `errors`. -/
structure ErrorRow where
  errorClass : String
  task : Option String
  jobs : ℕ

/-- An entry of `clients`. -/
structure ClientRow extends Figures ℚ where
  clientId : String
  rtfP50 : Option ℚ

section Queries

variable (amount : PyFloat → ℚ)

/-! ### Measures -/

/-- `processing_s / audio_seconds`, filtered -/
def rtfValues (group : List StatsRow) : List ℚ :=
  group.filterMap fun row =>
    if row.status = .completed then
      match row.audioSeconds, row.processingS with
      | some audio, some processing =>
        if 0 < amount audio then some (amount processing / amount audio) else none
      | _, _ => none
    else none

/-- `EXTRACT(EPOCH FROM (started_at - created_at))`, filtered -/
def queueWaitValues (group : List StatsRow) : List ℚ :=
  group.filterMap fun row => row.startedAt.map fun started => ((started - row.createdAt : ℤ) : ℚ) / 1000000

/-- `processing_s`, filtered -/
def processingValues (group : List StatsRow) : List ℚ :=
  group.filterMap fun row =>
    if row.status = .completed then row.processingS.map amount else none

/-- `percentile_cont(ARRAY[0.5, 0.95])`, after `_percentiles` -/
def percentiles (values : List ℚ) : Percentiles :=
  (percentileCont (1 / 2) values, percentileCont (19 / 20) values)

/-! ### Queries -/

def performanceRow (group : Option String × List StatsRow) : PerformanceRow where
  task := group.1
  completed := group.2.countP fun row => row.status = .completed
  failed := group.2.countP fun row => row.status = .failed
  cancelled := group.2.countP fun row => row.status = .cancelled
  retried := group.2.countP fun row => 1 < row.attempts
  rtf := percentiles (rtfValues amount group.2)
  queueWaitS := percentiles (queueWaitValues group.2)
  processingS := percentiles (processingValues amount group.2)

/-- The first query of `performance`. -/
def JobStats.performanceQuery (stats : JobStats) (span : Range) : List PerformanceRow :=
  (groupBy StatsRow.task (stats.finishedIn span)).map (performanceRow amount)

/-- `FROM job_stats, jsonb_each_text(stage_seconds) … status = 'completed'` -/
def JobStats.stageSeconds (stats : JobStats) (span : Range) : List (String × ℚ) :=
  ((stats.finishedIn span).filter fun row => row.status = .completed).flatMap fun row =>
    (row.stageSeconds.getD []).map fun entry => (entry.1, amount entry.2)

/-- The second query of `performance`. -/
def JobStats.stageQuery (stats : JobStats) (span : Range) : List StageRow :=
  (groupBy Prod.fst (stats.stageSeconds amount span)).map fun group =>
    let seconds := group.2.map Prod.snd
    { stage := group.1
      p50 := percentileCont (1 / 2) seconds
      p95 := percentileCont (19 / 20) seconds
      totalS := seconds.sum
      jobs := seconds.length }

/-- The first query of `quality`. -/
def JobStats.alignmentQuery (stats : JobStats) (span : Range) : List AlignmentRow :=
  (groupBy (fun row => (row.task, row.alignment.getD "none"))
    ((stats.finishedIn span).filter fun row => row.status = .completed)).map fun group =>
      { task := group.1.1, alignment := group.1.2, jobs := group.2.length }

/-- The groups of its second query. -/
def JobStats.errorGroups (stats : JobStats) (span : Range) : List ErrorRow :=
  (groupBy (fun row => (row.errorClass.getD "unknown", row.task))
    ((stats.finishedIn span).filter fun row => row.status = .failed)).map fun group =>
      { errorClass := group.1.1, task := group.1.2, jobs := group.2.length }

/-- `ORDER BY … DESC LIMIT n`: a result the database may give. -/
structure TopRows {α : Type} (n : ℕ) (key : α → ℕ) (groups rows : List α) : Prop where
  ordered : ∃ rest, (rows ++ rest).Perm groups ∧
    (rows ++ rest).Pairwise (fun a b => key b ≤ key a) ∧ rows.length = min n groups.length

/-- `clients` -/
def JobStats.clientQuery (stats : JobStats) (span : Range) : List ClientRow :=
  (groupBy StatsRow.clientId (stats.finishedIn span)).map fun group =>
    { toFigures := taskFigures amount group.2
      clientId := group.1
      rtfP50 := percentileCont (1 / 2) (rtfValues amount group.2) }

end Queries

/-! ### Counting -/

section Counting

variable {α κ : Type} [DecidableEq κ]

theorem sum_lengths (key : α → κ) (items : List α) :
    ((groupBy key items).map fun group => group.2.length).sum = items.length := by
  have h := sum_groups key (fun _ : α => 1) items
  simpa using h

/-- The items of the groups of some keys. -/
theorem sum_lengths_filter (p : κ → Bool) (key : α → κ) (items : List α) :
    (((groupBy key items).filter fun group => p group.1).map fun group => group.2.length).sum =
      items.countP fun a => p (key a) := by
  have h := sum_groups_filter p key (fun _ : α => 1) items
  simpa [List.countP_eq_length_filter] using h

theorem groupBy_pos {key : α → κ} {items : List α} {group : κ × List α}
    (h : group ∈ groupBy key items) : 0 < group.2.length := by
  obtain ⟨⟨a, ha, hkey⟩, hitems⟩ := mem_groupBy h
  rw [hitems]
  exact List.length_pos_of_mem (List.mem_filter.mpr ⟨ha, decide_eq_true hkey⟩)

/-- **A limit** shows all that is counted iff it cuts no group off; what it cuts off is no larger than
anything shown. -/
theorem TopRows.counts {n : ℕ} {key : α → ℕ} {groups rows : List α} (h : TopRows n key groups rows)
    (hpos : ∀ group ∈ groups, 0 < key group) :
    (rows.map key).sum ≤ (groups.map key).sum ∧
      ((rows.map key).sum = (groups.map key).sum ↔ groups.length ≤ n) ∧
      ∀ group ∈ groups, group ∈ rows ∨ ∀ row ∈ rows, key group ≤ key row := by
  obtain ⟨rest, hperm, hordered, hlen⟩ := h
  have hsum : (groups.map key).sum = (rows.map key).sum + (rest.map key).sum := by
    rw [← (hperm.map key).sum_eq, List.map_append, List.sum_append]
  have hlength := hperm.length_eq
  rw [List.length_append] at hlength
  refine ⟨by omega, ?_, fun group hgroup => ?_⟩
  · constructor
    · intro hall
      have hzero : (rest.map key).sum = 0 := by omega
      have hrest : rest = [] := by
        refine List.eq_nil_iff_forall_not_mem.mpr fun group hgroup => ?_
        have hcount := List.sum_eq_zero_iff.mp hzero _ (List.mem_map_of_mem hgroup)
        exact (hpos group (hperm.mem_iff.mp (List.mem_append_right _ hgroup))).ne' hcount
      rw [hrest, List.length_nil] at hlength
      omega
    · intro hle
      have hrest : rest = [] := List.length_eq_zero_iff.mp (by omega)
      simp [hsum, hrest]
  · refine (List.mem_append.mp (hperm.mem_iff.mpr hgroup)).imp_right fun hrest row hrow => ?_
    exact (List.pairwise_append.mp hordered).2.2 row hrow group hrest

end Counting

variable {amount : PyFloat → ℚ} {stats : JobStats} {span : Range}

/-- The counts of a task, as `throughput` has them. -/
theorem performance_counts {tasks : List PerformanceRow} {byTask : List (TaskRow ℚ)}
    (htasks : tasks.Perm (stats.performanceQuery amount span))
    (hbyTask : byTask.Perm (stats.taskQuery amount span)) :
    (tasks.map fun row => (row.task, row.completed, row.failed, row.cancelled)).Perm
      (byTask.map fun row => (row.task, row.completed, row.failed, row.cancelled)) := by
  refine (htasks.map _).trans (.trans ?_ (hbyTask.map _).symm)
  rw [JobStats.performanceQuery, JobStats.taskQuery, List.map_map, List.map_map]
  exact .refl _

theorem clients_sum {clients : List ClientRow} (h : clients.Perm (stats.clientQuery amount span)) :
    (clients.map ClientRow.toFigures).sum = ((stats.finishedIn span).map (jobFigures amount)).sum := by
  rw [(h.map _).sum_eq, JobStats.clientQuery, List.map_map, ← sum_groups StatsRow.clientId]
  exact congrArg List.sum (List.map_congr_left fun group _ => taskFigures_eq_sum group.2)

/-- The completed jobs of a task, by alignment. -/
theorem alignment_sum {alignment : List AlignmentRow}
    (h : alignment.Perm (stats.alignmentQuery span)) (task : Option String) :
    ((alignment.filter fun row => row.task = task).map AlignmentRow.jobs).sum =
      (stats.finishedIn span).countP fun row => row.status = .completed ∧ row.task = task := by
  rw [((h.filter _).map _).sum_eq, JobStats.alignmentQuery, List.filter_map, List.map_map]
  have hcount := sum_lengths_filter (fun key : Option String × String => key.1 = task)
    (fun row => (row.task, row.alignment.getD "none"))
    ((stats.finishedIn span).filter fun row => row.status = .completed)
  rw [List.countP_filter] at hcount
  refine (hcount.trans ?_)
  simp only [Bool.decide_and, Bool.and_comm]

theorem errors_sum : ((stats.errorGroups span).map ErrorRow.jobs).sum =
    (stats.finishedIn span).countP fun row => row.status = .failed := by
  rw [JobStats.errorGroups, List.map_map, List.countP_eq_length_filter]
  exact sum_lengths _ _

theorem errors_pos : ∀ row ∈ stats.errorGroups span, 0 < row.jobs := by
  intro row hrow
  obtain ⟨group, hgroup, rfl⟩ := List.mem_map.mp hrow
  exact groupBy_pos hgroup

theorem stages_sum {stages : List StageRow} (h : stages.Perm (stats.stageQuery amount span)) :
    (stages.map StageRow.totalS).sum = ((stats.stageSeconds amount span).map Prod.snd).sum := by
  rw [(h.map _).sum_eq, JobStats.stageQuery, List.map_map]
  exact sum_groups Prod.fst Prod.snd _

/-! ### One account -/

theorem byTask_completed {byTask : List (TaskRow ℚ)}
    (h : byTask.Perm (stats.taskQuery amount span)) : ∀ row ∈ byTask, row.completed =
      (stats.finishedIn span).countP fun job => job.status = .completed ∧ job.task = row.task := by
  intro row hrow
  obtain ⟨group, hgroup, rfl⟩ := List.mem_map.mp (h.mem_iff.mp hrow)
  change group.2.countP _ = _
  rw [(mem_groupBy hgroup).2, List.countP_filter]
  simp only [Bool.decide_and]

/-- **All pages count the same jobs.**  From one state of the table, over one range: `performance` and
`throughput` have the same counts for each task; the clients add up to the totals; the alignments of a
task to its completed jobs, the stages to the stage seconds of all completed jobs; and the error groups
to the failed jobs, exactly as long as the limit cuts none off, and none that it cuts off is larger than
one shown. -/
theorem dashboards_agree (amount : PyFloat → ℚ) (stats : JobStats) (span : Range)
    {rows : List (BucketRow ℚ)} {byTask : List (TaskRow ℚ)} {tasks : List PerformanceRow}
    {stages : List StageRow} {alignment : List AlignmentRow} {errors : List ErrorRow}
    {clients : List ClientRow} (hrows : rows.Perm (stats.bucketQuery amount span))
    (hbyTask : byTask.Perm (stats.taskQuery amount span))
    (htasks : tasks.Perm (stats.performanceQuery amount span))
    (hstages : stages.Perm (stats.stageQuery amount span))
    (halignment : alignment.Perm (stats.alignmentQuery span))
    (herrors : TopRows 20 ErrorRow.jobs (stats.errorGroups span) errors)
    (hclients : clients.Perm (stats.clientQuery amount span)) :
    ∃ answer, throughput span rows byTask = .ok answer ∧
      (tasks.map fun row => (row.task, row.completed, row.failed, row.cancelled)).Perm
        (answer.byTask.map fun row => (row.task, row.completed, row.failed, row.cancelled)) ∧
      (clients.map ClientRow.toFigures).sum = answer.totals ∧
      (∀ row ∈ answer.byTask, row.completed =
        ((alignment.filter fun other => other.task = row.task).map AlignmentRow.jobs).sum) ∧
      (stages.map StageRow.totalS).sum = ((stats.stageSeconds amount span).map Prod.snd).sum ∧
      (errors.map ErrorRow.jobs).sum ≤ answer.totals.failed ∧
      ((errors.map ErrorRow.jobs).sum = answer.totals.failed ↔
        (stats.errorGroups span).length ≤ 20) ∧
      ∀ group ∈ stats.errorGroups span, group ∈ errors ∨ ∀ shown ∈ errors, group.jobs ≤ shown.jobs := by
  refine ⟨_, throughput_ok hrows, performance_counts htasks hbyTask, clients_sum hclients,
    fun row hrow => ?_, stages_sum hstages, ?_⟩
  · rw [byTask_completed hbyTask row hrow, alignment_sum halignment]
  · have hfailed : ((stats.errorGroups span).map ErrorRow.jobs).sum =
        ((stats.finishedIn span).map (jobFigures amount)).sum.failed := by
      rw [errors_sum, ← taskFigures_eq_sum]
      rfl
    rw [← hfailed]
    exact herrors.counts errors_pos

/-- The two jobs on every page. -/
theorem dashboards_agree_twoJobs :
    let span := throughputRange .h1 (minutes 62)
    ∃ answer, throughput span (twoJobs.bucketQuery exactTime span) (twoJobs.taskQuery exactTime span) =
        .ok answer ∧
      ((twoJobs.clientQuery exactTime span).map ClientRow.toFigures).sum = answer.totals ∧
      ((twoJobs.errorGroups span).map ErrorRow.jobs).sum ≤ answer.totals.failed := by
  intro span
  have hone : (twoJobs.errorGroups span).length = 1 := by decide +kernel
  have htop : TopRows 20 ErrorRow.jobs (twoJobs.errorGroups span) (twoJobs.errorGroups span) := by
    obtain ⟨row, hrow⟩ := List.length_eq_one_iff.mp hone
    rw [hrow]
    exact ⟨[], .refl _, by simp, rfl⟩
  obtain ⟨answer, hanswer, -, hclients, -, -, herrors, -⟩ := dashboards_agree exactTime twoJobs span
    (.refl _) (.refl _) (.refl _) (.refl _) (.refl _) htop (.refl _)
  exact ⟨answer, hanswer, hclients, herrors⟩

/-! ### Percentiles -/

/-- What two percentiles say of the values they are of. -/
structure Percentiles.Of (p : Percentiles) (values : List ℚ) : Prop where
  missing : (p.1 = none ↔ values = []) ∧ (p.2 = none ↔ values = [])
  ordered : ∀ p50 ∈ p.1, ∀ p95 ∈ p.2, p50 ≤ p95
  half : ∀ p50 ∈ p.1, ((values.length - 1 : ℕ) : ℚ) / 2 < (values.countP fun value => value ≤ p50 : ℕ) ∧
    ((values.length - 1 : ℕ) : ℚ) / 2 < (values.countP fun value => p50 ≤ value : ℕ)
  most : ∀ p95 ∈ p.2, 19 * ((values.length - 1 : ℕ) : ℚ) / 20 < (values.countP fun value => value ≤ p95 : ℕ) ∧
    ((values.length - 1 : ℕ) : ℚ) / 20 < (values.countP fun value => p95 ≤ value : ℕ)

theorem percentiles_perm {values values' : List ℚ} (h : values.Perm values') :
    percentiles values = percentiles values' :=
  congrArg₂ Prod.mk (percentileCont_perm h) (percentileCont_perm h)

theorem percentiles_of (values : List ℚ) : (percentiles values).Of values where
  missing := ⟨percentileCont_eq_none, percentileCont_eq_none⟩
  ordered _ hp50 _ hp95 := percentileCont_mono (by norm_num) (by norm_num) (by norm_num) hp50 hp95
  half p50 hp50 := by
    have h := percentileCont_rank (by norm_num) (by norm_num) hp50
    constructor <;> linarith
  most p95 hp95 := by
    have h := percentileCont_rank (by norm_num) (by norm_num) hp95
    constructor <;> linarith

/-- **The measures of a task** are measured over its jobs alone, whatever their order in the table,
and their percentiles have so many of the jobs on either side. -/
theorem performance_percentiles (amount : PyFloat → ℚ) (stats : JobStats) (span : Range)
    {tasks : List PerformanceRow} (h : tasks.Perm (stats.performanceQuery amount span)) :
    ∀ row ∈ tasks, ∀ jobs, jobs.Perm ((stats.finishedIn span).filter fun job => job.task = row.task) →
      row.rtf = percentiles (rtfValues amount jobs) ∧
      row.queueWaitS = percentiles (queueWaitValues jobs) ∧
      row.processingS = percentiles (processingValues amount jobs) ∧
      row.rtf.Of (rtfValues amount jobs) ∧ row.queueWaitS.Of (queueWaitValues jobs) ∧
        row.processingS.Of (processingValues amount jobs) := by
  intro row hrow jobs hjobs
  obtain ⟨group, hgroup, rfl⟩ := List.mem_map.mp (h.mem_iff.mp hrow)
  have hperm : group.2.Perm jobs := by
    rw [(mem_groupBy hgroup).2]
    exact hjobs.symm
  have hrtf : (performanceRow amount group).rtf = percentiles (rtfValues amount jobs) :=
    percentiles_perm (hperm.filterMap _)
  have hwait : (performanceRow amount group).queueWaitS = percentiles (queueWaitValues jobs) :=
    percentiles_perm (hperm.filterMap _)
  have hprocessing : (performanceRow amount group).processingS =
      percentiles (processingValues amount jobs) := percentiles_perm (hperm.filterMap _)
  rw [hrtf, hwait, hprocessing]
  exact ⟨rfl, rfl, rfl, percentiles_of _, percentiles_of _, percentiles_of _⟩

/-- The real-time factor of the job that completed. -/
theorem performance_percentiles_twoJobs :
    ∃ row ∈ twoJobs.performanceQuery exactTime (throughputRange .h1 (minutes 62)),
      row.rtf = (some (1 / 30), some (1 / 30)) ∧
      row.rtf.Of (rtfValues exactTime (twoJobs.table.rows.take 1)) := by
  have hmem : performanceRow exactTime (some "transcribe", twoJobs.table.rows.take 1) ∈
      twoJobs.performanceQuery exactTime (throughputRange .h1 (minutes 62)) :=
    List.mem_map_of_mem (List.mem_of_getElem? (i := 0) rfl)
  exact ⟨_, hmem, by decide +kernel, (performance_percentiles exactTime twoJobs
    (throughputRange .h1 (minutes 62)) (.refl _) _ hmem _ (.of_eq rfl)).2.2.2.1⟩

end Vemsa.Ops
