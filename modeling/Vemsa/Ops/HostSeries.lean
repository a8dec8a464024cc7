import Vemsa.Ops.Queries

/-!
# Ops — HostSeries

The host page of the dashboard: the samples of each worker, averaged into buckets.  The database groups
and orders the rows; the loop in Python splits them into a series per worker, in a `dict`.

* `addRow_seriesOf`: what the loop has after each row.
* `hostSeries_charts`: every worker with samples has one series, its points come strictly one after the
  other, one for each bucket with samples, and each point is made of exactly the samples there.

Texts are ordered as the database orders them, numbers are exact.
-/

namespace Vemsa.Ops
open Vemsa.Support Vemsa.Jobs

/-! ### Rows -/

/-- The columns of `worker_samples` that are charted. -/
structure Readings where
  cpuPct : Option ℚ
  load1 : Option ℚ
  memUsedBytes : Option ℚ
  memTotalBytes : Option ℚ
  diskUsedBytes : Option ℚ
  diskTotalBytes : Option ℚ
  gpuUtilPct : Option ℚ
  gpuMemUsedBytes : Option ℚ
  gpuMemTotalBytes : Option ℚ
  gpuTempC : Option ℚ
  inFlight : Option ℚ
  concurrency : Option ℚ

/-- A row of `worker_samples`. -/
structure WorkerSample (Text : Type) where
  workerId : Text
  sampledAt : Time
  hostname : Text
  device : Option Text
  gpuName : Option Text
  readings : Readings

/-- A row of the query. -/
structure HostRow (Text : Type) where
  workerId : Text
  bucket : Time
  hostname : Option Text
  gpuName : Option Text
  device : Option Text
  readings : Readings

/-- An entry of `points`. -/
structure Point where
  t : Time
  readings : Readings

/-- A value of `series`. -/
structure WorkerSeries (Text : Type) where
  workerId : Text
  hostname : Option Text
  device : Option Text
  gpuName : Option Text
  points : List Point

/-- `AVG(column)`, without the `NULL`s -/
def sqlAvg (column : List (Option ℚ)) : Option ℚ :=
  let values := column.filterMap id
  if values = [] then none else some (values.sum / values.length)

/-- `MAX(column)` -/
def sqlMax {α : Type} [LinearOrder α] (column : List (Option α)) : Option α :=
  (column.filterMap id).max?

/-- The readings of a group. -/
def Readings.aggregate (group : List Readings) : Readings where
  cpuPct := sqlAvg (group.map Readings.cpuPct)
  load1 := sqlAvg (group.map Readings.load1)
  memUsedBytes := sqlAvg (group.map Readings.memUsedBytes)
  memTotalBytes := sqlMax (group.map Readings.memTotalBytes)
  diskUsedBytes := sqlAvg (group.map Readings.diskUsedBytes)
  diskTotalBytes := sqlMax (group.map Readings.diskTotalBytes)
  gpuUtilPct := sqlAvg (group.map Readings.gpuUtilPct)
  gpuMemUsedBytes := sqlAvg (group.map Readings.gpuMemUsedBytes)
  gpuMemTotalBytes := sqlMax (group.map Readings.gpuMemTotalBytes)
  gpuTempC := sqlAvg (group.map Readings.gpuTempC)
  inFlight := sqlAvg (group.map Readings.inFlight)
  concurrency := sqlMax (group.map Readings.concurrency)

section Source

variable {Text : Type} [LinearOrder Text] (span : Range) (samples : List (WorkerSample Text))

/-- `WHERE sampled_at >= $1 AND sampled_at < $2` -/
def sampledIn : List (WorkerSample Text) :=
  samples.filter fun sample => span.since ≤ sample.sampledAt ∧ sample.sampledAt < span.until_

/-- `worker_id, date_bin($3::interval, sampled_at, $1::timestamptz) AS bucket` -/
def sampleKey (sample : WorkerSample Text) : Text × Time :=
  (sample.workerId, dateBin span.bucket sample.sampledAt span.since)

def hostRow (group : (Text × Time) × List (WorkerSample Text)) : HostRow Text where
  workerId := group.1.1
  bucket := group.1.2
  hostname := sqlMax (group.2.map fun sample => some sample.hostname)
  gpuName := sqlMax (group.2.map WorkerSample.gpuName)
  device := sqlMax (group.2.map WorkerSample.device)
  readings := .aggregate (group.2.map WorkerSample.readings)

/-- `ORDER BY 1, 2` -/
def HostRow.place (row : HostRow Text) : Text ×ₗ Time := toLex (row.workerId, row.bucket)

/-- The query of `host_series`. -/
def hostQuery : List (HostRow Text) :=
  sortedBy HostRow.place ((groupBy (sampleKey span) (sampledIn span samples)).map hostRow)

variable (truthy : Text → Bool)

/-- `text or other` -/
def textOr (text other : Option Text) : Option Text := (text.filter truthy).or other

def HostRow.point (row : HostRow Text) : Point := ⟨row.bucket, row.readings⟩

/-- What the body of the loop does to the entry of its worker. -/
def WorkerSeries.add (worker : WorkerSeries Text) (row : HostRow Text) : WorkerSeries Text :=
  { worker with
    hostname := textOr truthy row.hostname worker.hostname
    gpuName := textOr truthy row.gpuName worker.gpuName
    points := worker.points ++ [row.point] }

/-- The body of the loop of `host_series`; `series` is a `dict` by the worker. -/
def addRow (series : List (WorkerSeries Text)) (row : HostRow Text) : List (WorkerSeries Text) :=
  match series.find? fun worker => worker.workerId = row.workerId with
  | some _ => series.map fun worker =>
      if worker.workerId = row.workerId then worker.add truthy row else worker
  | none => series ++ [WorkerSeries.add truthy
      ⟨row.workerId, row.hostname, row.device, row.gpuName, []⟩ row]

/-- `host_series` -/
def hostSeries : List (WorkerSeries Text) := (hostQuery span samples).foldl (addRow truthy) []

end Source

/-! ### The loop -/

section Loop

variable {Text : Type} [LinearOrder Text] {truthy : Text → Bool} {rows : List (HostRow Text)}
  {row : HostRow Text} {series : List (WorkerSeries Text)}

/-- The series of some rows. -/
structure SeriesOf (rows : List (HostRow Text)) (series : List (WorkerSeries Text)) : Prop where
  ordered : (series.map WorkerSeries.workerId).Pairwise (· < ·)
  workers : ∀ worker, worker ∈ series.map WorkerSeries.workerId ↔ worker ∈ rows.map HostRow.workerId
  points : ∀ entry ∈ series, entry.points =
    (rows.filter fun row => row.workerId = entry.workerId).map HostRow.point

theorem seriesOf_nil : SeriesOf ([] : List (HostRow Text)) [] := ⟨.nil, by simp, by simp⟩

/-- **One row**, of the last worker or of one after it. -/
theorem addRow_seriesOf (h : SeriesOf rows series)
    (hlast : ∀ other ∈ rows, other.workerId ≤ row.workerId) :
    SeriesOf (rows ++ [row]) (addRow truthy series row) := by
  unfold addRow
  split
  · rename_i entry hfound
    have hentry := List.mem_of_find?_eq_some hfound
    have hids : (series.map fun worker => if worker.workerId = row.workerId then
        worker.add truthy row else worker).map WorkerSeries.workerId =
          series.map WorkerSeries.workerId := by
      rw [List.map_map]
      refine List.map_congr_left fun worker _ => ?_
      by_cases heq : worker.workerId = row.workerId <;> simp [heq, WorkerSeries.add]
    refine ⟨hids ▸ h.ordered, fun worker => ?_, fun _ hmem => ?_⟩
    · rw [hids, h.workers, List.map_append, List.mem_append, List.map_singleton, List.mem_singleton]
      refine ⟨.inl, fun hor => hor.elim id ?_⟩
      rintro rfl
      have hid : entry.workerId = row.workerId := by simpa using List.find?_some hfound
      exact (h.workers _).mp (hid ▸ List.mem_map_of_mem hentry)
    · obtain ⟨worker, hworker, rfl⟩ := List.mem_map.mp hmem
      rw [List.filter_append, List.map_append]
      by_cases heq : worker.workerId = row.workerId
      · simp [heq, WorkerSeries.add, h.points worker hworker]
      · have hne : row.workerId ≠ worker.workerId := fun h => heq h.symm
        simp [heq, hne, h.points worker hworker]
  · rename_i hnone
    have hnew : ∀ worker ∈ series, worker.workerId ≠ row.workerId := fun worker hworker => by
      simpa using List.find?_eq_none.mp hnone worker hworker
    refine ⟨?_, fun worker => ?_, fun worker hworker => ?_⟩
    · rw [List.map_append, List.pairwise_append]
      refine ⟨h.ordered, by simp, fun id hid id' hid' => ?_⟩
      obtain rfl := List.mem_singleton.mp hid'
      obtain ⟨other, hother, hsame⟩ := List.mem_map.mp ((h.workers id).mp hid)
      obtain ⟨worker, hworker, rfl⟩ := List.mem_map.mp hid
      exact lt_of_le_of_ne (hsame ▸ hlast other hother) (hnew worker hworker)
    · simp only [List.map_append, List.mem_append, h.workers]
      rfl
    · rcases List.mem_append.mp hworker with hworker | hworker
      · have hne : row.workerId ≠ worker.workerId := (hnew worker hworker).symm
        simp [List.filter_append, hne, h.points worker hworker]
      · obtain rfl := List.mem_singleton.mp hworker
        have hfirst : rows.filter (fun other => other.workerId = row.workerId) = [] := by
          refine List.filter_eq_nil_iff.mpr fun other hother heq => ?_
          obtain ⟨worker, hworker, hid⟩ :=
            List.mem_map.mp ((h.workers _).mpr (List.mem_map_of_mem hother))
          exact hnew worker hworker (hid.trans (of_decide_eq_true heq))
        have hown : [row].filter (fun other => other.workerId = row.workerId) = [row] := by simp
        change [] ++ [row.point] =
          ((rows ++ [row]).filter fun other => other.workerId = row.workerId).map HostRow.point
        rw [List.filter_append, hfirst, hown]
        rfl

/-- **The loop**, over rows by worker. -/
theorem foldl_seriesOf (hordered : rows.Pairwise fun a b => a.workerId ≤ b.workerId) :
    SeriesOf rows (rows.foldl (addRow truthy) []) := by
  induction rows using List.reverseRecOn with
  | nil => exact seriesOf_nil
  | append_singleton rows row ih =>
      obtain ⟨hrows, -, hlast⟩ := List.pairwise_append.mp hordered
      rw [List.foldl_concat]
      exact addRow_seriesOf (ih hrows) fun other hother =>
        hlast other hother row (List.mem_singleton.mpr rfl)

end Loop

/-! ### The rows -/

section Rows

variable {Text : Type} [LinearOrder Text] {span : Range} {samples : List (WorkerSample Text)}

omit [LinearOrder Text] in
theorem mem_sampledIn {sample : WorkerSample Text} : sample ∈ sampledIn span samples ↔
    sample ∈ samples ∧ span.since ≤ sample.sampledAt ∧ sample.sampledAt < span.until_ := by
  simp [sampledIn]

/-- The samples of a worker in a bucket. -/
def binnedSamples (span : Range) (samples : List (WorkerSample Text)) (worker : Text) (bucket : Time) :
    List (WorkerSample Text) :=
  (sampledIn span samples).filter fun sample => sampleKey span sample = (worker, bucket)

theorem mem_hostQuery {row : HostRow Text} : row ∈ hostQuery span samples ↔
    ∃ group ∈ groupBy (sampleKey span) (sampledIn span samples), hostRow group = row := by
  rw [hostQuery, (stablySorted_sortedBy _ _).perm.mem_iff, List.mem_map]

theorem readings_hostQuery {row : HostRow Text} (h : row ∈ hostQuery span samples) :
    binnedSamples span samples row.workerId row.bucket ≠ [] ∧
    row.readings = .aggregate
      ((binnedSamples span samples row.workerId row.bucket).map WorkerSample.readings) := by
  obtain ⟨group, hgroup, rfl⟩ := mem_hostQuery.mp h
  obtain ⟨⟨sample, hsample, hkey⟩, hitems⟩ := mem_groupBy hgroup
  constructor
  · exact List.ne_nil_of_mem (List.mem_filter.mpr ⟨hsample, decide_eq_true hkey⟩)
  · rw [hostRow, hitems]
    rfl

/-- Every sample of the range is in a row. -/
theorem exists_row {sample : WorkerSample Text} (h : sample ∈ sampledIn span samples) :
    ∃ row ∈ hostQuery span samples, (row.workerId, row.bucket) = sampleKey span sample := by
  have hgroup : (sampleKey span sample, (sampledIn span samples).filter fun other =>
      sampleKey span other = sampleKey span sample) ∈
        groupBy (sampleKey span) (sampledIn span samples) :=
    List.mem_map_of_mem (List.mem_dedup.mpr (List.mem_map_of_mem h))
  exact ⟨_, mem_hostQuery.mpr ⟨_, hgroup, rfl⟩, rfl⟩

/-- The rows come strictly one after the other. -/
theorem hostQuery_ordered : (hostQuery span samples).Pairwise fun a b => a.place < b.place := by
  have hsorted := (stablySorted_sortedBy HostRow.place
    ((groupBy (sampleKey span) (sampledIn span samples)).map hostRow)).ordered
  have hnodup : ((hostQuery span samples).map HostRow.place).Nodup := by
    refine (((stablySorted_sortedBy _ _).perm.map HostRow.place).nodup_iff).mpr ?_
    rw [groupBy, List.map_map, List.map_map]
    exact (List.nodup_dedup _).map fun key key' h => toLex.injective h
  rw [List.Nodup, List.pairwise_map] at hnodup
  exact (hsorted.and hnodup).imp fun h => lt_of_le_of_ne h.1 h.2

theorem seriesOf_hostSeries (span : Range) (samples : List (WorkerSample Text)) (truthy : Text → Bool) :
    SeriesOf (hostQuery span samples) (hostSeries span samples truthy) :=
  foldl_seriesOf (hostQuery_ordered.imp fun hlt => (Prod.Lex.lt_iff.mp hlt).elim le_of_lt fun h => h.1.le)

end Rows

/-! ### Usage -/

/-- What is used is no more than there is. -/
structure Readings.Fits (r : Readings) : Prop where
  mem : ∀ used ∈ r.memUsedBytes, ∃ total ∈ r.memTotalBytes, used ≤ total
  disk : ∀ used ∈ r.diskUsedBytes, ∃ total ∈ r.diskTotalBytes, used ≤ total
  gpuMem : ∀ used ∈ r.gpuMemUsedBytes, ∃ total ∈ r.gpuMemTotalBytes, used ≤ total
  jobs : ∀ used ∈ r.inFlight, ∃ total ∈ r.concurrency, used ≤ total

theorem sum_le_length_mul {values : List ℚ} {bound : ℚ} (h : ∀ value ∈ values, value ≤ bound) :
    values.sum ≤ values.length * bound := by
  simpa using List.sum_le_card_nsmul values bound h

/-- An average of used amounts is no more than the largest total beside one. -/
theorem sqlAvg_le_sqlMax {group : List Readings} {used total : Readings → Option ℚ}
    (h : ∀ r ∈ group, ∀ u ∈ used r, ∃ t ∈ total r, u ≤ t) :
    ∀ u ∈ sqlAvg (group.map used), ∃ t ∈ sqlMax (group.map total), u ≤ t := by
  intro u hu
  rw [sqlAvg] at hu
  split at hu
  · cases hu
  · rename_i hne
    obtain rfl := Option.some.inj hu
    have hbeside : ∀ value ∈ (group.map used).filterMap id,
        ∃ t ∈ (group.map total).filterMap id, value ≤ t := fun value hvalue => by
      obtain ⟨entry, hentry, hsome⟩ := List.mem_filterMap.mp hvalue
      obtain ⟨r, hr, rfl⟩ := List.mem_map.mp hentry
      obtain ⟨t, ht, hle⟩ := h r hr value hsome
      exact ⟨t, List.mem_filterMap.mpr ⟨_, List.mem_map_of_mem hr, ht⟩, hle⟩
    obtain ⟨first, hfirst⟩ := List.exists_mem_of_ne_nil _ hne
    obtain ⟨t, ht, -⟩ := hbeside first hfirst
    obtain ⟨largest, hlargest⟩ := Option.isSome_iff_exists.mp
      (List.isSome_max?_iff.mpr (List.ne_nil_of_mem ht))
    have hmax := (List.max?_eq_some_iff.mp hlargest).2
    refine ⟨largest, hlargest, ?_⟩
    have hpos : (0 : ℚ) < ((group.map used).filterMap id).length := by
      exact_mod_cast List.length_pos_iff.mpr hne
    rw [div_le_iff₀ hpos, mul_comm]
    refine sum_le_length_mul fun value hvalue => ?_
    obtain ⟨t, ht, hle⟩ := hbeside value hvalue
    exact hle.trans (hmax t ht)

theorem Readings.fits_aggregate {group : List Readings} (h : ∀ r ∈ group, r.Fits) :
    (Readings.aggregate group).Fits where
  mem := sqlAvg_le_sqlMax fun r hr => (h r hr).mem
  disk := sqlAvg_le_sqlMax fun r hr => (h r hr).disk
  gpuMem := sqlAvg_le_sqlMax fun r hr => (h r hr).gpuMem
  jobs := sqlAvg_le_sqlMax fun r hr => (h r hr).jobs

/-! ### The charts -/

section Charts

variable {Text : Type} [LinearOrder Text]

/-- The samples of a worker, charted. -/
structure Charted (span : Range) (samples : List (WorkerSample Text)) (entry : WorkerSeries Text) :
    Prop where
  strict : (entry.points.map Point.t).Pairwise (· < ·)
  made : ∀ point ∈ entry.points, point.t ∈ span.starts ∧
    binnedSamples span samples entry.workerId point.t ≠ [] ∧
    point.readings = .aggregate
      ((binnedSamples span samples entry.workerId point.t).map WorkerSample.readings)
  all : ∀ sample ∈ samples, span.since ≤ sample.sampledAt → sample.sampledAt < span.until_ →
    sample.workerId = entry.workerId →
      ∃ point ∈ entry.points, sample.sampledAt ∈ Set.Ico point.t (point.t + span.bucket)
  fits : (∀ sample ∈ samples, sample.readings.Fits) → ∀ point ∈ entry.points, point.readings.Fits

variable {span : Range} {samples : List (WorkerSample Text)} {entry : WorkerSeries Text}

/-- A worker is in a row if it has a sample in the range. -/
theorem mem_workers {worker : Text} : worker ∈ (hostQuery span samples).map HostRow.workerId ↔
    ∃ sample ∈ samples, span.since ≤ sample.sampledAt ∧ sample.sampledAt < span.until_ ∧
      sample.workerId = worker := by
  rw [List.mem_map]
  constructor
  · rintro ⟨row, hrow, rfl⟩
    obtain ⟨sample, hsample⟩ := List.exists_mem_of_ne_nil _ (readings_hostQuery hrow).1
    obtain ⟨hin, hkey⟩ := List.mem_filter.mp hsample
    obtain ⟨hmem, hsince, huntil⟩ := mem_sampledIn.mp hin
    exact ⟨sample, hmem, hsince, huntil, congrArg Prod.fst (of_decide_eq_true hkey)⟩
  · rintro ⟨sample, hmem, hsince, huntil, rfl⟩
    obtain ⟨row, hrow, hkey⟩ := exists_row (mem_sampledIn.mpr ⟨hmem, hsince, huntil⟩)
    exact ⟨row, hrow, congrArg Prod.fst hkey⟩

/-- The buckets of the rows are those of the range. -/
theorem bucket_mem_starts {row : HostRow Text} (h : row ∈ hostQuery span samples) :
    row.bucket ∈ span.starts := by
  obtain ⟨sample, hsample⟩ := List.exists_mem_of_ne_nil _ (readings_hostQuery h).1
  obtain ⟨hin, hkey⟩ := List.mem_filter.mp hsample
  obtain ⟨-, hsince, huntil⟩ := mem_sampledIn.mp hin
  have hbucket : dateBin span.bucket sample.sampledAt span.since = row.bucket :=
    congrArg Prod.snd (of_decide_eq_true hkey)
  exact hbucket ▸ dateBin_mem_starts hsince huntil

theorem fits_hostQuery {row : HostRow Text} (h : row ∈ hostQuery span samples)
    (hfits : ∀ sample ∈ samples, sample.readings.Fits) : row.readings.Fits := by
  rw [(readings_hostQuery h).2]
  refine Readings.fits_aggregate fun r hr => ?_
  obtain ⟨sample, hsample, rfl⟩ := List.mem_map.mp hr
  exact hfits sample (mem_sampledIn.mp (List.mem_filter.mp hsample).1).1

/-- The points of a worker are its rows. -/
theorem charted_of_points (hpoints : entry.points =
      ((hostQuery span samples).filter fun row => row.workerId = entry.workerId).map HostRow.point) :
    Charted span samples entry := by
  have hmade : ∀ point ∈ entry.points,
      ∃ row ∈ hostQuery span samples, row.workerId = entry.workerId ∧ row.point = point := by
    intro point hpoint
    rw [hpoints] at hpoint
    obtain ⟨row, hrow, rfl⟩ := List.mem_map.mp hpoint
    obtain ⟨hrow, hworker⟩ := List.mem_filter.mp hrow
    exact ⟨row, hrow, of_decide_eq_true hworker, rfl⟩
  constructor
  case strict =>
    rw [hpoints, List.map_map, List.pairwise_map]
    refine (hostQuery_ordered.sublist List.filter_sublist).imp_of_mem fun {a b} ha hb hlt => ?_
    have hsame : a.workerId = b.workerId :=
      (of_decide_eq_true (List.mem_filter.mp ha).2).trans
        (of_decide_eq_true (List.mem_filter.mp hb).2).symm
    exact (Prod.Lex.lt_iff.mp hlt).elim (fun hne => absurd hsame hne.ne) fun h => h.2
  case made =>
    intro point hpoint
    obtain ⟨row, hrow, hworker, rfl⟩ := hmade point hpoint
    exact ⟨bucket_mem_starts hrow, hworker ▸ readings_hostQuery hrow⟩
  case all =>
    intro sample hsample hsince huntil hworker
    obtain ⟨row, hrow, hkey⟩ := exists_row (mem_sampledIn.mpr ⟨hsample, hsince, huntil⟩)
    have hbin : row.bucket = dateBin span.bucket sample.sampledAt span.since :=
      congrArg Prod.snd hkey
    have hin := dateBin_le span.positive sample.sampledAt span.since
    rw [← hbin] at hin
    refine ⟨row.point, ?_, hin⟩
    rw [hpoints]
    exact List.mem_map_of_mem (List.mem_filter.mpr
      ⟨hrow, decide_eq_true ((congrArg Prod.fst hkey).trans hworker)⟩)
  case fits =>
    intro hfits point hpoint
    obtain ⟨row, hrow, -, rfl⟩ := hmade point hpoint
    exact fits_hostQuery hrow hfits

/-- **The host page** has one series for each worker with samples in the range, in order; its points
come strictly one after the other, each is made of exactly the samples of its bucket, no sample of the
range is left out, and no chart shows more used than there is if no sample did. -/
theorem hostSeries_charts (span : Range) (samples : List (WorkerSample Text)) (truthy : Text → Bool) :
    ((hostSeries span samples truthy).map WorkerSeries.workerId).Pairwise (· < ·) ∧
      (∀ worker, worker ∈ (hostSeries span samples truthy).map WorkerSeries.workerId ↔
        ∃ sample ∈ samples, span.since ≤ sample.sampledAt ∧ sample.sampledAt < span.until_ ∧
          sample.workerId = worker) ∧
      ∀ entry ∈ hostSeries span samples truthy, Charted span samples entry := by
  have h := seriesOf_hostSeries span samples truthy
  exact ⟨h.ordered, fun worker => (h.workers worker).trans mem_workers,
    fun entry hentry => charted_of_points (h.points entry hentry)⟩

end Charts

end Vemsa.Ops
