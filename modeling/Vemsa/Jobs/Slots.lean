import Vemsa.Jobs.Lifecycle

/-!
# Jobs — Slots

The claim loop of one worker process and the job tasks it starts, in any interleaving: `_worker_loop`
with its wakeup event and its semaphore, `_run_job` around `_process_job`, `notify` and `stop`.  The
store answers the claims; whatever else asks it, here or in another process, is the environment.

* `Pump.slotsHeld`: slots, tasks and `_active` agree in every reachable state.
* `Pump.waiting_drained`: a loop that sleeps beside a free slot has seen the queue empty since the last
  `notify`.
* `Pump.stop_drains`: what `stop` waits for, and the one task it may miss.
-/

namespace Vemsa.Jobs
open Vemsa.Support

/-- The settings of the claim loop, as they are validated. -/
structure PumpSettings where
  workerId : WorkerId
  workerConcurrency : ℕ
  jobLeaseS : Time
  concurrency_pos : 1 ≤ workerConcurrency

/-- Where `_worker_loop` stands. -/
inductive PumpPc where
  /-- `self._wakeup.wait()`, with its timeout -/
  | waiting
  | claiming (excludeIds : List JobId)
  /-- `self._slots.acquire()` -/
  | acquiring (jobId : JobId)
  | counting
  /-- backing off after an exception -/
  | sleeping
  | ended
  deriving DecidableEq

/-- A task of `_run_job`. -/
structure RunJob where
  id : ℕ
  jobId : JobId
  /-- its first step was taken, so that its `finally` will run -/
  begun : Bool
  deriving DecidableEq

/-- The process: what `JobQueue` holds, where its loop stands, and its tasks. -/
structure Pump where
  db : Db
  wakeup : Bool
  stopping : Bool
  /-- the value of `_slots` -/
  slots : ℕ
  /-- `_active`, the tasks by their jobs -/
  active : List (JobId × ℕ)
  loop : PumpPc
  tasks : List RunJob
  /-- how many tasks were ever created -/
  created : ℕ
  /-- the job tasks `stop` gathers -/
  draining : List ℕ

section Events

variable (P : Pydantic)

/-- One step of the process, or of anyone who shares the store. -/
inductive PumpEvent where
  /-- a call of a task, of the API, or of another worker -/
  | store (call : Call P)
  /-- `create_job`, `transcribe_audio` and the release for a retry -/
  | notify
  /-- the wait ends, by the event or by its timeout -/
  | resume
  | claim (now : Time) (locked : List JobId) (pick : Option JobId)
  | claimRaised
  | acquired
  | counted
  | countRaised
  | slept
  | begin (task : ℕ)
  /-- `_process_job` is over; the `finally` of `_run_job` -/
  | leave (task : ℕ)
  | stop
  | cancelLoop
  | cancelTask (task : ℕ)

end Events

namespace Pump

variable {P : Pydantic}

def init (st : PumpSettings) : Pump where
  db := ⟨.empty, []⟩
  wakeup := true
  stopping := false
  slots := st.workerConcurrency
  active := []
  loop := .waiting
  tasks := []
  created := 0
  draining := []

/-- `self._active[job.id] = task` -/
def activate (jobId : JobId) (task : ℕ) (active : List (JobId × ℕ)) : List (JobId × ℕ) :=
  active.filter (fun a => a.1 ≠ jobId) ++ [(jobId, task)]

/-- `tuple(self._active)` -/
def excludeIds (s : Pump) : List JobId := s.active.map Prod.fst

/-- `while not self._stopping`, of the outer loop -/
def again (s : Pump) : Pump := { s with loop := if s.stopping then .ended else .waiting }

/-- `while not self._stopping and not self._slots.locked()` -/
def more (s : Pump) : Pump :=
  { s with loop := if !s.stopping && s.slots != 0 then .claiming s.excludeIds else .counting }

/-- The slot is taken and the task created, in one go. -/
def spawn (s : Pump) (jobId : JobId) : Pump :=
  more
    { s with
      slots := s.slots - 1
      active := activate jobId s.created s.active
      tasks := s.tasks ++ [⟨s.created, jobId, false⟩]
      created := s.created + 1 }

/-- A claim has returned `jobId`; `acquire` only waits where no slot is left. -/
def accept (s : Pump) (jobId : JobId) : Pump × Option ℕ :=
  if s.slots = 0 then ({ s with loop := .acquiring jobId }, none)
  else (s.spawn jobId, some s.created)

/-- What a claim answered: a row, nothing, or a row that does not decode, which raises. -/
def onClaim (P : Pydantic) (s : Pump) : Option Row → Pump × Option ℕ
  | none => ({ s with loop := .counting }, none)
  | some row =>
    match rowToJob P row with
    | .error _ => ({ s with loop := .sleeping }, none)
    | .ok job => s.accept job.id

/-- One step, with the task it created. -/
def step (st : PumpSettings) (s : Pump) : PumpEvent P → Option (Pump × Option ℕ)
  | .store call => (call.step s.db).map fun (db, _) => ({ s with db }, none)
  | .notify => some ({ s with wakeup := true }, none)
  | .resume =>
    if s.loop = .waiting then some (more { s with wakeup := false }, none) else none
  | .claim now locked pick =>
    match s.loop with
    | .claiming excludeIds =>
      (claimNextQueued st.workerId now st.jobLeaseS excludeIds locked pick s.db.tables).map
        fun (tables, row) => onClaim P { s with db := { s.db with tables } } row
    | _ => none
  | .claimRaised =>
    match s.loop with
    | .claiming _ => some ({ s with loop := .sleeping }, none)
    | _ => none
  | .acquired =>
    match s.loop with
    | .acquiring jobId => if s.slots = 0 then none else some (s.spawn jobId, some s.created)
    | _ => none
  | .counted => if s.loop = .counting then some (s.again, none) else none
  | .countRaised => if s.loop = .counting then some ({ s with loop := .sleeping }, none) else none
  | .slept => if s.loop = .sleeping then some (s.again, none) else none
  | .begin task =>
    if s.tasks.any fun t => t.id = task && !t.begun then
      some ({ s with tasks := s.tasks.map fun t => if t.id = task then { t with begun := true } else t },
        none)
    else none
  | .leave task =>
    match s.tasks.find? fun t => t.id = task && t.begun with
    | none => none
    | some t =>
      some
        ({ s with
            tasks := s.tasks.filter fun u => u.id ≠ task
            active := s.active.filter fun a => a.1 ≠ t.jobId
            slots := s.slots + 1
            wakeup := true }, none)
  | .stop =>
    if s.stopping then none
    else
      some ({ s with stopping := true, wakeup := true, draining := s.active.map Prod.snd }, none)
  | .cancelLoop => if s.loop = .ended then none else some ({ s with loop := .ended }, none)
  | .cancelTask task =>
    -- a task cancelled before its first step never runs its `finally`
    if s.tasks.any fun t => t.id = task && !t.begun then
      some ({ s with tasks := s.tasks.filter fun u => u.id ≠ task }, none)
    else none

end Pump

/-- The process, from an empty store and a notified loop. -/
def pumpMachine (P : Pydantic) (st : PumpSettings) : Machine Pump (PumpEvent P) (Option ℕ) where
  init := .init st
  step := Pump.step st

namespace Pump

variable {P : Pydantic} {st : PumpSettings}

/-! ### What a step does -/

theorem rowToJob_id {row : Row} {job : Job P} (h : rowToJob P row = .ok job) : job.id = row.id := by
  unfold rowToJob at h
  split at h
  · cases h
  · cases h
    rfl

@[simp] theorem again_slots (s : Pump) : s.again.slots = s.slots := rfl
@[simp] theorem again_active (s : Pump) : s.again.active = s.active := rfl
@[simp] theorem again_tasks (s : Pump) : s.again.tasks = s.tasks := rfl
@[simp] theorem again_created (s : Pump) : s.again.created = s.created := rfl
@[simp] theorem again_wakeup (s : Pump) : s.again.wakeup = s.wakeup := rfl
@[simp] theorem again_stopping (s : Pump) : s.again.stopping = s.stopping := rfl
@[simp] theorem again_draining (s : Pump) : s.again.draining = s.draining := rfl

@[simp] theorem more_slots (s : Pump) : s.more.slots = s.slots := rfl
@[simp] theorem more_active (s : Pump) : s.more.active = s.active := rfl
@[simp] theorem more_tasks (s : Pump) : s.more.tasks = s.tasks := rfl
@[simp] theorem more_created (s : Pump) : s.more.created = s.created := rfl
@[simp] theorem more_wakeup (s : Pump) : s.more.wakeup = s.wakeup := rfl
@[simp] theorem more_stopping (s : Pump) : s.more.stopping = s.stopping := rfl
@[simp] theorem more_draining (s : Pump) : s.more.draining = s.draining := rfl

/-- The loop claims only when it is not stopping and has a slot. -/
theorem more_cases (s : Pump) :
    (s.more.loop = .claiming s.excludeIds ∧ s.stopping = false ∧ s.slots ≠ 0) ∨
      (s.more.loop = .counting ∧ (s.stopping = true ∨ s.slots = 0)) := by
  cases hstop : s.stopping <;> by_cases hslots : s.slots = 0 <;> simp [more, hstop, hslots]

/-- What one step does, with the task it creates. -/
inductive Moves (st : PumpSettings) (s : Pump) : PumpEvent P → Option ℕ → Pump → Prop where
  | store {call : Call P} {db : Db} {r : Reply P} (h : call.step s.db = some (db, r)) :
      Moves st s (.store call) none { s with db }
  | notify : Moves st s .notify none { s with wakeup := true }
  | resume (h : s.loop = .waiting) : Moves st s .resume none (more { s with wakeup := false })
  /-- there is nothing to claim -/
  | drained {ex : List JobId} {now : Time} {locked : List JobId} {tables : Tables}
      (h : s.loop = .claiming ex) (hnone : mayPick s.db.tables now ex locked none = true) :
      Moves st s (.claim now locked none) none
        { s with db := { s.db with tables }, loop := .counting }
  /-- a job is claimed, and none that `_active` listed when the claim began -/
  | claimed {ex : List JobId} {now : Time} {locked : List JobId} {j : JobId} {tables : Tables}
      (h : s.loop = .claiming ex) (hex : j ∉ ex) :
      Moves st s (.claim now locked (some j)) (accept { s with db := { s.db with tables } } j).2
        (accept { s with db := { s.db with tables } } j).1
  /-- the claim raises, before or after it took effect -/
  | claimRaised {e : PumpEvent P} {ex : List JobId} {db : Db} (h : s.loop = .claiming ex)
      (he : e = .claimRaised ∨ ∃ now locked pick, e = .claim now locked pick) :
      Moves st s e none { s with db, loop := .sleeping }
  | acquired {j : JobId} (h : s.loop = .acquiring j) (hfree : s.slots ≠ 0) :
      Moves st s .acquired (some s.created) (s.spawn j)
  | counted (h : s.loop = .counting) : Moves st s .counted none s.again
  | countRaised (h : s.loop = .counting) : Moves st s .countRaised none { s with loop := .sleeping }
  | slept (h : s.loop = .sleeping) : Moves st s .slept none s.again
  | begin {n : ℕ} :
      Moves st s (.begin n) none
        { s with tasks := s.tasks.map fun t => if t.id = n then { t with begun := true } else t }
  | leave {t : RunJob} (h : t ∈ s.tasks) :
      Moves st s (.leave t.id) none
        { s with
          tasks := s.tasks.filter fun u => u.id ≠ t.id
          active := s.active.filter fun a => a.1 ≠ t.jobId
          slots := s.slots + 1
          wakeup := true }
  | stop (h : s.stopping = false) :
      Moves st s .stop none
        { s with stopping := true, wakeup := true, draining := s.active.map Prod.snd }
  | cancelLoop : Moves st s .cancelLoop none { s with loop := .ended }
  | cancelTask {n : ℕ} :
      Moves st s (.cancelTask n) none { s with tasks := s.tasks.filter fun u => u.id ≠ n }

theorem moves_of_claim {s : Pump} {ex : List JobId} {now : Time} {locked : List JobId}
    {pick : Option JobId} {t : Tables} {o : Option Row} (hloop : s.loop = .claiming ex)
    (h : claimNextQueued st.workerId now st.jobLeaseS ex locked pick s.db.tables = some (t, o)) :
    Moves (P := P) st s (.claim now locked pick)
      (onClaim P { s with db := { s.db with tables := t } } o).2
      (onClaim P { s with db := { s.db with tables := t } } o).1 := by
  have hcases := claim_cases h
  unfold claimNextQueued at h
  split at h
  case isFalse => cases h
  case isTrue hpick =>
    obtain ⟨rfl, rfl⟩ | ⟨j, row, rfl, -, rfl, hclaim, rfl⟩ := hcases
    · exact .drained hloop hpick
    · have hex : row.id ∉ ex := by
        simp only [Row.claimable, Bool.and_eq_true] at hclaim
        simpa using hclaim.2
      cases hjob : rowToJob P (row.claim st.workerId now st.jobLeaseS) with
      | error e => simpa only [onClaim, hjob] using Moves.claimRaised hloop (.inr ⟨now, locked, _, rfl⟩)
      | ok job =>
          have hid : job.id = row.id := by rw [rowToJob_id hjob, Row.claim]
          simpa only [onClaim, hjob, hid] using Moves.claimed hloop hex

/-- **Every step is one of these.** -/
theorem step_moves {s s' : Pump} {e : PumpEvent P} {r : Option ℕ}
    (h : Pump.step st s e = some (s', r)) : Moves st s e r s' := by
  cases e with
  | store call =>
      obtain ⟨⟨db, reply⟩, hcall, heq⟩ := Option.map_eq_some_iff.mp h
      cases heq
      exact .store hcall
  | notify => cases h; exact .notify
  | resume =>
      simp only [Pump.step] at h
      split at h
      case isTrue hw => cases h; exact .resume hw
      case isFalse => cases h
  | claim now locked pick =>
      simp only [Pump.step] at h
      split at h
      case h_1 ex hloop =>
        obtain ⟨⟨t, o⟩, hclaim, heq⟩ := Option.map_eq_some_iff.mp h
        obtain ⟨rfl, rfl⟩ := Prod.mk.inj heq
        exact moves_of_claim hloop hclaim
      case h_2 => cases h
  | claimRaised =>
      simp only [Pump.step] at h
      split at h
      case h_1 ex hloop => cases h; exact .claimRaised hloop (.inl rfl)
      case h_2 => cases h
  | acquired =>
      simp only [Pump.step] at h
      split at h
      case h_1 j hloop =>
        split at h
        case isTrue => cases h
        case isFalse hfree => cases h; exact .acquired hloop hfree
      case h_2 => cases h
  | counted =>
      simp only [Pump.step] at h
      split at h
      case isTrue hc => cases h; exact .counted hc
      case isFalse => cases h
  | countRaised =>
      simp only [Pump.step] at h
      split at h
      case isTrue hc => cases h; exact .countRaised hc
      case isFalse => cases h
  | slept =>
      simp only [Pump.step] at h
      split at h
      case isTrue hc => cases h; exact .slept hc
      case isFalse => cases h
  | begin n =>
      simp only [Pump.step] at h
      split at h
      case isTrue => cases h; exact .begin
      case isFalse => cases h
  | leave n =>
      simp only [Pump.step] at h
      split at h
      case h_1 => cases h
      case h_2 t ht =>
        cases h
        obtain ⟨hn, -⟩ : t.id = n ∧ t.begun = true := by simpa using List.find?_some ht
        subst hn
        exact .leave (List.mem_of_find?_eq_some ht)
  | stop =>
      simp only [Pump.step] at h
      split at h
      case isTrue => cases h
      case isFalse hs => cases h; exact .stop (by simpa using hs)
  | cancelLoop =>
      simp only [Pump.step] at h
      split at h
      case isTrue => cases h
      case isFalse => cases h; exact .cancelLoop
  | cancelTask n =>
      simp only [Pump.step] at h
      split at h
      case isTrue => cases h; exact .cancelTask
      case isFalse => cases h

/-! ### Slots -/

/-- Slots, tasks and `_active` agree. -/
structure Seated (st : PumpSettings) (s : Pump) : Prop where
  slots : s.slots + s.active.length = st.workerConcurrency
  /-- a dictionary -/
  keys : (s.active.map Prod.fst).Nodup
  ids : (s.tasks.map RunJob.id).Nodup
  fresh : ∀ t ∈ s.tasks, t.id < s.created
  seated : ∀ t ∈ s.tasks, (t.jobId, t.id) ∈ s.active
  /-- while the claim is out, `_active` only shrinks -/
  excluded : ∀ ex, s.loop = .claiming ex → s.slots ≠ 0 ∧ ∀ j ∈ s.excludeIds, j ∈ ex
  /-- `acquire` never waits -/
  free : ∀ j, s.loop ≠ .acquiring j

theorem seated_init (st : PumpSettings) : Seated st (.init st) where
  slots := rfl
  keys := List.nodup_nil
  ids := List.nodup_nil
  fresh := by simp [init]
  seated := by simp [init]
  excluded := by simp [init]
  free := by simp [init]

/-- A state with the same slots, tasks and `_active` whose loop does not claim. -/
theorem Seated.idle {s s' : Pump} (h : Seated st s) (hslots : s'.slots = s.slots)
    (hactive : s'.active = s.active) (htasks : s'.tasks = s.tasks) (hcreated : s'.created = s.created)
    (hclaim : ∀ ex, s'.loop ≠ .claiming ex) (hacq : ∀ j, s'.loop ≠ .acquiring j) : Seated st s' where
  slots := by rw [hslots, hactive, h.slots]
  keys := hactive ▸ h.keys
  ids := htasks ▸ h.ids
  fresh := by rw [htasks, hcreated]; exact h.fresh
  seated := by rw [htasks, hactive]; exact h.seated
  excluded ex hex := absurd hex (hclaim ex)
  free := hacq

/-- The same, when the loop stands where it stood. -/
theorem Seated.same {s s' : Pump} (h : Seated st s) (hslots : s'.slots = s.slots)
    (hactive : s'.active = s.active) (htasks : s'.tasks = s.tasks) (hcreated : s'.created = s.created)
    (hloop : s'.loop = s.loop) : Seated st s' where
  slots := by rw [hslots, hactive, h.slots]
  keys := hactive ▸ h.keys
  ids := htasks ▸ h.ids
  fresh := by rw [htasks, hcreated]; exact h.fresh
  seated := by rw [htasks, hactive]; exact h.seated
  excluded := by rw [hloop, hslots, excludeIds, hactive]; exact h.excluded
  free := hloop ▸ h.free

theorem Seated.more {s : Pump} (h : Seated st s) : Seated st s.more where
  slots := h.slots
  keys := h.keys
  ids := h.ids
  fresh := h.fresh
  seated := h.seated
  excluded ex hex := by
    obtain ⟨hcl, -, hslots⟩ | ⟨hcount, -⟩ := s.more_cases
    · rw [hcl] at hex
      cases hex
      exact ⟨hslots, fun j hj => hj⟩
    · rw [hcount] at hex
      cases hex
  free j hj := by
    obtain ⟨hcl, -⟩ | ⟨hcount, -⟩ := s.more_cases
    · rw [hcl] at hj
      cases hj
    · rw [hcount] at hj
      cases hj

theorem Seated.again {s : Pump} (h : Seated st s) : Seated st s.again := by
  refine h.idle rfl rfl rfl rfl (fun ex => ?_) fun j => ?_
  all_goals
    unfold Pump.again
    split <;> simp

/-- The assignment adds a key that is not there. -/
theorem activate_of_notMem {active : List (JobId × ℕ)} {j : JobId} (n : ℕ)
    (hj : j ∉ active.map Prod.fst) : activate j n active = active ++ [(j, n)] := by
  have hkeep : active.filter (fun a => a.1 ≠ j) = active := by
    refine List.filter_eq_self.mpr fun a ha => ?_
    have hne : a.1 ≠ j := fun heq => hj (heq ▸ List.mem_map_of_mem ha)
    simpa using hne
  rw [activate, hkeep]

theorem spawn_active {s : Pump} {j : JobId} (hj : j ∉ s.excludeIds) :
    (s.spawn j).active = s.active ++ [(j, s.created)] :=
  activate_of_notMem s.created hj

/-- **A task gets its seat.** -/
theorem Seated.spawn {s : Pump} {j : JobId} (h : Seated st s) (hslots : s.slots ≠ 0)
    (hj : j ∉ s.excludeIds) : Seated st (s.spawn j) := by
  have hact := activate_of_notMem s.created hj
  refine Seated.more (s := { s with
    slots := s.slots - 1, active := activate j s.created s.active
    tasks := s.tasks ++ [⟨s.created, j, false⟩], created := s.created + 1, loop := .counting })
    ?_
  constructor
  · have := h.slots
    simp only [hact, List.length_append, List.length_singleton]
    omega
  · rw [hact, List.map_append, List.map_singleton, List.nodup_append]
    exact ⟨h.keys, List.nodup_singleton j, fun a ha b hb => by
      rw [List.mem_singleton.mp hb]; rintro rfl; exact hj ha⟩
  · simp only [List.map_append, List.map_singleton, List.nodup_append, List.nodup_singleton,
      List.mem_singleton, List.mem_map, true_and, forall_eq]
    refine ⟨h.ids, ?_⟩
    rintro _ ⟨t, ht, rfl⟩
    exact (h.fresh t ht).ne
  · intro t ht
    obtain ht | ht := List.mem_append.mp ht
    · exact (h.fresh t ht).trans (Nat.lt_succ_self _)
    · obtain rfl := List.mem_singleton.mp ht
      exact Nat.lt_succ_self _
  · intro t ht
    simp only [hact]
    obtain ht | ht := List.mem_append.mp ht
    · exact List.mem_append_left _ (h.seated t ht)
    · obtain rfl := List.mem_singleton.mp ht
      exact List.mem_append_right _ (List.mem_singleton_self _)
  · simp
  · simp

/-- A key of a dictionary goes with the one pair it has. -/
theorem length_filter_key {active : List (JobId × ℕ)} (hkeys : (active.map Prod.fst).Nodup)
    {j : JobId} (hj : j ∈ active.map Prod.fst) :
    (active.filter fun a => a.1 ≠ j).length + 1 = active.length := by
  have hmap : (active.filter fun a => a.1 ≠ j).map Prod.fst = (active.map Prod.fst).erase j := by
    rw [hkeys.erase_eq_filter, List.filter_map]
    congr 1
    refine List.filter_congr fun a _ => ?_
    by_cases heq : a.1 = j <;> simp [heq]
  have hlen := congrArg List.length hmap
  rw [List.length_map, List.length_erase_of_mem hj, List.length_map] at hlen
  have hpos := List.length_pos_of_mem hj
  rw [List.length_map] at hpos
  omega

/-- **A task gives its seat back**, and no other task had it. -/
theorem Seated.leave {s : Pump} {t : RunJob} (h : Seated st s) (ht : t ∈ s.tasks) :
    Seated st
      { s with
        tasks := s.tasks.filter fun u => u.id ≠ t.id
        active := s.active.filter fun a => a.1 ≠ t.jobId
        slots := s.slots + 1
        wakeup := true } := by
  have hmem := h.seated t ht
  constructor
  · have hone := length_filter_key h.keys (List.mem_map_of_mem hmem)
    have hslots := h.slots
    simp only at hone ⊢
    omega
  · exact h.keys.sublist (List.filter_sublist.map _)
  · exact h.ids.sublist (List.filter_sublist.map _)
  · exact fun u hu => h.fresh u (List.mem_of_mem_filter hu)
  · intro u hu
    obtain ⟨hu, hne⟩ := List.mem_filter.mp hu
    refine List.mem_filter.mpr ⟨h.seated u hu, ?_⟩
    simp only [ne_eq, decide_not, Bool.not_eq_true', decide_eq_false_iff_not] at hne ⊢
    intro hjob
    have hpair := List.inj_on_of_nodup_map h.keys (h.seated u hu) hmem hjob
    exact hne (Prod.mk.inj hpair).2
  · intro ex hex
    obtain ⟨hslots, hin⟩ := h.excluded ex hex
    refine ⟨by simp, fun j hj => hin j ?_⟩
    exact (List.filter_sublist.map Prod.fst).subset hj
  · exact h.free

/-- The first step of a task changes neither its id nor its job. -/
theorem mem_begin {tasks : List RunJob} {n : ℕ} {t : RunJob}
    (h : t ∈ tasks.map fun t => if t.id = n then { t with begun := true } else t) :
    ∃ u ∈ tasks, u.id = t.id ∧ u.jobId = t.jobId := by
  obtain ⟨u, hu, rfl⟩ := List.mem_map.mp h
  refine ⟨u, hu, ?_⟩
  split <;> exact ⟨rfl, rfl⟩

theorem ids_begin (tasks : List RunJob) (n : ℕ) :
    (tasks.map fun t => if t.id = n then { t with begun := true } else t).map RunJob.id =
      tasks.map RunJob.id := by
  rw [List.map_map]
  refine List.map_congr_left fun t _ => ?_
  simp only [Function.comp_apply]
  split <;> rfl

theorem Seated.step {s s' : Pump} {e : PumpEvent P} {r : Option ℕ} (h : Seated st s)
    (m : Moves st s e r s') : Seated st s' := by
  cases m with
  | store | notify | stop => exact h.same rfl rfl rfl rfl rfl
  | resume =>
      exact Seated.more (s := { s with wakeup := false }) (h.same rfl rfl rfl rfl rfl)
  | drained | claimRaised | countRaised | cancelLoop => exact h.idle rfl rfl rfl rfl (by simp) (by simp)
  | claimed hloop hex =>
      obtain ⟨hslots, hin⟩ := h.excluded _ hloop
      rw [accept, if_neg hslots]
      exact Seated.spawn (h.same rfl rfl rfl rfl rfl) hslots fun hj => hex (hin _ hj)
  | acquired hloop => exact absurd hloop (h.free _)
  | counted | slept => exact h.again
  | begin =>
      exact { h with
        ids := by rw [ids_begin]; exact h.ids
        fresh := fun t ht => by
          obtain ⟨u, hu, hid, -⟩ := mem_begin ht
          exact hid ▸ h.fresh u hu
        seated := fun t ht => by
          obtain ⟨u, hu, hid, hjob⟩ := mem_begin ht
          exact hid ▸ hjob ▸ h.seated u hu }
  | leave ht => exact h.leave ht
  | cancelTask =>
      exact { h with
        ids := h.ids.sublist (List.filter_sublist.map _)
        fresh := fun t ht => h.fresh t (List.mem_of_mem_filter ht)
        seated := fun t ht => h.seated t (List.mem_of_mem_filter ht) }

/-- The log of a run of the process. -/
abbrev PumpLog (P : Pydantic) : Type := List (Entry Pump (PumpEvent P) (Option ℕ))

theorem seated_of_run {h : PumpLog P} {s : Pump} (run : (pumpMachine P st).Run h s) : Seated st s :=
  Machine.Run.invariant (I := fun _ s => Seated st s) (seated_init st)
    (fun _ _ _ _ _ _ ih hs => ih.step (step_moves hs)) run

/-- **The slots of a worker process.** -/
structure SlotsHeld (st : PumpSettings) (h : PumpLog P) (s : Pump) : Prop where
  /-- a slot is free or has its entry in `_active` -/
  slots : s.slots + s.active.length = st.workerConcurrency
  /-- every task has an entry, and no two tasks run one job -/
  tasks : ∀ t ∈ s.tasks, (t.jobId, t.id) ∈ s.active
  one_task : (s.tasks.map RunJob.jobId).Nodup
  bounded : s.tasks.length ≤ st.workerConcurrency
  /-- the loop never waits for a slot: it had one before it claimed -/
  never_waits : ∀ x ∈ h, ∀ j, x.after.loop ≠ .acquiring j
  /-- a task is created for a job no entry is there for, so the assignment overwrites none -/
  created : ∀ x ∈ h, ∀ n, x.reply = some n →
    ∃ j, j ∉ x.before.active.map Prod.fst ∧ x.after.active = x.before.active ++ [(j, n)]

theorem Seated.nodup_jobs {s : Pump} (h : Seated st s) : (s.tasks.map RunJob.jobId).Nodup := by
  refine List.Nodup.map_on (fun t ht u hu hjob => ?_) (List.Nodup.of_map _ h.ids)
  have hpair := List.inj_on_of_nodup_map h.keys (h.seated t ht) (h.seated u hu) hjob
  exact List.inj_on_of_nodup_map h.ids ht hu (Prod.mk.inj hpair).2

theorem Seated.length_tasks {s : Pump} (h : Seated st s) : s.tasks.length ≤ s.active.length := by
  have hsub : s.tasks.map RunJob.jobId ⊆ s.active.map Prod.fst := fun j hj => by
    obtain ⟨t, ht, rfl⟩ := List.mem_map.mp hj
    exact List.mem_map_of_mem (h.seated t ht)
  simpa using (List.subperm_of_subset h.nodup_jobs hsub).length_le

/-- The entry of a new task. -/
theorem Seated.created {s s' : Pump} {e : PumpEvent P} {n : ℕ} (h : Seated st s)
    (m : Moves st s e (some n) s') :
    ∃ j, j ∉ s.active.map Prod.fst ∧ s'.active = s.active ++ [(j, n)] := by
  generalize hr : some n = r at m
  cases m with
  | @claimed ex now locked j tables hloop hex =>
      obtain ⟨hslots, hin⟩ := h.excluded _ hloop
      rw [accept, if_neg hslots] at hr ⊢
      cases hr
      have hj : j ∉ s.active.map Prod.fst := fun hj => hex (hin _ hj)
      exact ⟨j, hj, spawn_active hj⟩
  | acquired hloop => exact absurd hloop (h.free _)
  | _ => cases hr

/-- **In every run.** -/
theorem slotsHeld {h : PumpLog P} {s : Pump} (run : (pumpMachine P st).Run h s) :
    SlotsHeld st h s := by
  have hs := seated_of_run run
  refine ⟨hs.slots, hs.seated, hs.nodup_jobs, ?_, fun x hx => ?_, fun x hx n hr => ?_⟩
  · have := hs.slots
    have := hs.length_tasks
    omega
  · obtain ⟨h₁, h₂, rfl⟩ := List.append_of_mem hx
    obtain ⟨before, hstep, -⟩ := run.split
    exact ((seated_of_run before).step (step_moves hstep)).free
  · obtain ⟨h₁, h₂, rfl⟩ := List.append_of_mem hx
    obtain ⟨before, hstep, -⟩ := run.split
    rw [hr] at hstep
    exact (seated_of_run before).created (step_moves hstep)

/-! ### Wakeups -/

/-- It ends with `self.notify()`. -/
def notifies : PumpEvent P → Bool
  | .notify | .leave _ | .stop => true
  | _ => false

/-- The last claim of a round: nothing there could be claimed but what other transactions hold and
what this process runs; or the claim raised. -/
def LastClaim (s : Pump) (x : Entry Pump (PumpEvent P) (Option ℕ)) : Prop :=
  (∃ now locked, x.event = .claim now locked none ∧
    ∀ row ∈ x.before.db.tables.jobs.rows, row.claimable now [] = true →
      row.id ∈ locked ∨ row.id ∈ s.excludeIds) ∨
    ((∃ ex, x.before.loop = .claiming ex) ∧ x.after.loop = .sleeping)

/-- A round of the loop that nothing has notified since. -/
structure Round (h : PumpLog P) (s : Pump) : Prop where
  excluded : ∀ ex, s.loop = .claiming ex → ∀ j ∈ ex, j ∈ s.excludeIds
  ended : s.stopping = true ∨ s.slots = 0 ∨ s.loop = .ended ∨ (∃ ex, s.loop = .claiming ex) ∨
    ∃ x ∈ h, LastClaim s x

/-- Either a wakeup is pending or the round since the last one is quiet. -/
def Awake (h : PumpLog P) (s : Pump) : Prop :=
  s.wakeup = true ∨ ∃ h₁ r h₂, h = h₁ ++ r :: h₂ ∧ r.event = .resume ∧
    (∀ y ∈ h₂, notifies y.event = false) ∧ Round h₂ s

theorem LastClaim.mono {s s' : Pump} {x : Entry Pump (PumpEvent P) (Option ℕ)} (h : LastClaim s x)
    (hin : ∀ j ∈ s.excludeIds, j ∈ s'.excludeIds) : LastClaim s' x := by
  obtain ⟨now, locked, hx, hrows⟩ | hraised := h
  · exact .inl ⟨now, locked, hx, fun row hrow hc => (hrows row hrow hc).imp_right (hin _)⟩
  · exact .inr hraised

/-- A step of anyone else, or of a task. -/
theorem Round.aside {h : PumpLog P} {s s' : Pump} (hr : Round h s)
    (x : Entry Pump (PumpEvent P) (Option ℕ)) (hstop : s'.stopping = s.stopping)
    (hslots : s'.slots = s.slots) (hactive : s'.active = s.active) (hloop : s'.loop = s.loop) :
    Round (h ++ [x]) s' where
  excluded := by rw [hloop, excludeIds, hactive]; exact hr.excluded
  ended := by
    rw [hstop, hslots, hloop]
    obtain h | h | h | h | ⟨y, hy, hlast⟩ := hr.ended
    · exact .inl h
    · exact .inr (.inl h)
    · exact .inr (.inr (.inl h))
    · exact .inr (.inr (.inr (.inl h)))
    · refine .inr (.inr (.inr (.inr ⟨y, List.mem_append_left _ hy, hlast.mono fun j hj => ?_⟩)))
      rwa [excludeIds, hactive]

/-- A step of the loop after its last claim. -/
theorem Round.tail {h : PumpLog P} {s s' : Pump} (hr : Round h s)
    (x : Entry Pump (PumpEvent P) (Option ℕ)) (hstop : s'.stopping = s.stopping)
    (hslots : s'.slots = s.slots) (hactive : s'.active = s.active)
    (hloop : s.loop = .counting ∨ s.loop = .sleeping) (hloop' : ∀ ex, s'.loop ≠ .claiming ex) :
    Round (h ++ [x]) s' where
  excluded ex hex := absurd hex (hloop' ex)
  ended := by
    rw [hstop, hslots]
    obtain h | h | h | ⟨ex, h⟩ | ⟨y, hy, hlast⟩ := hr.ended
    · exact .inl h
    · exact .inr (.inl h)
    · rw [h] at hloop
      simp at hloop
    · rw [h] at hloop
      simp at hloop
    · refine .inr (.inr (.inr (.inr ⟨y, List.mem_append_left _ hy, hlast.mono fun j hj => ?_⟩)))
      rwa [excludeIds, hactive]

/-- After `while not self._stopping and not self._slots.locked()` the loop claims, or need not. -/
theorem Round.more (h : PumpLog P) (s : Pump) : Round h s.more := by
  obtain ⟨hcl, -, -⟩ | ⟨hcount, hend⟩ := s.more_cases
  · refine ⟨fun ex hex j hj => ?_, .inr (.inr (.inr (.inl ⟨_, hcl⟩)))⟩
    rw [hcl] at hex
    cases hex
    exact hj
  · refine ⟨fun ex hex => ?_, hend.imp id .inl⟩
    rw [hcount] at hex
    cases hex

theorem again_loop (s : Pump) (ex : List JobId) : s.again.loop ≠ .claiming ex := by
  unfold again
  split <;> simp

/-- **One step of a quiet round.** -/
theorem Round.step {h : PumpLog P} {s s' : Pump} {e : PumpEvent P} {r : Option ℕ}
    (hs : Seated st s) (hr : Round h s) (m : Moves st s e r s') (hquiet : notifies e = false)
    (hresume : e ≠ .resume) : Round (h ++ [⟨s, e, r, s'⟩]) s' := by
  cases m with
  | notify | leave | stop => cases hquiet
  | resume => exact absurd rfl hresume
  | store | begin | cancelTask => exact hr.aside _ rfl rfl rfl rfl
  | @drained ex now locked tables hloop hnone =>
      refine ⟨by simp, .inr (.inr (.inr (.inr ⟨_, List.mem_append_right _ (List.mem_singleton_self _),
        .inl ⟨now, locked, rfl, fun row hrow hc => ?_⟩⟩)))⟩
      by_contra! hno
      have hcand : row ∈ candidates s.db.tables now ex locked := by
        have hex : row.id ∉ ex := fun hin => hno.2 (hr.excluded ex hloop _ hin)
        rw [Row.claimable, Bool.and_eq_true] at hc
        refine List.mem_filter.mpr ⟨hrow, ?_⟩
        simp [Row.claimable, hc.1, hex, hno.1]
      rw [mayPick, List.isEmpty_iff] at hnone
      exact List.ne_nil_of_mem hcand hnone
  | claimed hloop hex =>
      rw [accept, if_neg (hs.excluded _ hloop).1]
      exact Round.more _ _
  | claimRaised hloop =>
      exact ⟨by simp, .inr (.inr (.inr (.inr ⟨_, List.mem_append_right _ (List.mem_singleton_self _),
        .inr ⟨⟨_, hloop⟩, rfl⟩⟩)))⟩
  | acquired hloop => exact absurd hloop (hs.free _)
  | counted hloop => exact hr.tail _ rfl rfl rfl (.inl hloop) (again_loop s)
  | countRaised hloop => exact hr.tail _ rfl rfl rfl (.inl hloop) (by simp)
  | slept hloop => exact hr.tail _ rfl rfl rfl (.inr hloop) (again_loop s)
  | cancelLoop => exact ⟨by simp, .inr (.inr (.inl rfl))⟩

theorem wakeup_of_notifies {s s' : Pump} {e : PumpEvent P} {r : Option ℕ} (m : Moves st s e r s')
    (h : notifies e = true) : s'.wakeup = true := by
  cases m with
  | notify | leave | stop => rfl
  | claimRaised _ he => obtain rfl | ⟨_, _, _, rfl⟩ := he <;> cases h
  | _ => cases h

theorem wakeup_of_moves {s s' : Pump} {e : PumpEvent P} {r : Option ℕ} (m : Moves st s e r s')
    (hresume : e ≠ .resume) (hw : s.wakeup = true) : s'.wakeup = true := by
  cases m with
  | resume => exact absurd rfl hresume
  | notify | leave | stop => rfl
  | claimed =>
      unfold accept
      split <;> exact hw
  | _ => exact hw

theorem awake_of_run {h : PumpLog P} {s : Pump} (run : (pumpMachine P st).Run h s) : Awake h s := by
  refine Machine.Run.invariant (I := Awake) (.inl rfl) (fun h s e s' r run ih hstep => ?_) run
  have hs := seated_of_run run
  have m := step_moves hstep
  by_cases hresume : e = .resume
  · subst hresume
    cases m with
    | resume => exact .inr ⟨h, _, [], rfl, rfl, by simp, Round.more _ _⟩
    | claimRaised _ he => obtain he | ⟨_, _, _, he⟩ := he <;> cases he
  cases hn : notifies e with
  | true => exact .inl (wakeup_of_notifies m hn)
  | false =>
      obtain hw | ⟨h₁, x, h₂, rfl, hx, hquiet, hround⟩ := ih
      · exact .inl (wakeup_of_moves m hresume hw)
      · refine .inr ⟨h₁, x, h₂ ++ [⟨s, e, r, s'⟩], by simp, hx, ?_, hround.step hs m hn hresume⟩
        simp only [List.mem_append, List.mem_singleton]
        rintro y (hy | rfl)
        · exact hquiet y hy
        · exact hn

/-- **No wakeup is lost.**  A loop that waits beside a free slot with nothing to wake it began a round
after the last `notify`, and the last claim of that round found nothing it could take, or raised. -/
theorem waiting_drained {h : PumpLog P} {s : Pump} (run : (pumpMachine P st).Run h s)
    (hloop : s.loop = .waiting) (hwakeup : s.wakeup = false) (hslots : s.slots ≠ 0)
    (hstop : s.stopping = false) :
    ∃ h₁ r h₂, h = h₁ ++ r :: h₂ ∧ r.event = .resume ∧ (∀ y ∈ h₂, notifies y.event = false) ∧
      ∃ x ∈ h₂, LastClaim s x := by
  obtain hw | ⟨h₁, r, h₂, hh, hr, hquiet, hround⟩ := awake_of_run run
  · rw [hwakeup] at hw
    cases hw
  · refine ⟨h₁, r, h₂, hh, hr, hquiet, ?_⟩
    obtain h | h | h | ⟨ex, h⟩ | h := hround.ended
    · rw [hstop] at h
      cases h
    · exact absurd h hslots
    · rw [hloop] at h
      cases h
    · rw [hloop] at h
      cases h
    · exact h

/-! ### Stopping -/

/-- The tasks a path creates. -/
def spawned (h : PumpLog P) : List ℕ := h.filterMap Entry.reply

/-- After `stop`, called in the state `s₀`. -/
structure Stopped (s₀ : Pump) (h : PumpLog P) (s : Pump) : Prop where
  stopping : s.stopping = true
  gathered : s.draining = s₀.active.map Prod.snd
  /-- the loop does not sleep through it -/
  awake : s.loop = .waiting → s.wakeup = true
  /-- a claim is one that was out -/
  claiming : ∀ ex, s.loop = .claiming ex → s₀.loop = .claiming ex ∧ spawned h = []
  /-- it may create one task -/
  one_task : spawned h = [] ∨ ∃ n, spawned h = [n] ∧ ∃ ex, s₀.loop = .claiming ex
  tasks : ∀ t ∈ s.tasks, t.id ∈ s.draining ∨ t.id ∈ spawned h

theorem spawned_snoc (h : PumpLog P) (x : Entry Pump (PumpEvent P) (Option ℕ)) :
    spawned (h ++ [x]) = spawned h ++ x.reply.toList := by
  cases hr : x.reply <;> simp [spawned, List.filterMap_append, hr]

/-- A step that creates no task and leaves the loop out of a claim. -/
theorem Stopped.idle {s₀ s s' : Pump} {h : PumpLog P} (hs : Stopped s₀ h s)
    {x : Entry Pump (PumpEvent P) (Option ℕ)} (hx : x.reply = none)
    (hstop : s'.stopping = s.stopping) (hdrain : s'.draining = s.draining)
    (hawake : s'.loop = .waiting → s'.wakeup = true)
    (hclaim : ∀ ex, s'.loop = .claiming ex → s.loop = .claiming ex)
    (htasks : ∀ t ∈ s'.tasks, ∃ u ∈ s.tasks, u.id = t.id) : Stopped s₀ (h ++ [x]) s' := by
  have hsp : spawned (h ++ [x]) = spawned h := by simp [spawned_snoc, hx]
  refine ⟨hstop ▸ hs.stopping, hdrain ▸ hs.gathered, hawake, ?_, ?_, fun t ht => ?_⟩
  · rw [hsp]
    exact fun ex hex => hs.claiming ex (hclaim ex hex)
  · rw [hsp]
    exact hs.one_task
  · obtain ⟨u, hu, hid⟩ := htasks t ht
    rw [hsp, hdrain, ← hid]
    exact hs.tasks u hu

/-- The claim that was out returns a job. -/
theorem Stopped.spawn {s₀ s : Pump} {h : PumpLog P} {db : Db} {j : JobId} (hs : Stopped s₀ h s)
    (hnil : spawned h = []) (hex : ∃ ex, s₀.loop = .claiming ex)
    (hcount : (Pump.spawn { s with db } j).loop = .counting)
    {x : Entry Pump (PumpEvent P) (Option ℕ)} (hx : x.reply = some s.created) :
    Stopped s₀ (h ++ [x]) (Pump.spawn { s with db } j) := by
  have hsp : spawned (h ++ [x]) = [s.created] := by rw [spawned_snoc, hnil, hx]; rfl
  refine ⟨hs.stopping, hs.gathered, by simp [hcount], by simp [hcount], .inr ⟨_, hsp, hex⟩,
    fun t ht => ?_⟩
  rw [hsp]
  obtain ht | ht := List.mem_append.mp ht
  · refine (hs.tasks t ht).imp id fun hin => ?_
    rw [hnil] at hin
    cases hin
  · obtain rfl := List.mem_singleton.mp ht
    exact .inr (List.mem_singleton_self _)

theorem Stopped.step {s₀ s s' : Pump} {h : PumpLog P} {e : PumpEvent P} {r : Option ℕ}
    (hseat : Seated st s) (hs : Stopped s₀ h s) (m : Moves st s e r s') :
    Stopped s₀ (h ++ [⟨s, e, r, s'⟩]) s' := by
  have same : ∀ t ∈ s.tasks, ∃ u ∈ s.tasks, u.id = t.id := fun t ht => ⟨t, ht, rfl⟩
  have ended : s.again.loop = .ended := by rw [again, hs.stopping]; rfl
  cases m with
  | store => exact hs.idle rfl rfl rfl hs.awake (fun _ => id) same
  | notify => exact hs.idle rfl rfl rfl (fun _ => rfl) (fun _ => id) same
  | resume =>
      obtain ⟨-, hno, -⟩ | ⟨hcount, -⟩ := more_cases { s with wakeup := false }
      · rw [hs.stopping] at hno
        cases hno
      · exact hs.idle rfl rfl rfl (by simp [hcount]) (by simp [hcount]) same
  | drained | claimRaised | countRaised | cancelLoop =>
      exact hs.idle rfl rfl rfl (by simp) (by simp) same
  | @claimed ex now locked j tables hloop hex =>
      obtain ⟨hs₀, hnil⟩ := hs.claiming ex hloop
      rw [accept, if_neg (hseat.excluded _ hloop).1]
      refine hs.spawn hnil ⟨ex, hs₀⟩ ?_ rfl
      obtain ⟨-, hno, -⟩ | ⟨hcount, -⟩ := more_cases
        { s with
          db := { s.db with tables }, slots := s.slots - 1, active := activate j s.created s.active
          tasks := s.tasks ++ [⟨s.created, j, false⟩], created := s.created + 1 }
      · rw [hs.stopping] at hno
        cases hno
      · exact hcount
  | acquired hloop => exact absurd hloop (hseat.free _)
  | counted | slept => exact hs.idle rfl rfl rfl (by simp [ended]) (by simp [ended]) same
  | begin =>
      refine hs.idle rfl rfl rfl hs.awake (fun _ => id) fun t ht => ?_
      obtain ⟨u, hu, hid, -⟩ := mem_begin ht
      exact ⟨u, hu, hid⟩
  | leave => exact hs.idle rfl rfl rfl (fun _ => rfl) (fun _ => id) fun t ht => same t (List.mem_of_mem_filter ht)
  | stop hno =>
      rw [hs.stopping] at hno
      cases hno
  | cancelTask =>
      exact hs.idle rfl rfl rfl hs.awake (fun _ => id) fun t ht => same t (List.mem_of_mem_filter ht)

/-- **`stop`.**  The loop is awake and claims nothing more; a claim that was out may still create one
task, and `stop` gathers every other one. -/
theorem stop_drains {h₁ h₂ : PumpLog P} {x : Entry Pump (PumpEvent P) (Option ℕ)} {s : Pump}
    (run : (pumpMachine P st).Run (h₁ ++ x :: h₂) s) (hx : x.event = .stop) :
    Stopped x.before h₂ s := by
  induction h₂ using List.reverseRecOn generalizing s with
  | nil =>
      obtain ⟨before, hstep, rfl⟩ := run.snoc_inv
      have hseat := seated_of_run before
      have m := step_moves hstep
      rw [hx] at m
      generalize hr : x.reply = r at m
      generalize x.after = s' at m
      cases m with
      | stop hno =>
          exact ⟨rfl, rfl, fun _ => rfl, fun ex hex => ⟨hex, rfl⟩, .inl rfl, fun t ht =>
            .inl (List.mem_map_of_mem (hseat.seated t ht))⟩
      | claimRaised _ he => obtain he | ⟨_, _, _, he⟩ := he <;> cases he
  | append_singleton h y ih =>
      rw [← List.cons_append, ← List.append_assoc] at run
      obtain ⟨before, hstep, rfl⟩ := run.snoc_inv
      exact (ih before).step (seated_of_run before) (step_moves hstep)

/-! ### A worker with two slots -/

theorem twoSlots_pos : 1 ≤ 2 := by decide

def twoSlots : PumpSettings := ⟨"worker", 2, 120, twoSlots_pos⟩

/-- A job is submitted and claimed. -/
def startedJob : List (PumpEvent .strict) :=
  [.store (.create { id := "job", clientId := "client", now := 0
                     request := .ofUrl "https://host/a.wav" } none none),
    .resume, .claim 1 [] (some "job"), .begin 0]

theorem slotsHeld_started : ∃ h s, SlotsHeld (P := .strict) twoSlots h s ∧ s.tasks.length = 1 := by
  obtain ⟨h, s, run, hone⟩ := Machine.Run.of_exec (pumpMachine .strict twoSlots) startedJob
    (fun _ s => s.tasks.length = 1) (by decide +kernel)
  exact ⟨h, s, slotsHeld run, of_decide_eq_true hone⟩

/-- The next claim finds the queue empty. -/
theorem waiting_drained_started :
    ∃ (h : PumpLog .strict) (s : Pump), s.loop = .waiting ∧ ∃ h₁ r h₂, h = h₁ ++ r :: h₂ ∧
      r.event = .resume ∧ (∀ y ∈ h₂, notifies y.event = false) ∧ ∃ x ∈ h₂, LastClaim s x := by
  obtain ⟨h, s, run, hone⟩ := Machine.Run.of_exec (pumpMachine .strict twoSlots)
    (startedJob ++ [.claim 2 [] none, .counted])
    (fun _ s => s.loop = .waiting ∧ s.wakeup = false ∧ s.slots ≠ 0 ∧ s.stopping = false)
    (by decide +kernel)
  obtain ⟨hloop, hwakeup, hslots, hstop⟩ := of_decide_eq_true hone
  exact ⟨h, s, hloop, waiting_drained run hloop hwakeup hslots hstop⟩

/-- A claim is out when `stop` is called, and the task it creates is not gathered. -/
theorem stop_drains_claiming :
    ∃ (h₂ : PumpLog .strict) (x : Entry Pump (PumpEvent .strict) (Option ℕ)) (s : Pump),
      x.event = .stop ∧ Stopped x.before h₂ s ∧ s.draining = [] ∧ s.tasks.map RunJob.id = [0] := by
  obtain ⟨h₁, x, h₂, s, run, hx, hone⟩ := Machine.Run.of_exec_at (pumpMachine .strict twoSlots)
    (startedJob.take 2) .stop [.claim 1 [] (some "job"), .counted]
    (fun s => s.draining = [] ∧ s.tasks.map RunJob.id = [0]) (by decide +kernel)
  exact ⟨h₂, x, s, hx, stop_drains run hx, of_decide_eq_true hone⟩

end Pump

end Vemsa.Jobs
