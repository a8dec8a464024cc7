import Vemsa.Api.McpServer
import Vemsa.Jobs.Admission

/-!
# Api — Health

The readiness probe.  It reads the counts one after the other while the store moves on, so what it says
is no snapshot; `readiness_promises` is what can be relied on all the same: until somebody submits, a
client who was told that the queue accepts jobs is not refused for capacity.
-/

namespace Vemsa.Api
open Vemsa.Support Vemsa.Jobs

/-! ### The probe -/

/-- What `load_readiness` asks; only `ping` catches the errors of the database itself. -/
inductive Probe where
  | ping
  | hasWorker
  | countQueued
  | countActive (clientId : Option String)

def Probe.Answer : Probe → Type
  | ping => Bool
  | hasWorker => Except Unit Bool
  | countQueued | countActive _ => Except Unit ℕ

/-- What the environment decides: whether the database answers, and whether a worker was heard of. -/
structure ProbeChance where
  up : Bool
  worker : Bool

/-- `count_active` -/
def countActive (clientId : Option String) (t : Tables) : ℕ :=
  t.jobs.matched fun row => row.isActive && clientId.all (row.clientId = ·)

/-- `count_queued` -/
def countQueued (t : Tables) : ℕ := t.jobs.matched fun row => row.status = .queued

/-- The store, as the probe meets it. -/
def probedStore (P : Pydantic) : Service Db (Call P) (Reply P) ProbeChance Probe.Answer where
  event _ _ := none
  answer
    | .ping, chance, _, _ => chance.up
    | .hasWorker, chance, _, _ => if chance.up then .ok chance.worker else .error ()
    | .countQueued, chance, s, _ => if chance.up then .ok (countQueued s.tables) else .error ()
    | .countActive clientId, chance, s, _ =>
      if chance.up then .ok (countActive clientId s.tables) else .error ()

/-- What `load_readiness` finds out. -/
structure Snapshot where
  databaseReady : Bool := false
  workerReady : Bool := false
  queuedJobs : Option ℕ := none
  activeJobs : Option ℕ := none
  clientActiveJobs : Option ℕ := none

/-- `ReadinessResponse`, with the status code it is sent with. -/
structure ReadinessResponse where
  code : ℕ
  ready : Bool
  databaseReady : Bool
  workerReady : Bool
  queueAcceptingJobs : Bool
  queuedJobs : Option ℕ
  supportedTasks : List JobTask

/-- The `try` block of `load_readiness`; `worker` says if the process runs one itself or asks the store,
which is one question either way. -/
def takeSnapshot (hasStore : Bool) (clientId : Option String) : Proc Probe.Answer Unit Snapshot :=
  .bind (if hasStore then .ask .ping .pure else .pure false) fun (databaseReady : Bool) =>
  if databaseReady then
    .ask .hasWorker fun r => .bind (.ofExcept r) fun workerReady =>
    .ask .countQueued fun r => .bind (.ofExcept r) fun queued =>
    .ask (.countActive none) fun r => .bind (.ofExcept r) fun active =>
    match clientId with
    | none => .pure ⟨true, workerReady, some queued, some active, none⟩
    | some client =>
      .ask (.countActive (some client)) fun r => .bind (.ofExcept r) fun clientActive =>
      .pure ⟨true, workerReady, some queued, some active, some clientActive⟩
  else .pure {}

/-- `queue_accepting_jobs` -/
def Snapshot.accepting (snapshot : Snapshot) (settings : Settings) (clientId : Option String) : Bool :=
  snapshot.databaseReady && snapshot.workerReady &&
    snapshot.activeJobs.any (· < settings.maxQueuedJobs) &&
    (clientId.isNone || snapshot.clientActiveJobs.any (· < settings.maxQueuedJobsPerClient))

/-- The end of `load_readiness`, and of `readiness`. -/
def Snapshot.response (snapshot : Snapshot) (settings : Settings) (clientId : Option String) :
    ReadinessResponse :=
  let ready := snapshot.databaseReady && snapshot.workerReady
  { code := if ready then 200 else 503
    ready
    databaseReady := snapshot.databaseReady
    workerReady := snapshot.workerReady
    queueAcceptingJobs := snapshot.accepting settings clientId
    queuedJobs := snapshot.queuedJobs
    supportedTasks := settings.supportedTasks }

/-- `readiness`: `load_readiness` with the client who asks -/
def readiness (settings : Settings) (hasStore : Bool) (clientId : Option String) :
    Proc Probe.Answer Unit ReadinessResponse :=
  .bind (.guard (takeSnapshot hasStore clientId) fun _ => .pure {}) fun snapshot =>
    .pure (snapshot.response settings clientId)

/-! ### What it promises -/

section Promise

variable {P : Pydantic} {settings : Settings} {clientId : String} {s₀ s t u : Db} {h₀ h : StoreLog P}

/-- The capacity checks of `create` pass. -/
def Admits (settings : Settings) (clientId : String) (t : Tables) : Prop :=
  onCounts (some settings.maxQueuedJobs) (some settings.maxQueuedJobsPerClient)
    (activeCounts t clientId) = .ok ()

theorem admits_iff {t : Tables} : Admits settings clientId t ↔
    countActive none t < settings.maxQueuedJobs ∧
      countActive (some clientId) t < settings.maxQueuedJobsPerClient := by
  have hall : countActive none t = (activeCounts t clientId).1 := by simp [countActive, activeCounts]
  have hone : countActive (some clientId) t = (activeCounts t clientId).2 := by
    simp [countActive, activeCounts]
  rw [hall, hone, Admits, onCounts]
  simp only [Option.any_some, decide_eq_true_eq]
  split
  case isTrue hle => simp [Nat.not_lt.mpr hle]
  case isFalse hlt =>
    split
    case isTrue hle => simp [Nat.not_lt.mpr hle]
    case isFalse hlt' => simp [Nat.lt_of_not_le hlt, Nat.lt_of_not_le hlt']

/-- A submission under the caps is not refused for capacity. -/
theorem Admits.create {t : Tables} (ha : Admits settings clientId t) {job : Job P}
    (hclient : job.clientId = clientId) (scope : String) (active limit : ℕ) :
    Jobs.create P job (some settings.maxQueuedJobs) (some settings.maxQueuedJobsPerClient) t ≠
      .error (.capacity scope active limit) := by
  intro hcreate
  unfold Jobs.create at hcreate
  rw [hclient, show onCounts _ _ (activeCounts t clientId) = .ok () from ha] at hcreate
  dsimp only at hcreate
  cases hkey : onKeyRow P job (job.idempotencyKey.bind (lookUpKey t clientId)) with
  | error e =>
      rw [hkey] at hcreate
      obtain rfl := Except.error.inj hcreate
      unfold onKeyRow at hkey
      split at hkey
      · cases hkey
      · split at hkey
        · cases hkey
        · split at hkey <;> cases hkey
  | ok found =>
      rw [hkey] at hcreate
      cases found with
      | some original => cases hcreate
      | none =>
          simp only [except_ok_bind] at hcreate
          cases hrequest : onRequest job.request with
          | error e =>
              rw [hrequest] at hcreate
              obtain rfl := Except.error.inj hcreate
              cases onRequest_eq_error hrequest
          | ok =>
              simp only [hrequest, except_ok_bind] at hcreate
              split at hcreate <;> cases hcreate

/-- One over the caps, without an idempotency key, is. -/
theorem create_of_not_admits {t : Tables} (ha : ¬ Admits settings clientId t) {job : Job P}
    (hclient : job.clientId = clientId) (hkey : job.idempotencyKey = none) :
    ∃ scope active limit, Jobs.create P job (some settings.maxQueuedJobs)
      (some settings.maxQueuedJobsPerClient) t = .error (.capacity scope active limit) := by
  unfold Jobs.create
  simp only [hkey, hclient, Option.bind_none, onKeyRow, except_ok_bind]
  unfold Admits onCounts at ha
  unfold onCounts
  split
  · exact ⟨_, _, _, rfl⟩
  · rename_i hglobal
    rw [if_neg hglobal] at ha
    split
    · exact ⟨_, _, _, rfl⟩
    · rename_i hone
      rw [if_neg hone] at ha
      exact absurd rfl ha

/-- No call but `create` raises the counts. -/
theorem countActive_le (path : (storeMachine P).Path t h u)
    (hquiet : ∀ x ∈ h, ∀ new a b, x.event ≠ .create new a b) (client : Option String) :
    countActive client u.tables ≤ countActive client t.tables := by
  induction path with
  | nil => exact le_rfl
  | @snoc u u' h c r path hstep ih =>
      obtain ⟨hold, hlast⟩ := List.forall_mem_append.mp hquiet
      rw [List.forall_mem_singleton] at hlast
      refine (matched_step_le hstep hlast fun hch hq => ?_).trans (ih hold)
      simp only [Bool.and_eq_true] at hq ⊢
      refine ⟨hch.active hq.1, ?_⟩
      rw [← hch.immutable.2.1]
      exact hq.2

theorem served_probe {α : Type} {o : Probe} {k : o.Answer → Proc Probe.Answer Unit α} {r : Except Unit α}
    (served : (storeMachine P).Served (probedStore P) (.ask o k) s h u r) :
    ∃ chance h₁ t h₂, h = h₁ ++ h₂ ∧ (storeMachine P).Path s h₁ t ∧
      (storeMachine P).Served (probedStore P) (k ((probedStore P).answer o chance t none)) t h₂ u r := by
  rcases served.ask_inv with ⟨chance, h₁, t, h₂, rfl, wait, -, rest⟩ | ⟨_, _, _, _, _, _, hevent, _⟩
  · exact ⟨chance, h₁, t, h₂, rfl, wait, rest⟩
  · cases hevent

/-- What a readiness answer says. -/
structure Promise (settings : Settings) (clientId : String) (s₀ : Db) (h : StoreLog P) (s : Db)
    (answer : ReadinessResponse) : Prop where
  /-- until somebody submits, the client is not refused for capacity -/
  accepted : answer.queueAcceptingJobs = true → (∀ x ∈ h, ∀ new a b, x.event ≠ .create new a b) →
    ∀ job : Job P, job.clientId = clientId → ∀ scope active limit,
      Jobs.create P job (some settings.maxQueuedJobs) (some settings.maxQueuedJobsPerClient)
        s.tables ≠ .error (.capacity scope active limit)
  /-- a ready service that does not accept jobs would have refused one -/
  full : answer.ready = true → answer.queueAcceptingJobs = false →
    (storeMachine P).Sometime s₀ h s fun t => ∀ job : Job P, job.clientId = clientId →
      job.idempotencyKey = none → ∃ scope active limit,
        Jobs.create P job (some settings.maxQueuedJobs) (some settings.maxQueuedJobsPerClient)
          t.tables = .error (.capacity scope active limit)
  queued : ∀ n ∈ answer.queuedJobs,
    (storeMachine P).Sometime s₀ h s fun t => n = countQueued t.tables
  code : answer.code = if answer.ready then 200 else 503
  tasks : ∀ task, task ∈ answer.supportedTasks ↔ settings.taskRefusal task = none

/-- Without counts nothing is promised. -/
theorem promise_of_down {snapshot : Snapshot} (hdown : snapshot.databaseReady = false)
    (hqueued : snapshot.queuedJobs = none) :
    Promise (P := P) settings clientId s₀ h s (snapshot.response settings (some clientId)) := by
  constructor
  · intro haccepting
    simp [Snapshot.response, Snapshot.accepting, hdown] at haccepting
  · intro hready
    simp [Snapshot.response, hdown] at hready
  · intro n hn
    simp [Snapshot.response, hqueued] at hn
  · rfl
  · intro task
    simp [Snapshot.response, Settings.taskRefusal]

/-- The two counts, each read at its moment. -/
theorem promise_of_counts {workerReady : Bool} {queued active clientActive : ℕ} {t₁ t₂ t₃ : Db}
    {h₁ h₂ h₃ h₄ : StoreLog P} (path₁ : (storeMachine P).Path s₀ h₁ t₁)
    (path₂ : (storeMachine P).Path t₁ h₂ t₂) (path₃ : (storeMachine P).Path t₂ h₃ t₃)
    (path₄ : (storeMachine P).Path t₃ h₄ s) (hqueued : queued = countQueued t₁.tables)
    (hactive : active = countActive none t₂.tables)
    (hclient : clientActive = countActive (some clientId) t₃.tables) :
    Promise settings clientId s₀ (h₁ ++ (h₂ ++ (h₃ ++ h₄))) s
      (Snapshot.response ⟨true, workerReady, some queued, some active, some clientActive⟩ settings
        (some clientId)) := by
  constructor
  · intro haccepting hquiet job hjob
    refine Admits.create ?_ hjob
    simp only [Snapshot.response, Snapshot.accepting, Bool.and_eq_true, Option.any_some, decide_eq_true_eq,
      Option.isNone_some, Bool.false_or] at haccepting
    simp only [List.forall_mem_append] at hquiet
    obtain ⟨-, -, hquiet₃, hquiet₄⟩ := hquiet
    -- both counts can only have fallen since they were read
    refine admits_iff.mpr ⟨?_, ?_⟩
    · refine lt_of_le_of_lt ?_ haccepting.1.2
      rw [hactive]
      exact (countActive_le path₄ hquiet₄ none).trans (countActive_le path₃ hquiet₃ none)
    · refine lt_of_le_of_lt ?_ haccepting.2
      rw [hclient]
      exact countActive_le path₄ hquiet₄ (some clientId)
  · intro hready hrefused
    have hworker : workerReady = true := by simpa [Snapshot.response] using hready
    by_cases hglobal : active < settings.maxQueuedJobs
    · have hone : ¬ clientActive < settings.maxQueuedJobsPerClient := by
        simpa [Snapshot.response, Snapshot.accepting, hworker, hglobal] using hrefused
      refine ⟨h₁ ++ (h₂ ++ h₃), t₃, h₄, by simp, path₁.append (path₂.append path₃), path₄, ?_⟩
      refine fun job hjob hkey => create_of_not_admits (fun ha => hone ?_) hjob hkey
      rw [hclient]
      exact (admits_iff.mp ha).2
    · refine ⟨h₁ ++ h₂, t₂, h₃ ++ h₄, by simp, path₁.append path₂, path₃.append path₄, ?_⟩
      refine fun job hjob hkey => create_of_not_admits (fun ha => hglobal ?_) hjob hkey
      rw [hactive]
      exact (admits_iff.mp ha).1
  · intro n hn
    obtain rfl : queued = n := by simpa [Snapshot.response] using hn
    exact ⟨h₁, t₁, _, rfl, path₁, path₂.append (path₃.append path₄), hqueued⟩
  · rfl
  · intro task
    simp [Snapshot.response, Settings.taskRefusal]

theorem promised {hasStore : Bool} {r : Except Unit ReadinessResponse}
    (served : (storeMachine P).Served (probedStore P) (readiness settings hasStore (some clientId))
      s₀ h s r) :
    ∃ answer, r = .ok answer ∧ Promise settings clientId s₀ h s answer := by
  -- where the probe failed, and where there is no store, nothing was counted
  have down : ∀ {h' h : StoreLog P} {t : Db}, (storeMachine P).Served (probedStore P)
      (.pure (Snapshot.response {} settings (some clientId))) t h s r →
        ∃ answer, r = .ok answer ∧ Promise (P := P) settings clientId s₀ h' s answer := by
    intro h' h t served
    obtain ⟨rfl, -⟩ := served.pure_inv
    exact ⟨_, rfl, promise_of_down rfl rfl⟩
  cases hasStore with
  | false => exact down served
  | true =>
      obtain ⟨⟨_ | _, _⟩, g₁, t₁, h, rfl, path₁, served⟩ := served_probe served
      · exact down served
      obtain ⟨⟨_ | _, worker⟩, g₂, t₂, h, rfl, path₂, served⟩ := served_probe served
      · exact down served
      obtain ⟨⟨_ | _, _⟩, g₃, t₃, h, rfl, path₃, served⟩ := served_probe served
      · exact down served
      obtain ⟨⟨_ | _, _⟩, g₄, t₄, h, rfl, path₄, served⟩ := served_probe served
      · exact down served
      obtain ⟨⟨_ | _, _⟩, g₅, t₅, h, rfl, path₅, served⟩ := served_probe served
      · exact down served
      obtain ⟨rfl, path₆⟩ := served.pure_inv
      refine ⟨_, rfl, ?_⟩
      rw [← List.append_assoc, ← List.append_assoc]
      exact promise_of_counts ((path₁.append path₂).append path₃) path₄ path₅ path₆ rfl rfl rfl

/-- **Readiness never raises, and its answer can be relied on**: as long as nobody submits, a client who
was told that the queue accepts jobs is not refused for capacity; and a ready service that does not
accept them would have refused one at some moment of the probe. -/
theorem readiness_promises {hasStore : Bool} {g : List (Entry _ (Call P ⊕ ProbeChance) _)}
    {q : Proc Probe.Answer Unit _} {r : Except Unit ReadinessResponse}
    (run : ((storeMachine P).client (probedStore P) (readiness settings hasStore (some clientId)) s₀).Run
      g (s, q)) (hr : q.outcome = some r) :
    ∃ answer, r = .ok answer ∧ Promise settings clientId s₀ (Machine.taken g) s answer :=
  promised (Machine.served_of_run run hr)

/-- The queue has room for a second job, whoever claims the first. -/
theorem readiness_promises_room : ∃ s₀ g s q answer,
    ((storeMachine .strict).client (probedStore .strict) (readiness plainSettings true (some "client"))
      s₀).Run g (s, q) ∧
    Promise (P := .strict) plainSettings "client" s₀ (Machine.taken g) s answer ∧
      answer.queueAcceptingJobs = true := by
  obtain ⟨-, s₀, g, s, q, r, -, run, hr, hok⟩ := Machine.client_of_exec (storeMachine .strict)
    (probedStore .strict) (readiness plainSettings true (some "client"))
    [.create (plainJob "a" 1) none none]
    [.inr ⟨true, true⟩, .inr ⟨true, true⟩, .inr ⟨true, true⟩,
      .inl (.claimNextQueued "worker" 3 60 [] [] (some "a")), .inr ⟨true, true⟩, .inr ⟨true, true⟩]
    (fun r => r.toOption.any fun answer => answer.queueAcceptingJobs) (by decide +kernel)
  obtain ⟨answer, rfl, hpromise⟩ := readiness_promises run hr
  exact ⟨s₀, g, s, q, answer, run, hpromise, by simpa [Except.toOption] using hok⟩

end Promise

end Vemsa.Api
