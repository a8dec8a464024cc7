import Vemsa.Support.Procs
import Vemsa.Jobs.Outbox

/-!
# Jobs — Loops

The four background loops of `JobQueue`, as programs that ask the store, the network and the file
system.  Whatever they ask may raise; what they read of their own process does not.

* `workerLoop`, `purgeLoop` and `workerHeartbeatLoop` run their rounds under a guard that takes any
  exception, and so no answer ends them.
* `webhookLoop` has no such guard.  It takes a rejected URL and a failed post, and ends with any
  other exception: `background_loops_survive` has the exact condition.
-/

namespace Vemsa.Jobs
open Vemsa.Support

/-- The classes of exceptions that some handler names; `httpx.HTTPError` with its summary. -/
inductive Exn where
  | forbiddenUrl (message : String)
  | gaierror (message : String)
  | os (message : String)
  | http (errorSummary : String)
  | other (name : String)

/-- `isinstance(exc, OSError)`; `socket.gaierror` is a subclass. -/
def Exn.isOSError : Exn → Bool
  | gaierror _ | os _ => true
  | _ => false

/-- What a loop asks of the store, the network, the host and the file system. -/
inductive Effect where
  | claimNextQueued (workerId : WorkerId)
  | countQueued
  | countActive
  | purgeOlderThan
  | purgeStatsOlderThan
  | recordWorkerHeartbeat (workerId : WorkerId)
  | recordWorkerSample
  | claimWebhook (workerId : WorkerId) (leaseForS : Time)
  | markWebhookDelivered (id : EventId) (workerId : WorkerId)
  | rescheduleWebhook (id : EventId) (workerId : WorkerId) (error : String) (delayS maxAttempts : ℕ)
  | getaddrinfo (host : String)
  | post (url : String)
  | sampleHost
  | isDir
  | iterdir
  | isOldFile (path : Path)
  | unlink (path : Path)

/-- An address comes with its `is_global`, a purged job with its `audio_path`. -/
@[reducible]
def Effect.Result : Effect → Type
  | claimNextQueued _ => Option JobId
  | countQueued | countActive | purgeStatsOlderThan => ℕ
  | purgeOlderThan => List (Option Path)
  | claimWebhook .. => Option OutboxRow
  | rescheduleWebhook .. | isDir | isOldFile _ => Bool
  | getaddrinfo _ => List (String × Bool)
  | iterdir => List Path
  | recordWorkerHeartbeat _ | recordWorkerSample | markWebhookDelivered .. | post _ | sampleHost
  | unlink _ => Unit

/-- What a loop asks: an effect, `_stopping`, whether all slots are taken, or for some time to pass
(a wakeup or its timeout, `sleep`, a slot that is free). -/
inductive Ask where
  | call (c : Effect)
  | stopping
  | slotsLocked
  | pass

@[reducible]
def Ask.Answer : Ask → Type
  | call c => Except Exn c.Result
  | stopping | slotsLocked => Bool
  | pass => Unit

/-- A program of a loop. -/
abbrev Prog (α : Type) := Proc Ask.Answer Exn α

def call (c : Effect) : Prog c.Result := Proc.read (Ask.call c) >>= Proc.ofExcept

def stopping : Prog Bool := Proc.read Ask.stopping

def slotsLocked : Prog Bool := Proc.read Ask.slotsLocked

def pass : Prog Unit := Proc.read Ask.pass

/-! ### The claim loop -/

/-- Where `_worker_loop` is: at its `while`, or at the inner one. -/
inductive WorkerAt where
  | outer | inner

/-- After the inner `while`. -/
def setGauges : Prog (Option WorkerAt) := do
  let _ ← call .countQueued
  return some .outer

/-- `_worker_loop` -/
def workerLoop (workerId : WorkerId) : WorkerAt → Prog (Option WorkerAt)
  | .outer => do
    if ← stopping then return none
    pass
    return some .inner
  | .inner =>
    Proc.guard
      (do
        if ← stopping then setGauges
        else if ← slotsLocked then setGauges
        else
          match ← call (.claimNextQueued workerId) with
          | none => setGauges
          | some _ => do
            pass
            return some .inner)
      fun _ => do
        pass
        return some .outer

/-! ### The purge loop -/

/-- `_sweep_orphans` -/
def sweepOrphans : Prog Unit := do
  if ← call .isDir then
    let paths ← call .iterdir
    paths.forM fun path =>
      Proc.guard
        (do
          if ← call (.isOldFile path) then
            call (.unlink path))
        fun e => if e.isOSError then pure () else .raise e

/-- `purge_once` -/
def purgeOnce : Prog Unit := do
  let purged ← call .purgeOlderThan
  purged.forM fun audioPath =>
    match audioPath.filter fun path => path ≠ "" with
    | none => pure ()
    | some path => do
      call (.unlink path)
  let _ ← call .purgeStatsOlderThan
  sweepOrphans

/-- `_purge_loop` -/
def purgeLoop (_ : Unit) : Prog (Option Unit) := do
  pass
  Proc.guard purgeOnce fun _ => pure ()
  return some ()

/-! ### The heartbeat loop -/

/-- `_heartbeat_once` -/
def heartbeatOnce (workerId : WorkerId) : Prog Unit := do
  call (.recordWorkerHeartbeat workerId)
  let _ ← call .countQueued
  let _ ← call .countActive
  call .sampleHost
  call .recordWorkerSample

/-- `_worker_heartbeat_loop` -/
def workerHeartbeatLoop (workerId : WorkerId) (_ : Unit) : Prog (Option Unit) := do
  Proc.guard (heartbeatOnce workerId) fun _ => pure ()
  pass
  return some ()

/-! ### The webhook loop -/

/-- What `urlparse` returns. -/
structure ParsedUrl where
  scheme : String
  username : Option String
  password : Option String
  hostname : Option String

/-- What `validate_outbound_url` takes from the library: `urlparse`, `repr`, and `casefold` with
`rstrip(".")`. -/
structure UrlLib where
  urlparse : String → ParsedUrl
  repr : String → String
  normalize : String → String

/-- `validate_outbound_url` -/
def validateOutboundUrl (lib : UrlLib) (url : String) (allowPrivate : Bool)
    (allowedHosts : List String) (requireHttps : Bool) : Prog Unit := do
  let parsed := lib.urlparse url
  let allowedSchemes := if requireHttps then ["https"] else ["http", "https"]
  if parsed.scheme ∉ allowedSchemes then
    .raise (.forbiddenUrl ("unsupported URL scheme " ++ lib.repr parsed.scheme))
  else if parsed.username.isSome || parsed.password.isSome then
    .raise (.forbiddenUrl "URL user information is not allowed")
  else
    match parsed.hostname.filter fun host => host ≠ "" with
    | none => .raise (.forbiddenUrl "URL has no host")
    | some host =>
      if allowedHosts ≠ [] ∧ lib.normalize host ∉ allowedHosts.map lib.normalize then
        .raise (.forbiddenUrl ("host " ++ lib.repr host ++ " is not in the outbound allowlist"))
      else if allowPrivate then pure ()
      else
        let infos ← Proc.guard (call (.getaddrinfo host)) fun e =>
          match e with
          | .gaierror _ => .raise (.forbiddenUrl ("cannot resolve host " ++ lib.repr host))
          | e => .raise e
        infos.forM fun info =>
          if info.2 then pure ()
          else .raise (.forbiddenUrl
            ("host " ++ lib.repr host ++ " resolves to non-public address " ++ info.1))

/-- `Settings`, the fields `_webhook_loop` reads, and the id of the queue. -/
structure WebhookWorker extends WebhookSettings where
  workerId : WorkerId
  lib : UrlLib
  allowPrivateUrls : Bool
  webhookAllowedHosts : List String
  allowInsecureWebhooks : Bool

/-- `_deliver_webhook` -/
def deliverWebhook (w : WebhookWorker) (event : OutboxRow) : Prog Unit := do
  let rejected ← Proc.guard
    (do
      validateOutboundUrl w.lib event.url w.allowPrivateUrls w.webhookAllowedHosts
        (!w.allowInsecureWebhooks)
      return none)
    fun e =>
      match e with
      | .forbiddenUrl message => return some message
      | e => .raise e
  match rejected with
  | some message =>
    let _ ← call (.rescheduleWebhook event.id w.workerId message 0 1)
  | none =>
    let failed ← Proc.guard
      (do
        call (.post event.url)
        return none)
      fun e =>
        match e with
        | .http errorSummary => return some errorSummary
        | e => .raise e
    match failed with
    | some errorSummary =>
      let _ ← call (.rescheduleWebhook event.id w.workerId errorSummary
        (min (2 ^ min event.attempt 12) 3600) w.webhookMaxAttempts)
    | none => call (.markWebhookDelivered event.id w.workerId)

/-- Where `_webhook_loop` is: at its `while`, or at the inner one. -/
inductive WebhookAt where
  | outer | inner

/-- `_webhook_loop` -/
def webhookLoop (w : WebhookWorker) : WebhookAt → Prog (Option WebhookAt)
  | .outer => do
    pass
    return some .inner
  | .inner => do
    match ← call (.claimWebhook w.workerId w.jobLeaseS) with
    | some event => do
      deliverWebhook w event
      return some .inner
    | none => do
      if ← stopping then return none
      return some .outer

/-! ### Guarded loops -/

/-- `stop()` has not been called. -/
def NotStopped : ∀ o : Ask, o.Answer → Prop
  | .stopping, b => b = false
  | _, _ => True

/-- What a guarded program can do, before `stop()`, whatever is answered. -/
abbrev Meets {α : Type} (p : Prog α) (Q : α → Prop) (E : Exn → Prop) : Prop :=
  p.Spec NotStopped (fun _ _ => True) Q E fun _ => False

section Guarded

variable {α : Type} {Q : α → Prop} {E : Exn → Prop} {p q : Prog α}

theorem meets_any (p : Prog α) : Meets p (fun _ => True) fun _ => True := .any fun _ _ => trivial

theorem meets_pass (h : Meets p Q E) : Meets (pass >>= fun _ => p) Q E :=
  (Proc.Spec.read (Q := fun _ => True) fun _ _ => ⟨trivial, trivial⟩).bind fun _ _ => h

theorem meets_stopping (h : Meets q Q E) :
    Meets (stopping >>= fun b => if b then p else q) Q E := by
  refine (Proc.Spec.read (Q := fun b => b = false) fun b hb => ⟨trivial, hb⟩).bind fun b hb => ?_
  rw [hb]
  exact h

/-- **A guard that takes every exception** lets none through, whatever is under it. -/
theorem meets_guard {f : Exn → Prog α} (h : Meets p Q fun _ => True)
    (hf : ∀ e, Meets (f e) Q E) : Meets (p.guard f) Q E :=
  Proc.Spec.guard h (fun e _ => hf e) fun _ hfatal => hfatal.elim

end Guarded

theorem meets_setGauges : Meets setGauges (fun next => next.isSome = true) fun _ => True :=
  (meets_any _).bind fun _ _ => rfl

theorem workerLoop_meets (workerId : WorkerId) (s : WorkerAt) :
    Meets (workerLoop workerId s) (fun next => next.isSome = true) fun _ => False := by
  cases s with
  | outer => exact meets_stopping (meets_pass rfl)
  | inner =>
      refine meets_guard (meets_stopping ?_) fun _ => meets_pass rfl
      refine (meets_any slotsLocked).bind fun locked _ => ?_
      cases locked with
      | true => exact meets_setGauges
      | false =>
          refine (meets_any (call (.claimNextQueued workerId))).bind fun job _ => ?_
          cases job with
          | none => exact meets_setGauges
          | some job => exact meets_pass rfl

theorem purgeLoop_meets (s : Unit) :
    Meets (purgeLoop s) (fun next => next.isSome = true) fun _ => False :=
  meets_pass ((meets_guard (f := fun _ => pure ()) (meets_any purgeOnce) fun _ => trivial).bind fun _ _ => rfl)

theorem workerHeartbeatLoop_meets (workerId : WorkerId) (s : Unit) :
    Meets (workerHeartbeatLoop workerId s) (fun next => next.isSome = true) fun _ => False :=
  (meets_guard (f := fun _ => pure ()) (meets_any (heartbeatOnce workerId)) fun _ => trivial).bind
    fun _ _ => meets_pass rfl

/-! ### The unguarded loop -/

def Exn.isForbiddenUrl : Exn → Bool
  | forbiddenUrl _ => true
  | _ => false

def Exn.isGaierror : Exn → Bool
  | gaierror _ => true
  | _ => false

def Exn.isHTTPError : Exn → Bool
  | http _ => true
  | _ => false

/-- The answers of the effects of `_webhook_loop` that raise nothing, or what a handler takes. -/
def Effect.Handled : ∀ c : Effect, Except Exn c.Result → Prop
  | _, .ok _ => True
  | getaddrinfo _, .error e => (e.isGaierror || e.isForbiddenUrl) = true
  | post _, .error e => e.isHTTPError = true
  | _, .error _ => False

def Handled : ∀ o : Ask, o.Answer → Prop
  | .call c, r => c.Handled r
  | _, _ => True

/-- What a program of `_webhook_loop` can do before `stop()`, where what is not handled is fatal. -/
abbrev MeetsHandled {α : Type} (p : Prog α) (Q : α → Prop) (E F : Exn → Prop) : Prop :=
  p.Spec NotStopped Handled Q E F

section Unguarded

variable {Q : Unit → Prop} {E F : Exn → Prop}

theorem meetsHandled_call {c : Effect} {Q : c.Result → Prop} (hok : ∀ v, Q v)
    (hexc : ∀ e, c.Handled (.error e) → E e) (hfatal : ∀ e, ¬ c.Handled (.error e) → F e) :
    MeetsHandled (call c) Q E F := by
  intro r _
  cases r with
  | ok v =>
    refine ⟨fun _ => hok v, fun hnot => absurd ?_ hnot⟩
    cases c <;> trivial
  | error e => exact ⟨fun h => hexc e h, fun h => ⟨e, rfl, hfatal e h⟩⟩

/-- Whatever a call of the store raises is fatal. -/
theorem meetsHandled_store {c : Effect} (hc : ∀ e, ¬ c.Handled (.error e)) :
    MeetsHandled (call c) (fun _ => True) E fun _ => True :=
  meetsHandled_call (fun _ => trivial) (fun e h => absurd h (hc e)) fun _ _ => trivial

theorem meetsHandled_ite {α : Type} {Q : α → Prop} {c : Prop} [Decidable c] {p q : Prog α}
    (hp : MeetsHandled p Q E F) (hq : MeetsHandled q Q E F) :
    MeetsHandled (if c then p else q) Q E F := by
  split
  · exact hp
  · exact hq

/-- `validate_outbound_url` raises `ForbiddenUrlError`, unless the name lookup fails in a way it does
not expect. -/
theorem validateOutboundUrl_meets (lib : UrlLib) (url : String) (allowPrivate : Bool)
    (allowedHosts : List String) (requireHttps : Bool) :
    MeetsHandled (validateOutboundUrl lib url allowPrivate allowedHosts requireHttps)
      (fun _ => True) (fun e => e.isForbiddenUrl = true) fun e => ¬ e.isForbiddenUrl = true := by
  unfold validateOutboundUrl
  refine meetsHandled_ite rfl (meetsHandled_ite rfl ?_)
  split
  · rfl
  · rename_i host _
    refine meetsHandled_ite rfl (meetsHandled_ite trivial ?_)
    refine Proc.Spec.bind (Q := fun _ => True) ?_ fun infos _ =>
      Proc.Spec.forM fun info _ => meetsHandled_ite trivial rfl
    -- what the lookup raises is turned into, or is, a rejection, or it is F
    refine (Proc.Spec.guard (E := fun e : Exn => (e.isGaierror || e.isForbiddenUrl) = true)
      (F := fun e : Exn => ¬ (e.isGaierror || e.isForbiddenUrl) = true)
      (meetsHandled_call (c := .getaddrinfo host) (fun _ => trivial) (fun _ h => h) fun _ h => h)
      (fun e he => ?_) fun e he => ?_).mono (fun _ h => h) (fun _ h => h) fun e he h => he ?_
    · cases e <;> first | rfl | cases he
    · cases e <;> first | rfl | exact absurd rfl he
    · rw [h, Bool.or_true]

theorem deliverWebhook_meets (w : WebhookWorker) (event : OutboxRow) :
    MeetsHandled (deliverWebhook w event) (fun _ => True) (fun _ => False) fun _ => True := by
  refine Proc.Spec.bind (Q := fun _ => True) ?_ fun rejected _ => ?_
  · -- only a rejection is caught
    refine (Proc.Spec.guard ((validateOutboundUrl_meets w.lib event.url w.allowPrivateUrls
      w.webhookAllowedHosts (!w.allowInsecureWebhooks)).bind (R := fun _ => True)
      (f := fun _ => pure none) fun _ _ => trivial) (fun e he => ?_) fun e he => ?_).mono (fun _ h => h) (fun _ h => h)
      fun _ _ => trivial
    · cases e <;> trivial
    · cases e <;> first | rfl | exact absurd rfl he
  · cases rejected with
    | some message =>
        refine (meetsHandled_store (c := .rescheduleWebhook event.id w.workerId message 0 1)
          fun _ h => h).bind fun _ _ => trivial
    | none =>
        refine Proc.Spec.bind (Q := fun _ => True) ?_ fun failed _ => ?_
        · refine (Proc.Spec.guard (E := fun e => e.isHTTPError = true)
            (F := fun e => ¬ e.isHTTPError = true)
            ((meetsHandled_call (c := .post event.url) (Q := fun _ => True) (fun _ => trivial)
              (fun _ h => h) fun _ h => h).bind (R := fun _ => True) (f := fun _ => pure none)
              fun _ _ => trivial)
            (fun e he => ?_) fun e he => ?_).mono (fun _ h => h) (fun _ h => h) fun _ _ => trivial
          · cases e <;> trivial
          · cases e <;> first | rfl | exact absurd rfl he
        · cases failed with
          | some errorSummary =>
              refine (meetsHandled_store (c := .rescheduleWebhook event.id w.workerId errorSummary
                (min (2 ^ min event.attempt 12) 3600) w.webhookMaxAttempts) fun _ h => h).bind
                fun _ _ => trivial
          | none =>
              exact meetsHandled_store (c := .markWebhookDelivered event.id w.workerId) fun _ h => h

theorem webhookLoop_meets (w : WebhookWorker) (s : WebhookAt) :
    MeetsHandled (webhookLoop w s) (fun next => next.isSome = true) (fun _ => False)
      fun _ => True := by
  cases s with
  | outer =>
      refine (Proc.Spec.read (Q := fun _ => True) fun _ _ => ⟨trivial, trivial⟩).bind fun _ _ => ?_
      exact rfl
  | inner =>
      refine (meetsHandled_store (c := .claimWebhook w.workerId w.jobLeaseS) fun _ h => h).bind
        fun claimed _ => ?_
      cases claimed with
      | some event => exact (deliverWebhook_meets w event).bind fun _ _ => rfl
      | none =>
          refine (Proc.Spec.read (Q := fun b => b = false) fun b hb => ⟨trivial, hb⟩).bind
            fun b hb => ?_
          rw [hb]
          rfl

end Unguarded

/-! ### The loops -/

/-- A run of a loop: every answer it got, in order. -/
abbrev LoopLog (σ : Type) := List (Entry (Prog (Option σ)) (∀ o : Ask, o.Answer) Unit)

/-- Until `stop()` is called every answer about it is no. -/
abbrev BeforeStop {σ : Type} (h : LoopLog σ) : Prop := ∀ x ∈ h, Proc.Answered NotStopped x

/-- A guarded loop never ends before `stop()`. -/
theorem never_ends {σ : Type} {body : σ → Prog (Option σ)} {start : σ}
    (hbody : ∀ s, Meets (body s) (fun next => next.isSome = true) fun _ => False) {h : LoopLog σ}
    {p : Prog (Option σ)} (run : (Proc.loopMachine body start).Run h p) (hstop : BeforeStop h) :
    ¬ Proc.Ended p :=
  (Proc.loop_alive (fun s => (hbody s).mono (fun _ h => h) (fun _ h => h) fun _ _ => trivial) run
    hstop).mpr fun _ _ _ _ _ => trivial

/-- **The background loops before `stop()`**, whatever the store, the network and the file system
answer: the claim loop, the purge loop and the heartbeat loop go on.  The webhook loop goes on
exactly as long as nothing is raised but what it handles. -/
theorem background_loops_survive (workerId : WorkerId) (w : WebhookWorker) :
    (∀ h p, (Proc.loopMachine (workerLoop workerId) .outer).Run h p → BeforeStop h →
      ¬ Proc.Ended p) ∧
    (∀ h p, (Proc.loopMachine purgeLoop ()).Run h p → BeforeStop h → ¬ Proc.Ended p) ∧
    (∀ h p, (Proc.loopMachine (workerHeartbeatLoop workerId) ()).Run h p → BeforeStop h →
      ¬ Proc.Ended p) ∧
    ∀ h p, (Proc.loopMachine (webhookLoop w) .outer).Run h p → BeforeStop h →
      (¬ Proc.Ended p ↔ ∀ x ∈ h, Proc.Answered Handled x) :=
  ⟨fun _ _ => never_ends (workerLoop_meets workerId), fun _ _ => never_ends purgeLoop_meets,
    fun _ _ => never_ends (workerHeartbeatLoop_meets workerId),
    fun _ _ => Proc.loop_alive (webhookLoop_meets w)⟩

def webhookWorker : WebhookWorker where
  toWebhookSettings := webhookSettings
  workerId := "worker"
  lib :=
    { urlparse := fun _ => ⟨"https", none, none, some "host"⟩, repr := id, normalize := id }
  allowPrivateUrls := true
  webhookAllowedHosts := []
  allowInsecureWebhooks := false

/-- The database is gone. -/
def unavailable : ∀ o : Ask, o.Answer
  | .call _ => .error (.other "ConnectionDoesNotExistError")
  | .stopping | .slotsLocked => false
  | .pass => ()

theorem unavailable_notStopped (o : Ask) : NotStopped o (unavailable o) := by
  cases o <;> trivial

/-- A loop that is told so `n` times. -/
theorem run_unavailable {σ : Type} {body : σ → Prog (Option σ)} {start : σ} {n : ℕ} {h : LoopLog σ}
    {p : Prog (Option σ)}
    (hx : (Proc.loopMachine body start).exec (List.replicate n unavailable) (body start) = some (h, p)) :
    (Proc.loopMachine body start).Run h p ∧ BeforeStop h ∧ h.length = n := by
  have hevents := Machine.events_of_exec hx
  refine ⟨Machine.Path.of_exec hx, fun x hmem o _ _ => ?_, ?_⟩
  · have hevent : x.event = unavailable :=
      List.eq_of_mem_replicate (hevents ▸ List.mem_map_of_mem hmem)
    rw [hevent]
    exact unavailable_notStopped o
  · rw [← List.length_map Entry.event, hevents, List.length_replicate]

/-- One claim that the database does not answer ends the webhook loop. -/
theorem webhook_loop_ends : ¬ ∀ h p, (Proc.loopMachine (webhookLoop webhookWorker) .outer).Run h p →
    BeforeStop h → ¬ Proc.Ended p := by
  intro hall
  obtain ⟨h, hx⟩ : ∃ h, (Proc.loopMachine (webhookLoop webhookWorker) .outer).exec
      (List.replicate 3 unavailable) (webhookLoop webhookWorker .outer) =
        some (h, .raise (.other "ConnectionDoesNotExistError")) := ⟨_, rfl⟩
  obtain ⟨run, hstop, -⟩ := run_unavailable hx
  exact hall h _ run hstop (.inr ⟨_, rfl⟩)

/-- The same outage: the claim loop is at its next round after it, and the webhook loop was answered
something that it does not handle. -/
theorem background_loops_survive_unavailable :
    (∃ h p, (Proc.loopMachine (workerLoop "worker") .outer).Run h p ∧ BeforeStop h ∧ h.length = 8 ∧
      ¬ Proc.Ended p) ∧
    ∃ h p, (Proc.loopMachine (webhookLoop webhookWorker) .outer).Run h p ∧ BeforeStop h ∧
      Proc.Ended p ∧ ¬ ∀ x ∈ h, Proc.Answered Handled x := by
  obtain ⟨hworker, -, -, hwebhook⟩ := background_loops_survive "worker" webhookWorker
  constructor
  · obtain ⟨h, p, hx⟩ : ∃ h p, (Proc.loopMachine (workerLoop "worker") .outer).exec
        (List.replicate 8 unavailable) (workerLoop "worker" .outer) = some (h, p) := ⟨_, _, rfl⟩
    obtain ⟨run, hstop, hlength⟩ := run_unavailable hx
    exact ⟨h, p, run, hstop, hlength, hworker h p run hstop⟩
  · obtain ⟨h, hx⟩ : ∃ h, (Proc.loopMachine (webhookLoop webhookWorker) .outer).exec
        (List.replicate 3 unavailable) (webhookLoop webhookWorker .outer) =
          some (h, .raise (.other "ConnectionDoesNotExistError")) := ⟨_, rfl⟩
    obtain ⟨run, hstop, -⟩ := run_unavailable hx
    have hended : Proc.Ended (.raise (.other "ConnectionDoesNotExistError") :
      Prog (Option WebhookAt)) := .inr ⟨_, rfl⟩
    exact ⟨h, _, run, hstop, hended, mt (hwebhook h _ run hstop).mpr (not_not.mpr hended)⟩

end Vemsa.Jobs
