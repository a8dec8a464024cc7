import Vemsa.Jobs.Lifecycle

/-!
# Jobs — Outbox

Webhook delivery.  Each worker drains the outbox one event at a time: it claims one, posts it, and
reports how that ended (`_webhook_loop`, `_deliver_webhook`).  Its lease may lapse while it posts,
and then others claim the event; the store takes the calls of all workers in any order
(`outboxMachine`), with those of everybody else in between.

* `outbox_fate`: what one step can do to one row.
* `Kept`: the owner of a row is who claimed it last, and a row that is still to be tried has
  attempts left.
* `webhook_outbox`: so only the owner's report counts.  What `reschedule_webhook` returns is another
  matter: a call that matches no row reads like one that retired the event.
-/

namespace Vemsa.Jobs
open Vemsa.Support

/-- `Settings`, the fields delivery reads; `_validate` checks what it checks. -/
structure WebhookSettings where
  jobLeaseS : Time
  webhookMaxAttempts : ℕ
  webhookMaxAttempts_pos : 0 < webhookMaxAttempts

/-- How the delivery of an event ended: the post came through, the URL is forbidden, or there was an
`httpx.HTTPError`. -/
inductive Delivery where
  | delivered
  | rejected (error : String)
  | failed (errorSummary : String)

/-- Where `_webhook_loop` of a worker is. -/
inductive Phase where
  | idle
  | posting (event : OutboxRow)
  | reporting (event : OutboxRow) (delivery : Delivery)

/-- The database, and every worker. -/
structure Outbox where
  db : Db
  phase : WorkerId → Phase

/-- A step; what the clock, the database and the network decide is part of it. -/
inductive OutboxEvent (P : Pydantic) where
  | other (c : Call P)
  | claim (worker : WorkerId) (now : Time) (locked : List EventId) (pick : Option EventId)
  | post (worker : WorkerId) (delivery : Delivery)
  | report (worker : WorkerId) (now : Time)

section Machine

variable {P : Pydantic}

/-- The calls that only `_webhook_loop` makes. -/
def Call.ofDelivery : Call P → Bool
  | claimWebhook .. | markWebhookDelivered .. | rescheduleWebhook .. => true
  | _ => false

/-- What a claim returned. -/
def Reply.claimed : Reply P → Option OutboxRow
  | event e => e
  | _ => none

/-- The call `_deliver_webhook` ends with. -/
def Delivery.call (settings : WebhookSettings) (worker : WorkerId) (now : Time) (event : OutboxRow) :
    Delivery → Call P
  | delivered => .markWebhookDelivered event.id worker
  | rejected error => .rescheduleWebhook event.id worker error 0 now 1
  | failed errorSummary =>
    .rescheduleWebhook event.id worker errorSummary (min (2 ^ min event.attempt 12) 3600 * 1000000)
      now settings.webhookMaxAttempts

def OutboxEvent.step (settings : WebhookSettings) (s : Outbox) :
    OutboxEvent P → Option (Outbox × Reply P)
  | other c =>
    if c.ofDelivery then none
    else (c.step s.db).map fun (db, r) => ({ s with db }, r)
  | claim worker now locked pick =>
    match s.phase worker with
    | .idle =>
      (Call.step s.db (.claimWebhook worker now settings.jobLeaseS locked pick)).map fun (db, r) =>
        (⟨db, Function.update s.phase worker ((r.claimed.map Phase.posting).getD .idle)⟩, r)
    | _ => none
  | post worker delivery =>
    match s.phase worker with
    | .posting event =>
      some ({ s with phase := Function.update s.phase worker (.reporting event delivery) }, .done)
    | _ => none
  | report worker now =>
    match s.phase worker with
    | .reporting event delivery =>
      (Call.step s.db (delivery.call settings worker now event)).map fun (db, r) =>
        (⟨db, Function.update s.phase worker .idle⟩, r)
    | _ => none

variable (P) in
/-- Every worker and everybody else, from empty tables. -/
def outboxMachine (settings : WebhookSettings) : Machine Outbox (OutboxEvent P) (Reply P) where
  init := ⟨⟨.empty, []⟩, fun _ => .idle⟩
  step := OutboxEvent.step settings

/-! ### One row -/

/-- `reschedule_webhook`, on the row it matches. -/
def OutboxRow.reschedule (error : String) (delayS now : Time) (maxAttempts : ℕ) (e : OutboxRow) :
    OutboxRow :=
  { e with
    attempt := e.attempt + 1
    nextAttemptAt := if maxAttempts ≤ e.attempt + 1 then none else some (now + delayS)
    leaseOwner := none, leaseExpiresAt := none
    lastError := some (.ofList (error.toList.take 1000)) }

/-- `claim_webhook`, on the row it picks. -/
def OutboxRow.claim (worker : WorkerId) (expiresAt : Time) (e : OutboxRow) : OutboxRow :=
  { e with leaseOwner := some worker, leaseExpiresAt := some expiresAt }

@[simp]
theorem OutboxRow.id_reschedule (error : String) (delayS now : Time) (maxAttempts : ℕ)
    (e : OutboxRow) : (e.reschedule error delayS now maxAttempts).id = e.id := rfl

@[simp]
theorem OutboxRow.id_claim (worker : WorkerId) (expiresAt : Time) (e : OutboxRow) :
    (e.claim worker expiresAt).id = e.id := rfl

/-- The row of an event. -/
def Outbox.event? (s : Outbox) (k : EventId) : Option OutboxRow := s.db.tables.webhookOutbox.get? k

/-- Whom a step hands the event to. -/
def claims (k : EventId) (x : Entry Outbox (OutboxEvent P) (Reply P)) : Option WorkerId :=
  match x.event with
  | .claim worker .. => if x.reply.claimed.any fun e => e.id = k then some worker else none
  | _ => none

/-- What a step does to one row. -/
inductive Fate (settings : WebhookSettings) (k : EventId)
    (x : Entry Outbox (OutboxEvent P) (Reply P)) : Option OutboxRow → Option OutboxRow → Prop
  | same (o) (hclaims : claims k x = none) : Fate settings k x o o
  | inserted (e : OutboxRow) (c) (hevent : x.event = .other c) (hattempt : e.attempt = 0)
      (howner : e.leaseOwner = none) (hnext : e.nextAttemptAt ≠ none) :
      Fate settings k x none (some e)
  | purged (e : OutboxRow) (cutoff) (hevent : x.event = .other (.purgeOlderThan cutoff))
      (hjob : ∃ row, x.before.db.tables.jobs.get? e.jobId = some row)
      (hgone : x.after.db.tables.jobs.get? e.jobId = none) : Fate settings k x (some e) none
  | claimed (e : OutboxRow) (worker now locked pick)
      (hevent : x.event = .claim worker now locked pick) (hclaims : claims k x = some worker)
      (hnext : e.nextAttemptAt ≠ none) :
      Fate settings k x (some e) (some (e.claim worker (now + settings.jobLeaseS)))
  | delivered (e : OutboxRow) (worker now) (event : OutboxRow)
      (hevent : x.event = .report worker now) (hid : event.id = k)
      (hphase : x.before.phase worker = .reporting event .delivered)
      (howner : e.leaseOwner = some worker) : Fate settings k x (some e) none
  | rescheduled (e : OutboxRow) (worker now) (event : OutboxRow) (delivery : Delivery)
      (error delayS maxAttempts) (hevent : x.event = .report worker now) (hid : event.id = k)
      (hphase : x.before.phase worker = .reporting event delivery)
      (hcall : (delivery.call settings worker now event : Call P) =
        .rescheduleWebhook k worker error delayS now maxAttempts)
      (howner : e.leaseOwner = some worker) :
      Fate settings k x (some e) (some (e.reschedule error delayS now maxAttempts))

section Step

variable {settings : WebhookSettings}

/-- What the calls of everybody else do to the outbox. -/
theorem outbox_of_other {c : Call P} {db db' : Db} {r : Reply P} (hc : c.ofDelivery = false)
    (h : c.step db = some (db', r)) :
    db'.tables.webhookOutbox = db.tables.webhookOutbox ∨
    (∃ v : Verdict, db'.tables.webhookOutbox.rows = v.events ++ db.tables.webhookOutbox.rows) ∨
    ∃ cutoff, c = .purgeOlderThan cutoff ∧ db'.tables = (Jobs.purgeOlderThan cutoff db.tables).1 := by
  cases hverdict : c.verdict with
  | some v =>
      obtain ⟨hs, -⟩ := step_settle h hverdict
      rcases settle_cases hs fun _ hr => Call.id_of_hit (Call.key_of_verdict hverdict) hr with
        ⟨-, ht, -⟩ | ⟨-, -, row, -, -, -, hrows, -⟩
      · exact .inl (by rw [ht])
      · exact .inr (.inl ⟨v, hrows⟩)
  | none =>
      cases c with
      | create new a b =>
          obtain ⟨-, -, ht | ⟨-, -, hins⟩⟩ := create_step h
          · exact .inl (by rw [ht])
          · obtain ⟨-, -, -, -, -, -, hout⟩ := insertJob_eq_some hins
            exact .inl hout
      | claimNextQueued w now s ex locked pick =>
          obtain ⟨⟨t, o⟩, hclaim, heq⟩ := Option.map_eq_some_iff.mp h
          obtain ⟨rfl, rfl⟩ := Prod.mk.inj heq
          unfold Jobs.claimNextQueued at hclaim
          split at hclaim
          · obtain ⟨rfl, rfl⟩ := Prod.mk.inj (Option.some.inj hclaim)
            exact .inl rfl
          · cases hclaim
      | releaseForRetry | setAudioPath | setStage | renewLease =>
          obtain ⟨rfl, -⟩ := step_update h trivial
          exact .inl rfl
      | purgeOlderThan cutoff =>
          obtain ⟨rfl, rfl⟩ := Prod.mk.inj (Option.some.inj h)
          exact .inr (.inr ⟨cutoff, rfl, rfl⟩)
      | purgeStatsOlderThan cutoff =>
          obtain ⟨rfl, rfl⟩ := Prod.mk.inj (Option.some.inj h)
          exact .inl rfl
      | claimWebhook | markWebhookDelivered | rescheduleWebhook => cases hc
      | cancel | finish | fail => cases hverdict

/-- The events of the jobs that are purged go with them. -/
theorem event_purged (cutoff : Time) {t : Tables} {k : EventId} {e : OutboxRow}
    (he : t.webhookOutbox.get? k = some e) :
    (Jobs.purgeOlderThan cutoff t).1.webhookOutbox.get? k = some e ∨
    ((Jobs.purgeOlderThan cutoff t).1.webhookOutbox.get? k = none ∧
      (∃ row, t.jobs.get? e.jobId = some row) ∧
      (Jobs.purgeOlderThan cutoff t).1.jobs.get? e.jobId = none) := by
  simp only [Jobs.purgeOlderThan, Table.get?_delete, he]
  cases hany : (t.jobs.rows.filter (Row.expired cutoff)).any fun r => decide (r.id = e.jobId) with
  | false => exact .inl (by simp [Option.filter, hany])
  | true =>
      obtain ⟨row, hrow, hid⟩ := List.any_eq_true.mp hany
      obtain ⟨hmem, hexpired⟩ := List.mem_filter.mp hrow
      have hget : t.jobs.get? e.jobId = some row :=
        Table.get?_eq_some_iff.mpr ⟨hmem, of_decide_eq_true hid⟩
      exact .inr ⟨by simp [Option.filter, hany], ⟨row, hget⟩, by simp [hget, Option.filter, hexpired]⟩

/-- **What a claim takes** is a row that is still to be tried, and it becomes the worker's. -/
theorem claimWebhook_cases {worker : WorkerId} {now lease : Time} {locked : List EventId}
    {pick : Option EventId} {t t' : Tables} {o : Option OutboxRow}
    (h : Jobs.claimWebhook worker now lease locked pick t = some (t', o)) :
    (pick = none ∧ o = none ∧ t'.webhookOutbox = t.webhookOutbox) ∨
    ∃ e, pick = some e.id ∧ t.webhookOutbox.get? e.id = some e ∧ e.nextAttemptAt ≠ none ∧
      o = some (e.claim worker (now + lease)) ∧
      ∀ k, t'.webhookOutbox.get? k =
        if e.id = k then some (e.claim worker (now + lease)) else t.webhookOutbox.get? k := by
  unfold Jobs.claimWebhook at h
  split at h
  · rename_i hpick
    obtain ⟨rfl, rfl⟩ := Prod.mk.inj (Option.some.inj h)
    cases pick with
    | none => exact .inl ⟨rfl, rfl, Table.ext (by simp [Table.update])⟩
    | some id =>
        obtain ⟨e, he, hmin⟩ := List.any_eq_true.mp hpick
        obtain ⟨hmem, hfree⟩ := List.mem_filter.mp he
        simp only [Bool.and_eq_true, decide_eq_true_eq] at hmin hfree
        obtain rfl := hmin.1
        have hget := Table.get?_of_mem hmem
        have hdue := hfree.1
        simp only [OutboxRow.due, Bool.and_eq_true] at hdue
        have hupdate (k : EventId) : (t.webhookOutbox.update (fun e' => some e'.id = some e.id)
            (OutboxRow.claim worker (now + lease)) (OutboxRow.id_claim worker _)).get? k =
            if e.id = k then some (e.claim worker (now + lease)) else t.webhookOutbox.get? k := by
          rw [Table.get?_update]
          by_cases hk : e.id = k
          · subst hk
            simp [hget]
          · rw [if_neg hk]
            cases hrow : t.webhookOutbox.get? k with
            | none => rfl
            | some e' => simp [Table.key_of_get? hrow, Ne.symm hk]
        refine .inr ⟨e, rfl, hget, ?_, ?_, hupdate⟩
        · rintro hnone
          simp [hnone] at hdue
        · exact (hupdate e.id).trans (if_pos rfl)
  · cases h

/-- **A call with an owner** reaches the row that is the owner's, or nothing. -/
theorem owned_cases (id : EventId) (worker : WorkerId) {t : Table OutboxRow.id} {k : EventId}
    {e : OutboxRow} (he : t.get? k = some e) :
    (id = k ∧ e.leaseOwner = some worker) ∨
      (decide (e.id = id) && decide (e.leaseOwner = some worker)) = false := by
  by_cases h : id = k ∧ e.leaseOwner = some worker
  · exact .inl h
  · refine .inr (Bool.eq_false_of_not_eq_true fun hd => h ?_)
    simp only [Bool.and_eq_true, decide_eq_true_eq] at hd
    exact ⟨hd.1.symm.trans (Table.key_of_get? he), hd.2⟩

section Kinds

variable {x : Entry Outbox (OutboxEvent P) (Reply P)} {k : EventId}

/-- A step that inserts the events of a terminal transition. -/
theorem fate_inserted {v : Verdict} {c : Call P} (hevent : x.event = .other c)
    (hrows : x.after.db.tables.webhookOutbox.rows =
      v.events ++ x.before.db.tables.webhookOutbox.rows) :
    Fate settings k x (x.before.event? k) (x.after.event? k) := by
  have hclaims : claims k x = none := by simp [claims, hevent]
  cases hbefore : x.before.event? k with
  | some e =>
      obtain ⟨hmem, hid⟩ := Table.get?_eq_some_iff.mp hbefore
      have hafter : x.after.event? k = some e :=
        Table.get?_eq_some_iff.mpr ⟨hrows ▸ List.mem_append_right _ hmem, hid⟩
      rw [hafter]
      exact .same _ hclaims
  | none =>
      cases hafter : x.after.event? k with
      | none => exact .same _ hclaims
      | some e =>
          obtain ⟨hmem, hid⟩ := Table.get?_eq_some_iff.mp hafter
          rcases List.mem_append.mp (hrows ▸ hmem) with hmem | hmem
          · obtain ⟨url, -, rfl⟩ : ∃ url, v.webhookUrl = some url ∧ v.event url = e := by
              simpa [Verdict.events] using hmem
            exact .inserted _ c hevent rfl rfl (by simp [Verdict.event])
          · have hsome := Table.get?_eq_some_iff.mpr ⟨hmem, hid⟩
            exact absurd (hbefore.symm.trans hsome) (by simp)

/-- A report of success. -/
theorem fate_delivered {worker : WorkerId} {now : Time} {event : OutboxRow} {db : Db} {r : Reply P}
    (hevent : x.event = .report worker now) (hdb : x.after.db = db)
    (hphase : x.before.phase worker = .reporting event .delivered)
    (hstep : (Call.markWebhookDelivered event.id worker).step x.before.db = some (db, r)) :
    Fate settings k x (x.before.event? k) (x.after.event? k) := by
  have hclaims : claims k x = none := by simp [claims, hevent]
  obtain ⟨rfl, rfl⟩ := Prod.mk.inj (Option.some.inj hstep)
  cases hbefore : x.before.event? k with
  | none =>
      have hafter : x.after.event? k = none := by
        rw [Outbox.event?, hdb, Jobs.markWebhookDelivered, Table.get?_delete, ← Outbox.event?, hbefore]
        rfl
      rw [hafter]
      exact .same _ hclaims
  | some e =>
      have hafter : x.after.event? k = (some e).filter fun e =>
          !(decide (e.id = event.id) && decide (e.leaseOwner = some worker)) := by
        rw [Outbox.event?, hdb, Jobs.markWebhookDelivered, Table.get?_delete, ← Outbox.event?, hbefore]
      rw [hafter]
      rcases owned_cases event.id worker hbefore with ⟨hid, howner⟩ | hnot
      · have hkey := Table.key_of_get? hbefore
        rw [Option.filter_some_neg (by simp [hkey, hid, howner])]
        exact .delivered e worker now event hevent hid hphase howner
      · rw [Option.filter_some_pos (by simp [hnot])]
        exact .same _ hclaims

/-- A report of failure. -/
theorem fate_rescheduled {worker : WorkerId} {now delayS : Time} {event : OutboxRow}
    {delivery : Delivery} {error : String} {maxAttempts : ℕ} {db : Db} {r : Reply P}
    (hevent : x.event = .report worker now) (hdb : x.after.db = db)
    (hphase : x.before.phase worker = .reporting event delivery)
    (hcall : (delivery.call settings worker now event : Call P) =
      .rescheduleWebhook event.id worker error delayS now maxAttempts)
    (hstep : (Call.rescheduleWebhook event.id worker error delayS now maxAttempts).step
      x.before.db = some (db, r)) :
    Fate settings k x (x.before.event? k) (x.after.event? k) := by
  have hclaims : claims k x = none := by simp [claims, hevent]
  obtain ⟨rfl, rfl⟩ := Prod.mk.inj (Option.some.inj hstep)
  have hafter : x.after.event? k = (x.before.event? k).map fun e =>
      if decide (e.id = event.id) && decide (e.leaseOwner = some worker) then
        e.reschedule error delayS now maxAttempts
      else e := by
    rw [Outbox.event?, hdb]
    exact Table.get?_update _ _ _ (OutboxRow.id_reschedule error delayS now maxAttempts) k
  cases hbefore : x.before.event? k with
  | none =>
      rw [hafter, hbefore]
      exact .same _ hclaims
  | some e =>
      rw [hafter, hbefore, Option.map_some]
      rcases owned_cases event.id worker hbefore with ⟨hid, howner⟩ | hnot
      · have hkey := Table.key_of_get? hbefore
        rw [if_pos (by simp [hkey, hid, howner])]
        exact .rescheduled e worker now event delivery error delayS maxAttempts hevent hid hphase
          (hid ▸ hcall) howner
      · rw [if_neg (by simp [hnot])]
        exact .same _ hclaims

end Kinds

/-- **What one step does to one row.** -/
theorem outbox_fate {x : Entry Outbox (OutboxEvent P) (Reply P)}
    (h : x.event.step settings x.before = some (x.after, x.reply)) (k : EventId) :
    Fate settings k x (x.before.event? k) (x.after.event? k) := by
  obtain ⟨before, event, reply, after⟩ := x
  dsimp only at h ⊢
  have hsame (hclaims : claims k ⟨before, event, reply, after⟩ = none)
      (heq : after.db.tables.webhookOutbox = before.db.tables.webhookOutbox) :
      Fate settings k ⟨before, event, reply, after⟩ (before.event? k) (after.event? k) := by
    rw [Outbox.event?, Outbox.event?, heq]
    exact .same _ hclaims
  cases event with
  | other c =>
      rw [OutboxEvent.step] at h
      split at h
      · cases h
      · rename_i hc
        obtain ⟨⟨db, r⟩, hstep, heq⟩ := Option.map_eq_some_iff.mp h
        obtain ⟨rfl, rfl⟩ := Prod.mk.inj heq
        rcases outbox_of_other (by simpa using hc) hstep with hout | ⟨v, hrows⟩ |
          ⟨cutoff, rfl, htables⟩
        · exact hsame rfl hout
        · exact fate_inserted rfl hrows
        · simp only [Outbox.event?]
          cases he : before.db.tables.webhookOutbox.get? k with
          | none =>
              rw [htables, Jobs.purgeOlderThan, Table.get?_delete, he]
              exact .same none rfl
          | some e =>
              rw [htables]
              rcases event_purged cutoff he with hkept | ⟨hgone, hjob, hjobGone⟩
              · rw [hkept]
                exact .same _ rfl
              · rw [hgone]
                exact .purged e cutoff rfl hjob (by rwa [htables])
  | claim worker now locked pick =>
      rw [OutboxEvent.step] at h
      split at h
      · obtain ⟨⟨db, r⟩, hstep, heq⟩ := Option.map_eq_some_iff.mp h
        obtain ⟨rfl, rfl⟩ := Prod.mk.inj heq
        obtain ⟨⟨t, o⟩, hclaim, heq⟩ := Option.map_eq_some_iff.mp hstep
        obtain ⟨rfl, rfl⟩ := Prod.mk.inj heq
        rcases claimWebhook_cases hclaim with ⟨-, rfl, hout⟩ | ⟨e, -, he, hnext, rfl, hget⟩
        · exact hsame rfl hout
        · rw [Outbox.event?, Outbox.event?, hget k]
          by_cases hk : e.id = k
          · subst hk
            rw [he, if_pos rfl]
            exact .claimed e worker now locked pick rfl (by simp [claims, Reply.claimed]) hnext
          · rw [if_neg hk]
            exact .same _ (by simp [claims, Reply.claimed, hk])
      · cases h
  | post worker delivery =>
      rw [OutboxEvent.step] at h
      split at h
      · obtain ⟨rfl, rfl⟩ := Prod.mk.inj (Option.some.inj h)
        exact hsame rfl rfl
      · cases h
  | report worker now =>
      rw [OutboxEvent.step] at h
      split at h
      · rename_i e delivery hphase
        obtain ⟨⟨db, r⟩, hstep, heq⟩ := Option.map_eq_some_iff.mp h
        obtain ⟨rfl, rfl⟩ := Prod.mk.inj heq
        cases delivery with
        | delivered => exact fate_delivered rfl rfl hphase hstep
        | rejected error => exact fate_rescheduled rfl rfl hphase rfl hstep
        | failed errorSummary => exact fate_rescheduled rfl rfl hphase rfl hstep
      · cases h

/-! ### What a report comes to -/

/-- The row under `id` is the worker's. -/
def Owns (db : Db) (worker : WorkerId) (id : EventId) : Prop :=
  ∃ e, db.tables.webhookOutbox.get? id = some e ∧ e.leaseOwner = some worker

section Report

variable {db db' : Db} {r : Reply P} {worker : WorkerId} {id : EventId}

theorem owned_matched : Owns db worker id ↔ db.tables.webhookOutbox.matched
    (fun e => decide (e.id = id) && decide (e.leaseOwner = some worker)) = 1 := by
  rw [Table.matched_eq_one_iff (k := id) (by simp +contextual)]
  refine exists_congr fun e => and_congr_right fun hget => ?_
  simp [Table.key_of_get? hget]

/-- A call by somebody else selects nothing. -/
theorem not_owned (h : ¬ Owns db worker id) : ∀ e ∈ db.tables.webhookOutbox.rows,
    (decide (e.id = id) && decide (e.leaseOwner = some worker)) = false := by
  refine fun e he => Bool.eq_false_of_not_eq_true fun hd => h ?_
  simp only [Bool.and_eq_true, decide_eq_true_eq] at hd
  exact ⟨e, Table.get?_eq_some_iff.mpr ⟨he, hd.1⟩, hd.2⟩

theorem mark_of_not_owned (h : ¬ Owns db worker id)
    (hstep : (Call.markWebhookDelivered id worker).step db = some (db', r)) : db' = db := by
  obtain ⟨rfl, -⟩ := Prod.mk.inj (Option.some.inj hstep)
  have hrows : (db.tables.webhookOutbox.delete fun e =>
      decide (e.id = id) && decide (e.leaseOwner = some worker)) = db.tables.webhookOutbox :=
    Table.ext (List.filter_eq_self.mpr fun e he =>
      congrArg not (not_owned h e he))
  rw [Jobs.markWebhookDelivered, hrows]

variable {error : String} {delayS now : Time} {maxAttempts : ℕ}

/-- **A reschedule that matches no row** changes nothing, and answers as if the event were
retired. -/
theorem reschedule_of_not_owned (h : ¬ Owns db worker id)
    (hstep : (Call.rescheduleWebhook id worker error delayS now maxAttempts).step db =
      some (db', r)) : db' = db ∧ r = .hit true := by
  obtain ⟨rfl, hr⟩ := Prod.mk.inj (Option.some.inj hstep)
  have hmatched := mt owned_matched.mpr h
  have hrows : db.tables.webhookOutbox.update
      (fun e => decide (e.id = id) && decide (e.leaseOwner = some worker))
      (OutboxRow.reschedule error delayS now maxAttempts) (OutboxRow.id_reschedule error delayS now maxAttempts) =
      db.tables.webhookOutbox :=
    Table.update_of_matched_zero (Table.matched_eq_zero_iff.mpr (not_owned h))
  constructor
  · exact congrArg (fun outbox => (⟨{ db.tables with webhookOutbox := outbox }, db.drawn⟩ : Db)) hrows
  · rw [← hr]
    exact congrArg (fun o : Option OutboxRow => Reply.hit (o.bind OutboxRow.nextAttemptAt).isNone)
      (if_neg hmatched)

/-- **A reschedule by the owner** answers whether it retired the event. -/
theorem reschedule_of_owned {e : OutboxRow} (hget : db.tables.webhookOutbox.get? id = some e)
    (howner : e.leaseOwner = some worker)
    (hstep : (Call.rescheduleWebhook id worker error delayS now maxAttempts).step db =
      some (db', r)) :
    db'.tables.webhookOutbox.get? id = some (e.reschedule error delayS now maxAttempts) ∧
      r = .hit (e.reschedule error delayS now maxAttempts).nextAttemptAt.isNone := by
  obtain ⟨rfl, hr⟩ := Prod.mk.inj (Option.some.inj hstep)
  have hmatched := owned_matched.mp ⟨e, hget, howner⟩
  have hafter : (db.tables.webhookOutbox.update
      (fun e => decide (e.id = id) && decide (e.leaseOwner = some worker))
      (OutboxRow.reschedule error delayS now maxAttempts) (OutboxRow.id_reschedule error delayS now maxAttempts)).get? id =
      some (e.reschedule error delayS now maxAttempts) := by
    rw [Table.get?_update, hget, Option.map_some, if_pos (by simp [Table.key_of_get? hget, howner])]
  refine ⟨hafter, ?_⟩
  rw [← hr]
  exact congrArg (fun o : Option OutboxRow => Reply.hit (o.bind OutboxRow.nextAttemptAt).isNone)
    ((if_pos hmatched).trans hafter)

end Report

end Step

/-! ### Runs -/

section Runs

variable {settings : WebhookSettings} {h : List (Entry Outbox (OutboxEvent P) (Reply P))}
  {s : Outbox}

/-- Who made the latest claim of the event. -/
def latestClaim (k : EventId) (h : List (Entry Outbox (OutboxEvent P) (Reply P))) :
    Option WorkerId :=
  h.foldl (fun worker x => (claims k x).or worker) none

theorem latestClaim_append_one (k : EventId) (x : Entry Outbox (OutboxEvent P) (Reply P)) :
    latestClaim k (h ++ [x]) = (claims k x).or (latestClaim k h) := by
  simp [latestClaim]

/-- What holds of a row after a run. -/
structure Kept (settings : WebhookSettings) (h : List (Entry Outbox (OutboxEvent P) (Reply P)))
    (k : EventId) (e : OutboxRow) : Prop where
  owner : ∀ worker, e.leaseOwner = some worker → latestClaim k h = some worker
  left : e.nextAttemptAt ≠ none → e.attempt < settings.webhookMaxAttempts
  next : e.leaseOwner ≠ none → e.nextAttemptAt ≠ none

/-- Both ways to fail allow no more attempts than the settings. -/
theorem maxAttempts_le {delivery : Delivery} {worker : WorkerId} {now delayS : Time}
    {event : OutboxRow} {k : EventId} {error : String} {maxAttempts : ℕ}
    (hcall : (delivery.call settings worker now event : Call P) =
      .rescheduleWebhook k worker error delayS now maxAttempts) :
    maxAttempts ≤ settings.webhookMaxAttempts := by
  cases delivery <;> cases hcall
  · exact settings.webhookMaxAttempts_pos
  · exact le_rfl

/-- **The invariant** of every row. -/
theorem kept (run : (outboxMachine P settings).Run h s) :
    ∀ k e, s.event? k = some e → Kept settings h k e := by
  refine Machine.Run.invariant (M := outboxMachine P settings)
    (I := fun h s => ∀ k e, s.event? k = some e → Kept settings h k e)
    (fun k e he => by cases he) ?_ run
  intro h s event s' r _ ih hstep k e he
  have hfate := outbox_fate (x := ⟨s, event, r, s'⟩) hstep k
  dsimp only at hfate
  rw [he] at hfate
  generalize ho : s.event? k = o at hfate
  cases hfate with
  | same _ hclaims =>
      have hk := ih k e ho
      refine ⟨fun worker hw => ?_, hk.left, hk.next⟩
      rw [latestClaim_append_one, hclaims]
      exact hk.owner worker hw
  | inserted _ _ _ hattempt howner hnext =>
      exact ⟨fun worker hw => absurd (howner.symm.trans hw) (by simp),
        fun _ => hattempt ▸ settings.webhookMaxAttempts_pos, fun _ => hnext⟩
  | claimed e worker now locked pick _ hclaims hnext =>
      refine ⟨fun w hw => ?_, (ih k e ho).left, fun _ => hnext⟩
      rw [latestClaim_append_one, hclaims]
      exact hw
  | rescheduled e worker now event delivery error delayS maxAttempts _ _ _ hcall =>
      refine ⟨fun w hw => absurd hw (by simp [OutboxRow.reschedule]), fun hnext => ?_,
        fun hnone => absurd rfl hnone⟩
      simp only [OutboxRow.reschedule] at hnext ⊢
      by_cases hle : maxAttempts ≤ e.attempt + 1
      · rw [if_pos hle] at hnext
        exact absurd rfl hnext
      · exact (not_le.mp hle).trans_le (maxAttempts_le hcall)

/-- A worker comes to report by posting. -/
theorem phase_step {s' : Outbox} {event : OutboxEvent P} {r : Reply P}
    (h : event.step settings s = some (s', r)) {worker : WorkerId} {e : OutboxRow}
    {delivery : Delivery} (hphase : s'.phase worker = .reporting e delivery) :
    s.phase worker = .reporting e delivery ∨
      event = .post worker delivery ∧ s.phase worker = .posting e := by
  have hupdate {w : WorkerId} {p : Phase}
      (h : Function.update s.phase w p worker = .reporting e delivery) :
      s.phase worker = .reporting e delivery ∨ (worker = w ∧ p = .reporting e delivery) := by
    by_cases hw : worker = w
    · subst hw
      exact .inr ⟨rfl, (Function.update_self ..).symm.trans h⟩
    · exact .inl ((Function.update_of_ne hw ..).symm.trans h)
  cases event with
  | other c =>
      rw [OutboxEvent.step] at h
      split at h
      · cases h
      · obtain ⟨x, -, heq⟩ := Option.map_eq_some_iff.mp h
        obtain ⟨rfl, -⟩ := Prod.mk.inj heq
        exact .inl hphase
  | claim w now locked pick =>
      rw [OutboxEvent.step] at h
      split at h
      · obtain ⟨x, -, heq⟩ := Option.map_eq_some_iff.mp h
        obtain ⟨rfl, -⟩ := Prod.mk.inj heq
        refine (hupdate hphase).imp_right fun ⟨_, hp⟩ => ?_
        cases hclaimed : x.2.claimed <;> simp [hclaimed] at hp
      · cases h
  | post w d =>
      rw [OutboxEvent.step] at h
      split at h
      · rename_i event hposting
        obtain ⟨rfl, -⟩ := Prod.mk.inj (Option.some.inj h)
        refine (hupdate hphase).imp_right fun ⟨hw, hp⟩ => ?_
        cases hp
        exact ⟨by rw [hw], hw ▸ hposting⟩
      · cases h
  | report w now =>
      rw [OutboxEvent.step] at h
      split at h
      · obtain ⟨x, -, heq⟩ := Option.map_eq_some_iff.mp h
        obtain ⟨rfl, -⟩ := Prod.mk.inj heq
        exact (hupdate hphase).imp_right fun ⟨_, hp⟩ => by cases hp
      · cases h

/-- What a worker reports is how its post ended. -/
theorem posted (run : (outboxMachine P settings).Run h s) :
    ∀ worker event delivery, s.phase worker = .reporting event delivery →
      ∃ y ∈ h, y.event = .post worker delivery ∧ y.before.phase worker = .posting event := by
  refine Machine.Run.invariant (M := outboxMachine P settings)
    (I := fun h s => ∀ worker event delivery, s.phase worker = .reporting event delivery →
      ∃ y ∈ h, y.event = .post worker delivery ∧ y.before.phase worker = .posting event)
    (fun _ _ _ hphase => by cases hphase) ?_ run
  intro h s e s' r _ ih hstep worker event delivery hphase
  have hold (hphase : s.phase worker = .reporting event delivery) :
      ∃ y ∈ h ++ [⟨s, e, r, s'⟩], y.event = .post worker delivery ∧
        y.before.phase worker = .posting event := by
    obtain ⟨y, hy, hpost⟩ := ih worker event delivery hphase
    exact ⟨y, List.mem_append_left _ hy, hpost⟩
  rcases phase_step hstep hphase with hphase | ⟨rfl, hposting⟩
  · exact hold hphase
  · exact ⟨_, List.mem_append_right _ List.mem_cons_self, rfl, hposting⟩

/-! ### The law -/

/-- The worker reports how its delivery of the event ended. -/
def Reports (x : Entry Outbox (OutboxEvent P) (Reply P)) (worker : WorkerId) (event : OutboxRow)
    (delivery : Delivery) : Prop :=
  ∃ now, x.event = .report worker now ∧ x.before.phase worker = .reporting event delivery

/-- The owner of the row reports a failed delivery. -/
def OwnerFails (x : Entry Outbox (OutboxEvent P) (Reply P)) (k : EventId) (e : OutboxRow) : Prop :=
  ∃ worker event delivery, Reports x worker event delivery ∧ event.id = k ∧
    delivery ≠ .delivered ∧ e.leaseOwner = some worker

/-- The step takes the event off the schedule for good. -/
def Retires (x : Entry Outbox (OutboxEvent P) (Reply P)) (k : EventId) : Prop :=
  ∃ e e', x.before.event? k = some e ∧ x.after.event? k = some e' ∧ e.nextAttemptAt ≠ none ∧
    e'.nextAttemptAt = none

/-- What holds of a step after a run. -/
structure OutboxLaw (settings : WebhookSettings)
    (h : List (Entry Outbox (OutboxEvent P) (Reply P)))
    (x : Entry Outbox (OutboxEvent P) (Reply P)) : Prop where
  only_owner : ∀ worker event delivery, Reports x worker event delivery →
    latestClaim event.id h ≠ some worker → x.after.db = x.before.db
  own_row : ∀ worker event delivery, Reports x worker event delivery →
    ∀ k, k ≠ event.id → x.after.event? k = x.before.event? k
  leaves : ∀ k e, x.before.event? k = some e → x.after.event? k = none →
    (∃ worker event, Reports x worker event .delivered ∧ event.id = k ∧
      e.leaseOwner = some worker ∧ latestClaim k h = some worker ∧
      ∃ y ∈ h, y.event = .post worker .delivered ∧ y.before.phase worker = .posting event) ∨
    ∃ cutoff, x.event = .other (.purgeOlderThan cutoff) ∧
      (∃ row, x.before.db.tables.jobs.get? e.jobId = some row) ∧
      x.after.db.tables.jobs.get? e.jobId = none
  starts : ∀ k e, x.before.event? k = none → x.after.event? k = some e → e.attempt = 0
  attempts : ∀ k e e', x.before.event? k = some e → x.after.event? k = some e' →
    (OwnerFails x k e ∧ e'.attempt = e.attempt + 1) ∨ (¬ OwnerFails x k e ∧ e'.attempt = e.attempt)
  exhausted : ∀ k e, x.before.event? k = some e → settings.webhookMaxAttempts ≤ e.attempt →
    claims k x = none
  returns : ∀ worker event delivery, Reports x worker event delivery → delivery ≠ .delivered →
    ((x.reply = .hit true ↔ Retires x event.id) ↔ Owns x.before.db worker event.id)

section Law

variable {x : Entry Outbox (OutboxEvent P) (Reply P)}

/-- The call a report makes. -/
theorem report_call (hstep : x.event.step settings x.before = some (x.after, x.reply))
    {worker : WorkerId} {event : OutboxRow} {delivery : Delivery}
    (hreport : Reports x worker event delivery) :
    ∃ now, (delivery.call settings worker now event).step x.before.db =
      some (x.after.db, x.reply) := by
  obtain ⟨now, hevent, hphase⟩ := hreport
  rw [hevent, OutboxEvent.step, hphase] at hstep
  obtain ⟨⟨db, r⟩, hcall, heq⟩ := Option.map_eq_some_iff.mp hstep
  obtain ⟨hafter, rfl⟩ := Prod.mk.inj heq
  exact ⟨now, hafter ▸ hcall⟩

/-- A report by somebody else changes nothing. -/
theorem report_of_not_owned (hstep : x.event.step settings x.before = some (x.after, x.reply))
    {worker : WorkerId} {event : OutboxRow} {delivery : Delivery}
    (hreport : Reports x worker event delivery) (hnot : ¬ Owns x.before.db worker event.id) :
    x.after.db = x.before.db ∧ (delivery ≠ .delivered → x.reply = .hit true) := by
  obtain ⟨now, hcall⟩ := report_call hstep hreport
  cases delivery with
  | delivered => exact ⟨mark_of_not_owned hnot hcall, fun hne => absurd rfl hne⟩
  | rejected error => exact (reschedule_of_not_owned hnot hcall).imp_right fun h _ => h
  | failed errorSummary => exact (reschedule_of_not_owned hnot hcall).imp_right fun h _ => h

/-- A report of failure by the owner counts, and answers whether it retired the event. -/
theorem report_of_owned (hstep : x.event.step settings x.before = some (x.after, x.reply))
    {worker : WorkerId} {event e : OutboxRow} {delivery : Delivery}
    (hreport : Reports x worker event delivery) (hfailed : delivery ≠ .delivered)
    (he : x.before.event? event.id = some e) (howner : e.leaseOwner = some worker) :
    ∃ e', x.after.event? event.id = some e' ∧ e'.attempt = e.attempt + 1 ∧
      x.reply = .hit e'.nextAttemptAt.isNone := by
  obtain ⟨now, hcall⟩ := report_call hstep hreport
  cases delivery with
  | delivered => exact absurd rfl hfailed
  | rejected error =>
      obtain ⟨hafter, hreply⟩ := reschedule_of_owned he howner hcall
      exact ⟨_, hafter, rfl, hreply⟩
  | failed errorSummary =>
      obtain ⟨hafter, hreply⟩ := reschedule_of_owned he howner hcall
      exact ⟨_, hafter, rfl, hreply⟩

/-- A worker reports one thing at a time. -/
theorem Reports.unique {worker worker' : WorkerId} {event event' : OutboxRow}
    {delivery delivery' : Delivery} (h : Reports x worker event delivery)
    (h' : Reports x worker' event' delivery') :
    worker = worker' ∧ event = event' ∧ delivery = delivery' := by
  obtain ⟨now, hevent, hphase⟩ := h
  obtain ⟨now', hevent', hphase'⟩ := h'
  obtain ⟨rfl, -⟩ := OutboxEvent.report.inj (hevent.symm.trans hevent')
  obtain ⟨rfl, rfl⟩ := Phase.reporting.inj (hphase.symm.trans hphase')
  exact ⟨rfl, rfl, rfl⟩

/-- A report reaches no other row. -/
theorem event?_of_report (hstep : x.event.step settings x.before = some (x.after, x.reply))
    {worker : WorkerId} {event : OutboxRow} {delivery : Delivery}
    (hreport : Reports x worker event delivery) {k : EventId} (hk : k ≠ event.id) :
    x.after.event? k = x.before.event? k := by
  obtain ⟨now, hevent, -⟩ := id hreport
  -- whatever the fate says is reported is this report's
  have hne {w' now' event' delivery'} (h₁ : x.event = .report w' now')
      (h₂ : x.before.phase w' = .reporting event' delivery') : event'.id ≠ k := by
    obtain ⟨-, rfl, -⟩ := hreport.unique ⟨now', h₁, h₂⟩
    exact hk.symm
  have hfate := outbox_fate hstep k
  generalize x.before.event? k = o at hfate ⊢
  generalize x.after.event? k = o' at hfate ⊢
  cases hfate with
  | same => rfl
  | inserted e c h => rw [hevent] at h; cases h
  | purged e cutoff h => rw [hevent] at h; cases h
  | claimed e w now locked pick h => rw [hevent] at h; cases h
  | delivered e w now event' h hid hphase => exact absurd hid (hne h hphase)
  | rescheduled e w now event' d er dl m h hid hphase => exact absurd hid (hne h hphase)

/-- **The count of a row** goes up by one where its owner reports a failure, and else stays. -/
theorem attempt_step (hstep : x.event.step settings x.before = some (x.after, x.reply))
    {k : EventId} {e e' : OutboxRow} (hbefore : x.before.event? k = some e)
    (hafter : x.after.event? k = some e') :
    (OwnerFails x k e ∧ e'.attempt = e.attempt + 1) ∨
      (¬ OwnerFails x k e ∧ e'.attempt = e.attempt) := by
  by_cases hfails : OwnerFails x k e
  · obtain ⟨worker, event, delivery, hreport, rfl, hfailed, howner⟩ := id hfails
    obtain ⟨e'', hafter', hattempt, -⟩ := report_of_owned hstep hreport hfailed hbefore howner
    obtain rfl := Option.some.inj (hafter.symm.trans hafter')
    exact .inl ⟨hfails, hattempt⟩
  · refine .inr ⟨hfails, ?_⟩
    have hfate := outbox_fate hstep k
    rw [hbefore, hafter] at hfate
    cases hfate with
    | same => rfl
    | claimed => rfl
    | rescheduled _ worker now event delivery error delayS maxAttempts hevent hid hphase hcall
        howner =>
        -- a reschedule by the owner is a failure it reports
        refine absurd ⟨worker, event, delivery, ⟨now, hevent, hphase⟩, hid, ?_, howner⟩ hfails
        rintro rfl
        cases hcall

/-- A row off the schedule is claimed by nobody. -/
theorem claims_of_retired (hstep : x.event.step settings x.before = some (x.after, x.reply))
    {k : EventId} {e : OutboxRow} (hbefore : x.before.event? k = some e)
    (hnone : e.nextAttemptAt = none) : claims k x = none := by
  have hfate := outbox_fate hstep k
  rw [hbefore] at hfate
  generalize x.after.event? k = o' at hfate
  cases hfate with
  | same _ hclaims => exact hclaims
  | purged _ cutoff hevent => simp [claims, hevent]
  | claimed _ worker now locked pick _ _ hnext => exact absurd hnone hnext
  | delivered _ worker now event hevent => simp [claims, hevent]
  | rescheduled _ worker now event _ _ _ _ hevent => simp [claims, hevent]

/-- **Whether the answer is true**: it tells whether the event was retired exactly when the worker
owns the row. -/
theorem answer_iff (hstep : x.event.step settings x.before = some (x.after, x.reply))
    {worker : WorkerId} {event : OutboxRow} {delivery : Delivery}
    (hreport : Reports x worker event delivery) (hfailed : delivery ≠ .delivered)
    (hleased : ∀ e, x.before.event? event.id = some e → e.leaseOwner ≠ none →
      e.nextAttemptAt ≠ none) :
    (x.reply = .hit true ↔ Retires x event.id) ↔ Owns x.before.db worker event.id := by
  constructor
  · -- somebody else's report is answered with `true` and retires nothing
    intro hreply
    by_contra hnot
    obtain ⟨hdb, hhit⟩ := report_of_not_owned hstep hreport hnot
    obtain ⟨e, e', hbefore, hafter, hnext, hnext'⟩ := hreply.mp (hhit hfailed)
    rw [Outbox.event?, hdb] at hafter
    obtain rfl : e = e' := Option.some.inj (hbefore.symm.trans hafter)
    exact hnext hnext'
  · rintro ⟨e, hbefore, howner⟩
    obtain ⟨e', hafter, -, hreply⟩ := report_of_owned hstep hreport hfailed hbefore howner
    have hnext := hleased e hbefore (by simp [howner])
    rw [hreply]
    constructor
    · intro hhit
      exact ⟨e, e', hbefore, hafter, hnext, Option.isNone_iff_eq_none.mp (Reply.hit.inj hhit)⟩
    · rintro ⟨_, _, -, hafter', -, hnext'⟩
      obtain rfl := Option.some.inj (hafter.symm.trans hafter')
      rw [hnext']
      rfl

end Law

/-- **The outbox, in every run**: only the owner's report counts, an event leaves only when its
owner has delivered it or its job is purged, `attempt` counts the owners' failures, and a retired
event is not claimed.  `reschedule_webhook` says truly whether it retired the event exactly when the
worker still owns it. -/
theorem webhook_outbox (run : (outboxMachine P settings).Run h s)
    {h₁ h₂ : List (Entry Outbox (OutboxEvent P) (Reply P))}
    {x : Entry Outbox (OutboxEvent P) (Reply P)} (hh : h = h₁ ++ x :: h₂) :
    OutboxLaw settings h₁ x := by
  subst hh
  obtain ⟨run₁, hstep, -⟩ := run.split
  have hkept := kept run₁
  constructor
  case only_owner =>
    intro worker event delivery hreport hclaim
    refine (report_of_not_owned hstep hreport fun ⟨e, he, howner⟩ => hclaim ?_).1
    exact (hkept event.id e he).owner worker howner
  case own_row =>
    intro worker event delivery hreport k hk
    exact event?_of_report hstep hreport hk
  case leaves =>
    intro k e hbefore hafter
    have hfate := outbox_fate hstep k
    rw [hbefore, hafter] at hfate
    cases hfate with
    | purged _ cutoff hevent hjob hgone => exact .inr ⟨cutoff, hevent, hjob, hgone⟩
    | delivered _ worker now event hevent hid hphase howner =>
        exact .inl ⟨worker, event, ⟨now, hevent, hphase⟩, hid, howner,
          (hkept k e hbefore).owner worker howner, posted run₁ worker event .delivered hphase⟩
  case starts =>
    intro k e hbefore hafter
    have hfate := outbox_fate hstep k
    rw [hbefore, hafter] at hfate
    cases hfate with
    | inserted _ _ _ hattempt => exact hattempt
  case attempts =>
    intro k e e' hbefore hafter
    exact attempt_step hstep hbefore hafter
  case exhausted =>
    intro k e hbefore hle
    refine claims_of_retired hstep hbefore ?_
    by_contra hnext
    exact absurd ((hkept k e hbefore).left hnext) (not_lt.mpr hle)
  case returns =>
    intro worker event delivery hreport hfailed
    exact answer_iff hstep hreport hfailed fun e hbefore => (hkept event.id e hbefore).next

end Runs

/-- A worker reports a failure, and the row is no longer its own. -/
def lapsed (x : Entry Outbox (OutboxEvent P) (Reply P)) : Bool :=
  match x.event with
  | .report worker _ =>
    match x.before.phase worker with
    | .reporting event (.failed _) =>
      (x.before.event? event.id).all fun e => e.leaseOwner ≠ some worker
    | _ => false
  | _ => false

theorem reports_of_lapsed {x : Entry Outbox (OutboxEvent P) (Reply P)} (h : lapsed x = true) :
    ∃ worker event delivery, Reports x worker event delivery ∧ delivery ≠ .delivered ∧
      ¬ Owns x.before.db worker event.id := by
  unfold lapsed at h
  split at h
  · rename_i worker now hevent
    split at h
    · rename_i event errorSummary hphase
      refine ⟨worker, event, _, ⟨now, hevent, hphase⟩, Delivery.noConfusion, ?_⟩
      rintro ⟨e, he, howner⟩
      rw [Outbox.event?, he] at h
      simp [howner] at h
    · cases h
  · cases h

end Machine

/-- One worker's lease lapses while it posts, and another claims the event. -/
def lapsedEvents : List (OutboxEvent .strict) :=
  finishedCalls.map .other ++
    [.claim "first" 10 [] (some "event"), .claim "second" 100 [] (some "event"),
      .post "first" (.failed "ReadTimeout"), .report "first" 110]

def webhookSettings : WebhookSettings where
  jobLeaseS := 60
  webhookMaxAttempts := 8
  webhookMaxAttempts_pos := by decide

theorem webhook_outbox_lapsed :
    ∃ h x, OutboxLaw (P := .strict) webhookSettings h x ∧ lapsed x = true := by
  obtain ⟨h, s, run, hany⟩ := Machine.Run.of_exec (outboxMachine .strict webhookSettings)
    lapsedEvents (fun h _ => h.any lapsed) (by decide +kernel)
  obtain ⟨x, hx, hlapsed⟩ := List.any_eq_true.mp hany
  obtain ⟨h₁, h₂, hh⟩ := List.append_of_mem hx
  exact ⟨h₁, x, webhook_outbox run hh, hlapsed⟩

/-- The first worker's call retires nothing, and returns `True`. -/
theorem lapsed_reschedule : ¬ ∀ h s, (outboxMachine .strict webhookSettings).Run h s →
    ∀ x ∈ h, ∀ worker event delivery, Reports x worker event delivery → delivery ≠ .delivered →
      (x.reply = .hit true ↔ Retires x event.id) := by
  intro hall
  obtain ⟨h, s, run, hany⟩ := Machine.Run.of_exec (outboxMachine .strict webhookSettings)
    lapsedEvents (fun h _ => h.any lapsed) (by decide +kernel)
  obtain ⟨x, hx, hlapsed⟩ := List.any_eq_true.mp hany
  obtain ⟨worker, event, delivery, hreport, hfailed, hnot⟩ := reports_of_lapsed hlapsed
  obtain ⟨hdb, hhit⟩ := report_of_not_owned (run.step_of_mem hx) hreport hnot
  obtain ⟨e, e', hbefore, hafter, hnext, hnext'⟩ :=
    (hall h s run x hx worker event delivery hreport hfailed).mp (hhit hfailed)
  rw [Outbox.event?, hdb] at hafter
  obtain rfl := Option.some.inj (hbefore.symm.trans hafter)
  exact hnext hnext'

end Vemsa.Jobs
