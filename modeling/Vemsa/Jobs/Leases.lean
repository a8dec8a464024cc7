import Vemsa.Jobs.Lifecycle

/-!
# Jobs — Leases

The lease of one job, in time.  `_process_job` begins with a renewal, and `_heartbeat_lease` goes on
from the control thread: it sleeps for `lease_heartbeat_s`, renews, and ends once a renewal is refused.

All processes read one clock and have one configuration.  A renewal may be late: it is committed at
most `slack` after the sleep before it is over, and at most `slack` after it has read the clock.

* `heartbeat_keeps`: the lease does not lapse, so nobody claims the job while the worker is at work on
  it, and every renewal of the heartbeat goes through.
-/

namespace Vemsa.Jobs
open Vemsa.Support

/-! ### The heartbeat -/

/-- The settings of the lease, as they are validated, and how late a renewal may be. -/
structure LeaseSettings where
  jobLeaseS : Time
  leaseHeartbeatS : Time
  slack : Time
  lease_gt : leaseHeartbeatS * 2 < jobLeaseS
  heartbeat_pos : 0 < leaseHeartbeatS
  slack_nonneg : 0 ≤ slack
  slack_le : slack * 2 ≤ leaseHeartbeatS

/-- Where the task of the job is. -/
inductive BeatPc where
  | off
  /-- `renew_lease` at the start of `_process_job`, which read the clock then -/
  | starting (now : Time)
  /-- `asyncio.sleep`, up to then -/
  | sleeping (due : Time)
  /-- `renew_lease` of `_heartbeat_lease`, due and begun then -/
  | renewing (due now : Time)
  | ended

/-- When the renewal of the heartbeat is due. -/
def BeatPc.due : BeatPc → Option Time
  | sleeping due | renewing due _ => some due
  | _ => none

/-- What the renewal under way read off the clock. -/
def BeatPc.reading : BeatPc → Option Time
  | starting now | renewing _ now => some now
  | _ => none

/-- When a renewal is late. -/
def BeatPc.deadline (st : LeaseSettings) : BeatPc → Option Time
  | starting now => some (now + st.slack)
  | sleeping due | renewing due _ => some (due + st.slack)
  | _ => none

def BeatPc.isStarting : BeatPc → Bool
  | starting _ => true
  | _ => false

structure Leased where
  db : Db
  clock : Time
  beat : BeatPc
  /-- the worker has handed the job back since, or it was settled -/
  letGo : Bool

section Machine

variable {P : Pydantic}

/-- The call reads the one clock, not too long ago if it renews a lease. -/
def Call.timely (st : LeaseSettings) (clock : Time) : Call P → Bool
  | claimNextQueued _ now .. => now ≤ clock
  | renewLease _ _ leaseForS now _ => leaseForS = st.jobLeaseS && clock ≤ now + st.slack
  | _ => true

/-- The call settled the job, or handed it back. -/
def Call.letsGo (c : Call P) (r : Reply P) (j : JobId) : Bool :=
  (c.settles r j).isSome ||
    match c with
    | releaseForRetry jobId .. => jobId = j && r.positive
    | _ => false

variable (P) in
inductive LeaseEvent where
  /-- time passes, and makes no renewal late -/
  | tick (now : Time)
  /-- a call of any process -/
  | call (c : Call P)
  | begin
  /-- the renewal is committed -/
  | renew (now' : Time)
  /-- the sleep is over -/
  | wake
  /-- `renewal.cancel()`, or a call that raised -/
  | stop

namespace Leased

variable (st : LeaseSettings) (w : WorkerId) (j : JobId)

/-- One step, with what the store replied. -/
def step (s : Leased) : LeaseEvent P → Option (Leased × Option (Reply P))
  | .tick now =>
    if s.clock ≤ now ∧ (s.beat.deadline st).all (now ≤ ·) = true then
      some ({ s with clock := now }, none)
    else none
  | .call c =>
    if c.timely st s.clock then
      (c.step s.db).map fun (db, r) => ({ s with db, letGo := s.letGo || c.letsGo r j }, some r)
    else none
  | .begin =>
    match s.beat with
    | .off => some ({ s with beat := .starting s.clock }, none)
    | _ => none
  | .renew now' =>
    match s.beat.reading with
    | none => none
    | some now =>
      ((Call.renewLease j w st.jobLeaseS now now').step s.db).map fun (db, r) =>
        ({ s with
            db
            beat := if r.positive then .sleeping (s.clock + st.leaseHeartbeatS) else .ended
            letGo := s.letGo && !s.beat.isStarting }, some r)
  | .wake =>
    match s.beat with
    | .sleeping due =>
      if due ≤ s.clock then some ({ s with beat := .renewing due s.clock }, none) else none
    | _ => none
  | .stop => some ({ s with beat := .ended }, none)

end Leased

variable (P) in
/-- A task of the worker on the job, among all callers of the store. -/
def leaseMachine (st : LeaseSettings) (w : WorkerId) (j : JobId) :
    Machine Leased (LeaseEvent P) (Option (Reply P)) where
  init := ⟨⟨.empty, []⟩, 0, .off, false⟩
  step := Leased.step st w j

end Machine

/-! ### One call -/

section Calls

variable {P : Pydantic} {c : Call P} {db db' : Db} {r : Reply P} {st : LeaseSettings} {w : WorkerId}
  {j : JobId} {row : Row} {clock : Time}

/-- The row is the worker's, with a lease up to then. -/
structure Row.LeasedTo (j : JobId) (w : WorkerId) (until_ : Time) (row : Row) : Prop where
  held : row.heldBy j (some w) = true
  lease : row.leaseExpiresAt = some until_

theorem Row.LeasedTo.running {until_ : Time} (h : row.LeasedTo j w until_) : row.status = .running := by
  have hheld := h.held
  simp only [Row.heldBy, Bool.and_eq_true, decide_eq_true_eq] at hheld
  exact hheld.1.2

/-- A lease that has not lapsed cannot be claimed. -/
theorem Row.LeasedTo.not_claimable {until_ now : Time} {excludeIds : List JobId}
    (h : row.LeasedTo j w until_) (hnow : now ≤ until_) : row.claimable now excludeIds = false := by
  have hlapsed : ¬ until_ < now := not_lt.mpr hnow
  simp [Row.claimable, h.running, h.lease, hlapsed]

theorem settles_eq_none_of_letsGo (h : c.letsGo r j = false) : c.settles r j = none := by
  unfold Call.letsGo at h
  exact Option.isSome_eq_false_iff.mp (Bool.or_eq_false_iff.mp h).1 |> Option.isNone_iff_eq_none.mp

/-- What does not let the job go does not select its row, unless it records the audio, the stage or a
new lease. -/
theorem hit_eq_false (h : c.step db = some (db', r)) (hrow : db.tables.jobs.get? j = some row)
    {until_ : Time} (hlease : row.LeasedTo j w until_) (htimely : c.timely st clock = true)
    (hclock : clock ≤ until_) (hgo : c.letsGo r j = false) :
    c.hit row = false ∨ (∃ audioPath now, c = .setAudioPath j audioPath now) ∨
      (∃ stage worker now, c = .setStage j stage worker now) ∨
      ∃ worker now now', c = .renewLease j worker st.jobLeaseS now now' ∧ clock ≤ now + st.slack := by
  have hid : row.id = j := Table.key_of_get? hrow
  cases hhit : c.hit row with
  | false => exact .inl rfl
  | true =>
      refine .inr ?_
      have hterminal : ∀ v, c.verdict = some v → c.key = some j → False := fun v hv hkey => by
        rcases step_keyed h hkey with ⟨-, -, hno⟩ | ⟨hpos, -⟩
        · exact Bool.false_ne_true ((hno row hrow).symm.trans hhit)
        · have hsettles := Call.settles_of_verdict hkey hv hpos
          rw [settles_eq_none_of_letsGo hgo] at hsettles
          cases hsettles
      cases c with
      | create | purgeOlderThan | purgeStatsOlderThan | claimWebhook | markWebhookDelivered
      | rescheduleWebhook => cases hhit
      | claimNextQueued worker now leaseForS excludeIds locked pick =>
          obtain rfl : some row.id = pick := of_decide_eq_true hhit
          obtain ⟨⟨t, o⟩, hclaim, -⟩ := Option.map_eq_some_iff.mp h
          rcases claim_cases hclaim with ⟨hnone, -⟩ | ⟨k, row', hk, hrow', -, hclaimable, -⟩
          · cases hnone
          · obtain rfl : row = row' :=
              Option.some.inj (hrow.symm.trans ((hid ▸ Option.some.inj hk) ▸ hrow'))
            have hnow : now ≤ clock := of_decide_eq_true htimely
            rw [hlease.not_claimable (hnow.trans hclock)] at hclaimable
            cases hclaimable
      | releaseForRetry jobId worker now retryAfterS =>
          obtain rfl : row.id = jobId := id_of_heldBy hhit
          subst hid
          rcases step_keyed h rfl with ⟨-, -, hno⟩ | ⟨hpos, -⟩
          · exact absurd ((hno row hrow).symm.trans hhit) Bool.false_ne_true
          · simp [Call.letsGo, hpos] at hgo
      | setAudioPath jobId audioPath now =>
          obtain rfl : row.id = jobId := of_decide_eq_true hhit
          exact .inl ⟨audioPath, now, hid ▸ rfl⟩
      | setStage jobId stage worker now =>
          obtain rfl : row.id = jobId := id_of_heldBy hhit
          exact .inr (.inl ⟨stage, worker, now, hid ▸ rfl⟩)
      | renewLease jobId worker leaseForS now now' =>
          obtain rfl : row.id = jobId := id_of_heldBy hhit
          simp only [Call.timely, Bool.and_eq_true, decide_eq_true_eq] at htimely
          exact .inr (.inr ⟨worker, now, now', hid ▸ htimely.1 ▸ rfl, htimely.2⟩)
      | cancel jobId =>
          exact (hterminal _ rfl (congrArg some ((id_of_cancellable hhit).symm.trans hid))).elim
      | finish jobId | fail jobId =>
          exact (hterminal _ rfl (congrArg some ((id_of_heldBy hhit).symm.trans hid))).elim

/-- **One call** leaves the lease of a job that it does not let go, or renews it; and is no claim of
the job. -/
theorem leased_call (h : c.step db = some (db', r)) (hrow : db.tables.jobs.get? j = some row)
    {until_ : Time} (hlease : row.LeasedTo j w until_) (htimely : c.timely st clock = true)
    (hclock : clock ≤ until_) (hgo : c.letsGo r j = false) :
    c.claims r j = none ∧ ∃ row' until_', db'.tables.jobs.get? j = some row' ∧
      row'.LeasedTo j w until_' ∧ (until_' = until_ ∨ clock + st.jobLeaseS ≤ until_' + st.slack) := by
  have hget : db'.tables.jobs.get? j = c.onRow row := by
    rcases get?_step h j with hget | ⟨_, _, _, _, _, _, hnone, _⟩
    · rw [hget, hrow, Option.bind_some]
    · cases hrow.symm.trans hnone
  have hid : row.id = j := Table.key_of_get? hrow
  rcases hit_eq_false h hrow hlease htimely hclock hgo with
    hmiss | ⟨audioPath, now, rfl⟩ | ⟨stage, worker, now, rfl⟩ | ⟨worker, now, now', rfl, hlate⟩
  · refine ⟨claims_of_missed h fun row' hrow' => ?_, row, until_, ?_, hlease, .inl rfl⟩
    · exact Option.some.inj (hrow.symm.trans hrow') ▸ hmiss
    · rw [hget]
      unfold Call.onRow
      split
      · -- the purge takes no running row
        refine if_neg ?_
        simp [Row.expired, hlease.running, JobStatus.isTerminal]
      · simp [hmiss]
  · refine ⟨rfl, _, until_, hget.trans (congrArg some (if_pos ?_)), ⟨hlease.held, hlease.lease⟩, .inl rfl⟩
    simp [Call.hit, hid]
  · by_cases hhit : row.heldBy j (some worker) = true
    · exact ⟨rfl, _, until_, hget.trans (congrArg some (if_pos hhit)), ⟨hlease.held, hlease.lease⟩,
        .inl rfl⟩
    · exact ⟨rfl, row, until_, hget.trans (congrArg some (if_neg hhit)), hlease, .inl rfl⟩
  · by_cases hhit : row.heldBy j (some worker) = true
    · refine ⟨rfl, _, now + st.jobLeaseS, hget.trans (congrArg some (if_pos hhit)), ⟨hlease.held, rfl⟩,
        .inr ?_⟩
      linarith
    · exact ⟨rfl, row, until_, hget.trans (congrArg some (if_neg hhit)), hlease, .inl rfl⟩

end Calls

/-! ### The run -/

section Run

variable {P : Pydantic} {st : LeaseSettings} {w : WorkerId} {j : JobId} {s s' : Leased}
  {e : LeaseEvent P} {o : Option (Reply P)}

variable (P) in
abbrev LeaseLog := List (Entry Leased (LeaseEvent P) (Option (Reply P)))

variable {h : LeaseLog P}

namespace Leased

/-- The clock stands where the heartbeat can be. -/
def OnTime (st : LeaseSettings) (s : Leased) : Prop :=
  match s.beat with
  | .starting now => now ≤ s.clock ∧ s.clock ≤ now + st.slack
  | .sleeping due => s.clock ≤ due + st.slack ∧ due ≤ s.clock + st.leaseHeartbeatS
  | .renewing due now => due ≤ now ∧ now ≤ s.clock ∧ s.clock ≤ due + st.slack
  | .off | .ended => True

/-- The worker holds the job, and the lease outlasts the renewal that is due. -/
def Holds (st : LeaseSettings) (w : WorkerId) (j : JobId) (s : Leased) (due : Time) : Prop :=
  ∃ row until_, s.db.tables.jobs.get? j = some row ∧ row.LeasedTo j w until_ ∧
    due + st.jobLeaseS ≤ until_ + st.leaseHeartbeatS + st.slack

/-- **The heartbeat is on time**, and holds the job until it is let go. -/
structure Beating (st : LeaseSettings) (w : WorkerId) (j : JobId) (s : Leased) : Prop where
  onTime : s.OnTime st
  holds : ∀ due, s.beat.due = some due → s.letGo = false → s.Holds st w j due

theorem OnTime.due {due : Time} (h : s.OnTime st) (hdue : s.beat.due = some due) :
    s.clock ≤ due + st.slack ∧ due ≤ s.clock + st.leaseHeartbeatS := by
  have hpos := st.heartbeat_pos
  unfold OnTime at h
  cases hbeat : s.beat with
  | off | starting | ended =>
      rw [hbeat] at hdue
      cases hdue
  | sleeping due' =>
      rw [hbeat] at hdue h
      obtain rfl := Option.some.inj hdue
      exact h
  | renewing due' now =>
      rw [hbeat] at hdue h
      obtain rfl := Option.some.inj hdue
      obtain ⟨hdue, hnow, hclock⟩ := h
      exact ⟨hclock, by linarith⟩

theorem OnTime.reading {now : Time} (h : s.OnTime st) (hreading : s.beat.reading = some now) :
    now ≤ s.clock ∧ s.clock ≤ now + st.slack := by
  unfold OnTime at h
  cases hbeat : s.beat with
  | off | sleeping | ended =>
      rw [hbeat] at hreading
      cases hreading
  | starting began =>
      rw [hbeat] at hreading h
      obtain rfl := Option.some.inj hreading
      exact h
  | renewing due began =>
      rw [hbeat] at hreading h
      obtain rfl := Option.some.inj hreading
      obtain ⟨hdue, hnow, hclock⟩ := h
      exact ⟨hnow, by linarith⟩

/-- Until the next renewal the lease does not lapse. -/
theorem Holds.not_lapsed {due : Time} (h : s.Holds st w j due) (hclock : s.clock ≤ due + st.slack) :
    ∃ row until_, s.db.tables.jobs.get? j = some row ∧ row.LeasedTo j w until_ ∧
      s.clock ≤ until_ := by
  obtain ⟨row, until_, hrow, hlease, hdue⟩ := h
  refine ⟨row, until_, hrow, hlease, ?_⟩
  linarith [st.lease_gt, st.slack_le]

/-- A renewal that goes through. -/
theorem leased_renew {db db' : Db} {r : Reply P} {now now' : Time}
    (h : (Call.renewLease j w st.jobLeaseS now now').step db = some (db', r))
    (hpos : r.positive = true) :
    ∃ row, db'.tables.jobs.get? j = some row ∧ row.LeasedTo j w (now + st.jobLeaseS) := by
  rcases step_keyed h rfl with ⟨hneg, -⟩ | ⟨-, row, hrow, hhit⟩
  · exact absurd (hneg.symm.trans hpos) Bool.false_ne_true
  · rcases get?_step h j with hget | ⟨_, _, _, hnew, _⟩
    · rw [hrow, Option.bind_some] at hget
      exact ⟨_, hget.trans (congrArg some (if_pos hhit)), ⟨hhit, rfl⟩⟩
    · cases hnew

theorem Beating.tick {now : Time} (h : s.Beating st w j) (hclock : s.clock ≤ now)
    (hdeadline : (s.beat.deadline st).all (now ≤ ·) = true) :
    Beating st w j { s with clock := now } where
  onTime := by
    have honTime := h.onTime
    unfold OnTime at honTime ⊢
    cases hbeat : s.beat with
    | off | ended => trivial
    | starting began =>
        rw [hbeat] at honTime hdeadline
        exact ⟨honTime.1.trans hclock, of_decide_eq_true hdeadline⟩
    | sleeping due =>
        rw [hbeat] at honTime hdeadline
        exact ⟨of_decide_eq_true hdeadline, by linarith [honTime.2]⟩
    | renewing due began =>
        rw [hbeat] at honTime hdeadline
        exact ⟨honTime.1, honTime.2.1.trans hclock, of_decide_eq_true hdeadline⟩
  holds due hdue hgo := h.holds due hdue hgo

theorem Beating.call {c : Call P} {db : Db} {r : Reply P} (h : s.Beating st w j)
    (hstep : c.step s.db = some (db, r)) (htimely : c.timely st s.clock = true) :
    Beating st w j { s with db, letGo := s.letGo || c.letsGo r j } where
  onTime := h.onTime
  holds due hdue hgo := by
    obtain ⟨hkept, hgo⟩ := Bool.or_eq_false_iff.mp hgo
    obtain ⟨hclock, hsoon⟩ := h.onTime.due hdue
    obtain ⟨row, until_, hrow, hlease, hbound⟩ := h.holds due hdue hkept
    have hunlapsed : s.clock ≤ until_ := by linarith [st.lease_gt, st.slack_le]
    obtain ⟨-, row', until_', hrow', hlease', hsame | hrenewed⟩ :=
      leased_call hstep hrow hlease htimely hunlapsed hgo
    · exact ⟨row', until_', hrow', hlease', hsame ▸ hbound⟩
    · exact ⟨row', until_', hrow', hlease', by linarith⟩

theorem Beating.renew {now now' : Time} {db : Db} {r : Reply P} (h : s.Beating st w j)
    (hreading : s.beat.reading = some now)
    (hstep : (Call.renewLease j w st.jobLeaseS now now').step s.db = some (db, r)) :
    Beating st w j
      { s with
          db
          beat := if r.positive then .sleeping (s.clock + st.leaseHeartbeatS) else .ended
          letGo := s.letGo && !s.beat.isStarting } := by
  obtain ⟨hbegan, hlate⟩ := h.onTime.reading hreading
  cases hpos : r.positive with
  | false => exact ⟨trivial, fun due hdue => by cases hdue⟩
  | true =>
      obtain ⟨row, hrow, hlease⟩ := leased_renew hstep hpos
      refine ⟨⟨?_, le_refl _⟩, fun due hdue _ => ?_⟩
      · show s.clock ≤ s.clock + st.leaseHeartbeatS + st.slack
        linarith [st.heartbeat_pos]
      · obtain rfl : s.clock + st.leaseHeartbeatS = due := Option.some.inj hdue
        exact ⟨row, _, hrow, hlease, by linarith⟩

theorem Beating.wake {due : Time} (h : s.Beating st w j) (hbeat : s.beat = .sleeping due)
    (hdue : due ≤ s.clock) : Beating st w j { s with beat := .renewing due s.clock } where
  onTime := ⟨hdue, le_refl _, (h.onTime.due (by rw [hbeat]; rfl)).1⟩
  holds due' hdue' hgo := by
    obtain rfl : due = due' := Option.some.inj hdue'
    exact h.holds due (by rw [hbeat]; rfl) hgo

/-- **One step** of anyone. -/
theorem Beating.step (h : s.Beating st w j) (hstep : Leased.step st w j s e = some (s', o)) :
    s'.Beating st w j := by
  cases e with
  | tick now =>
      simp only [Leased.step] at hstep
      split at hstep
      case isTrue hnow =>
        cases hstep
        exact h.tick hnow.1 hnow.2
      case isFalse => cases hstep
  | call c =>
      simp only [Leased.step] at hstep
      split at hstep
      case isTrue htimely =>
        obtain ⟨⟨db, r⟩, hcall, heq⟩ := Option.map_eq_some_iff.mp hstep
        cases heq
        exact h.call hcall htimely
      case isFalse => cases hstep
  | begin =>
      simp only [Leased.step] at hstep
      split at hstep
      case h_1 =>
        cases hstep
        refine ⟨⟨le_refl _, ?_⟩, fun due hdue => by cases hdue⟩
        exact le_add_of_nonneg_right st.slack_nonneg
      case h_2 => cases hstep
  | renew now' =>
      simp only [Leased.step] at hstep
      split at hstep
      case h_1 => cases hstep
      case h_2 now hreading =>
        obtain ⟨⟨db, r⟩, hcall, heq⟩ := Option.map_eq_some_iff.mp hstep
        cases heq
        exact h.renew hreading hcall
  | wake =>
      simp only [Leased.step] at hstep
      split at hstep
      case h_1 due hbeat =>
        split at hstep
        case isTrue hdue =>
          cases hstep
          exact h.wake hbeat hdue
        case isFalse => cases hstep
      case h_2 => cases hstep
  | stop =>
      cases hstep
      exact ⟨trivial, fun due hdue => by cases hdue⟩

theorem beating (run : (leaseMachine P st w j).Run h s) : s.Beating st w j :=
  run.preserves (I := Beating st w j) (fun _ _ _ _ hs hb => hb.step hs)
    ⟨trivial, fun due hdue => by cases hdue⟩

/-- A claim lets nothing go. -/
theorem letsGo_of_claims {c : Call P} {r : Reply P} (hclaims : c.claims r j ≠ none) :
    c.letsGo r j = false := by
  cases c with
  | claimNextQueued worker now leaseForS excludeIds locked pick =>
      have hsettles : (Call.claimNextQueued (P := P) worker now leaseForS excludeIds locked
          pick).settles r j = none := Call.settles_of_no_verdict j rfl
      simp [Call.letsGo, hsettles]
  | _ => exact absurd rfl hclaims

/-- What a heartbeat brings about. -/
structure Kept (st : LeaseSettings) (w : WorkerId) (j : JobId) (h : LeaseLog P) (s : Leased) : Prop where
  /-- the worker holds the job, and the lease has not lapsed -/
  held : ∀ due, s.beat.due = some due → s.letGo = false →
    ∃ row until_, s.db.tables.jobs.get? j = some row ∧ row.LeasedTo j w until_ ∧ s.clock ≤ until_
  /-- nobody has claimed the job -/
  unclaimed : ∀ x ∈ h, ∀ c r, x.event = .call c → x.reply = some r →
    (∃ due, x.before.beat.due = some due) → x.before.letGo = false → c.claims r j = none
  /-- and every renewal has gone through -/
  renewed : ∀ x ∈ h, ∀ now' r, x.event = .renew now' → x.reply = some r →
    (∃ due, x.before.beat.due = some due) → x.before.letGo = false → r.positive = true

theorem Beating.held (h : s.Beating st w j) {due : Time} (hdue : s.beat.due = some due)
    (hgo : s.letGo = false) :
    ∃ row until_, s.db.tables.jobs.get? j = some row ∧ row.LeasedTo j w until_ ∧ s.clock ≤ until_ :=
  (h.holds due hdue hgo).not_lapsed (h.onTime.due hdue).1

/-- **The heartbeat keeps the lease**, in every run of any processes on the store: from the first
renewal on, until the worker hands the job back, or it is settled. -/
theorem heartbeat_keeps (run : (leaseMachine P st w j).Run h s) : Kept st w j h s where
  held due hdue hgo := (beating run).held hdue hgo
  unclaimed := by
    rintro x hx c r hevent hreply ⟨due, hdue⟩ hgo
    obtain ⟨h₁, h₂, rfl⟩ := List.append_of_mem hx
    obtain ⟨run₁, hstep, -⟩ := run.split
    obtain ⟨row, until_, hrow, hlease, hclock⟩ := (beating run₁).held hdue hgo
    by_contra hclaims
    change Leased.step st w j x.before x.event = _ at hstep
    rw [hevent, hreply] at hstep
    simp only [Leased.step] at hstep
    split at hstep
    case isFalse => cases hstep
    case isTrue htimely =>
      obtain ⟨⟨db, r'⟩, hcall, heq⟩ := Option.map_eq_some_iff.mp hstep
      obtain rfl : r' = r := Option.some.inj (Prod.mk.inj heq).2
      exact hclaims (leased_call hcall hrow hlease htimely hclock (letsGo_of_claims hclaims)).1
  renewed := by
    rintro x hx now' r hevent hreply ⟨due, hdue⟩ hgo
    obtain ⟨h₁, h₂, rfl⟩ := List.append_of_mem hx
    obtain ⟨run₁, hstep, -⟩ := run.split
    obtain ⟨row, until_, hrow, hlease, -⟩ := (beating run₁).held hdue hgo
    change Leased.step st w j x.before x.event = _ at hstep
    rw [hevent, hreply] at hstep
    simp only [Leased.step] at hstep
    split at hstep
    case h_1 => cases hstep
    case h_2 now _ =>
      obtain ⟨⟨db, r'⟩, hcall, heq⟩ := Option.map_eq_some_iff.mp hstep
      obtain rfl : r' = r := Option.some.inj (Prod.mk.inj heq).2
      rcases step_keyed hcall rfl with ⟨-, -, hno⟩ | ⟨hpos, -⟩
      · exact absurd ((hno row hrow).symm.trans hlease.held) Bool.false_ne_true
      · exact hpos

theorem halfMinute_gt : (30000000 : Time) * 2 < 120000000 := by decide

theorem halfMinute_pos : (0 : Time) < 30000000 := by decide

theorem halfMinute_nonneg : (0 : Time) ≤ 15000000 := by decide

theorem halfMinute_le : (15000000 : Time) * 2 ≤ 30000000 := by decide

/-- The defaults, with renewals up to half a heartbeat late. -/
def halfMinute : LeaseSettings :=
  ⟨120000000, 30000000, 15000000, halfMinute_gt, halfMinute_pos, halfMinute_nonneg, halfMinute_le⟩

/-- A job is submitted and claimed, and its lease renewed late while another worker asks for jobs. -/
def lateBeat : List (LeaseEvent .strict) :=
  [.call (.create { id := "job", clientId := "client", now := 0
                    request := .ofUrl "https://host/a.wav" } none none),
    .call (.claimNextQueued "worker" 0 120000000 [] [] (some "job")), .begin, .renew 0, .tick 45000000, .wake,
    .call (.claimNextQueued "other" 45000000 120000000 [] [] none), .renew 45000000]

theorem heartbeat_keeps_late : ∃ h s, Kept (P := .strict) halfMinute "worker" "job" h s ∧
    s.beat.due = some 75000000 ∧ s.letGo = false := by
  obtain ⟨h, s, run, hlate⟩ := Machine.Run.of_exec (leaseMachine .strict halfMinute "worker" "job")
    lateBeat (fun _ s => s.beat.due = some 75000000 ∧ s.letGo = false) (by decide +kernel)
  exact ⟨h, s, heartbeat_keeps run, of_decide_eq_true hlate⟩

end Leased

end Run

end Vemsa.Jobs
