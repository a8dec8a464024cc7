import Vemsa.Jobs.StoreMachine

/-!
# Jobs — Lifecycle

The life of a job, over every run of the store.

`Change` lists what one call can make of one job: submitted, claimed, handed back, settled by one
of the three terminal calls, touched, purged.  `change_step` says that this is all a call can do,
and every invariant below is a walk through the list.  The log of a run tells how often a job was
claimed (`claimTimes`), what settled it (`verdicts`) and which events were inserted for it
(`webhooks`); the tables agree with the log.
-/

namespace Vemsa.Jobs
open Vemsa.Support

section Changes

variable {P : Pydantic}

/-- When the call and its reply amount to a claim of `j`: the time of the claim. -/
def Call.claims (c : Call P) (r : Reply P) (j : JobId) : Option Time :=
  match c, r with
  | claimNextQueued _ now _ _ _ _, .row (some row) => if row.id = j then some now else none
  | _, _ => none

variable (P) in
/-- What a call can make of the job `j`: its row before, the claim and the terminal transition
the call amounts to, and its row after. -/
inductive Change (j : JobId) : Option Row → Option Time → Option Verdict → Option Row → Prop where
  | created (new : NewJob P) (hid : new.id = j) : Change j none none none (some new.job.row)
  | claimed (row : Row) (worker : WorkerId) (now leaseForS : Time)
      (excludeIds : List JobId) (hrow : row.claimable now excludeIds = true) :
      Change j (some row) (some now) none (some (row.claim worker now leaseForS))
  | released (row : Row) (worker : WorkerId) (now retryAfterS : Time)
      (hrow : row.heldBy j (some worker) = true) :
      Change j (some row) none none (some (row.release now retryAfterS))
  | recorded (row : Row) (audioPath : Path) (now : Time) :
      Change j (some row) none none
        (some { row with audioPath := some audioPath, updatedAt := now })
  | staged (row : Row) (stage : JobStage) (worker : WorkerId) (now : Time)
      (hrow : row.heldBy j (some worker) = true) :
      Change j (some row) none none (some { row with stage, updatedAt := now })
  | renewed (row : Row) (worker : WorkerId) (leaseExpiresAt now : Time)
      (hrow : row.heldBy j (some worker) = true) :
      Change j (some row) none none
        (some { row with leaseExpiresAt := some leaseExpiresAt, updatedAt := now })
  | cancelled (row : Row) (v : Verdict) (clientId : String) (hv : v.status = .cancelled)
      (hrow : row.cancellable j clientId = true) :
      Change j (some row) none (some v) (some (row.cancel v.now))
  | finished (row : Row) (v : Verdict) (worker : WorkerId) (result : TranscriptionResult PyFloat)
      (hv : v.status = .completed) (hrow : row.heldBy j (some worker) = true) :
      Change j (some row) none (some v) (some (row.finish result v.now))
  | failed (row : Row) (v : Verdict) (worker : WorkerId) (error : String) (kind : FailureKind)
      (hv : v.status = .failed) (hrow : row.heldBy j (some worker) = true) :
      Change j (some row) none (some v) (some (row.fail error kind v.now))
  | purged (row : Row) (cutoff : Time) (hrow : row.expired cutoff = true) :
      Change j (some row) none none none
  | kept (o : Option Row) : Change j o none none o

variable {c : Call P} {db db' : Db} {r : Reply P}

theorem mem_of_mayPick {t : Tables} {now : Time} {excludeIds locked : List JobId} {j : JobId}
    (h : mayPick t now excludeIds locked (some j) = true) :
    ∃ row, t.jobs.get? j = some row ∧ row.claimable now excludeIds = true := by
  obtain ⟨row, hrow, hp⟩ := List.any_eq_true.mp h
  obtain ⟨hmem, hc⟩ := List.mem_filter.mp hrow
  simp only [Bool.and_eq_true, decide_eq_true_eq] at hp hc
  exact ⟨row, by rw [← hp.1]; exact Table.get?_of_mem hmem, hc.1⟩

/-- **A claim** takes the row it picks, if it picks one. -/
theorem claim_cases {worker : WorkerId} {now leaseForS : Time} {excludeIds locked : List JobId}
    {pick : Option JobId} {t t' : Tables} {o : Option Row}
    (h : claimNextQueued worker now leaseForS excludeIds locked pick t = some (t', o)) :
    (pick = none ∧ o = none) ∨
    ∃ j row, pick = some j ∧ t.jobs.get? j = some row ∧ row.id = j ∧
      row.claimable now excludeIds = true ∧ o = some (row.claim worker now leaseForS) := by
  unfold claimNextQueued at h
  split at h
  · rename_i hpick
    obtain ⟨rfl, rfl⟩ := Prod.mk.inj (Option.some.inj h)
    cases pick with
    | none => exact .inl ⟨rfl, rfl⟩
    | some j =>
        obtain ⟨row, hrow, hc⟩ := mem_of_mayPick hpick
        have hid := Table.key_of_get? hrow
        refine .inr ⟨j, row, rfl, hrow, hid, hc, ?_⟩
        refine (Table.get?_update ..).trans ?_
        rw [hrow, Option.map_some, if_pos (by simp [hid])]
  · cases h

theorem Call.settles_of_verdict {v : Verdict} {j : JobId} (hk : c.key = some j)
    (hv : c.verdict = some v) (hr : r.positive = true) : c.settles r j = some v := by
  rw [Call.key_of_verdict hv, Option.some.injEq] at hk
  simp [Call.settles, hr, hv, hk]

theorem Call.settles_of_no_verdict (j : JobId) (hv : c.verdict = none) : c.settles r j = none := by
  simp [Call.settles, hv]

/-- A call whose clause does not select the row of `j` settles nothing for it. -/
theorem settles_of_missed {j : JobId} (h : c.step db = some (db', r))
    (hno : ∀ row, db.tables.jobs.get? j = some row → c.hit row = false) :
    c.settles r j = none := by
  unfold Call.settles
  split
  · rename_i hpos
    refine Option.filter_eq_none_iff.mpr fun v hv hj => ?_
    obtain rfl : v.jobId = j := by simpa using hj
    rcases step_keyed h (Call.key_of_verdict hv) with ⟨hb, -⟩ | ⟨-, row, hrow, hhit⟩
    · rw [hpos] at hb
      cases hb
    · rw [hno row hrow] at hhit
      cases hhit
  · rfl

/-- A claim that did not take the row of `j` is not a claim of `j`. -/
theorem claims_of_missed {j : JobId} (h : c.step db = some (db', r))
    (hno : ∀ row, db.tables.jobs.get? j = some row → c.hit row = false) :
    c.claims r j = none := by
  cases c with
  | claimNextQueued w now s ex locked pick =>
      obtain ⟨⟨t, o⟩, hc, heq⟩ := Option.map_eq_some_iff.mp h
      obtain ⟨rfl, rfl⟩ := Prod.mk.inj heq
      rcases claim_cases hc with ⟨-, rfl⟩ | ⟨k, row, rfl, hk, hid, -, rfl⟩
      · rfl
      · refine if_neg fun he => ?_
        obtain rfl : k = j := hid.symm.trans he
        simpa [Call.hit, hid] using hno row hk
  | _ => rfl

/-- **Everything a call can do to a job.** -/
theorem change_step (h : c.step db = some (db', r)) (j : JobId) :
    Change P j (db.tables.jobs.get? j) (c.claims r j) (c.settles r j)
      (db'.tables.jobs.get? j) := by
  rcases get?_step h j with hget | ⟨new, a, b, rfl, hid, -, hnone, hget⟩
  · rw [hget]
    cases hrow : db.tables.jobs.get? j with
    | none =>
        have hno : ∀ row, db.tables.jobs.get? j = some row → c.hit row = false := by simp [hrow]
        rw [settles_of_missed h hno, claims_of_missed h hno]
        exact .kept none
    | some row =>
        have hid : row.id = j := Table.key_of_get? hrow
        have missed : c.hit row = false → c.claims r j = none ∧ c.settles r j = none := by
          intro hhit
          have hno : ∀ row', db.tables.jobs.get? j = some row' → c.hit row' = false := by
            rintro row' hrow'
            rw [← Option.some.inj (hrow.symm.trans hrow'), hhit]
          exact ⟨claims_of_missed h hno, settles_of_missed h hno⟩
        rw [Option.bind_some]
        cases hhit : c.hit row with
        | false =>
            -- only a purge acts on rows it does not answer for
            obtain ⟨hclaim, hset⟩ := missed hhit
            rw [hclaim, hset]
            cases c with
            | purgeOlderThan cutoff =>
                cases hx : row.expired cutoff with
                | true => simpa [Call.onRow, hx] using .purged row cutoff hx
                | false => simpa [Call.onRow, hx] using .kept _
            | _ => simpa [Call.onRow, hhit] using .kept _
        | true =>
            -- a call with a key hits the row under it, and says so
            have hpos : ∀ {k}, c.key = some k → k = j ∧ r.positive = true := by
              intro k hk
              obtain rfl : k = j := (Call.id_of_hit hk hhit).symm.trans hid
              refine ⟨rfl, ?_⟩
              rcases step_keyed h hk with ⟨-, -, hno⟩ | ⟨hb, -⟩
              · rw [hno row hrow] at hhit
                cases hhit
              · exact hb
            have hon : (∀ cutoff, c ≠ .purgeOlderThan cutoff) → c.onRow row = some (c.set row) := by
              intro hne
              cases c with
              | purgeOlderThan cutoff => exact absurd rfl (hne cutoff)
              | _ => exact congrArg some (if_pos hhit)
            cases c with
            | claimNextQueued w now s ex locked pick =>
                obtain ⟨⟨t, o⟩, hc, heq⟩ := Option.map_eq_some_iff.mp h
                obtain ⟨rfl, rfl⟩ := Prod.mk.inj heq
                have hpick : some row.id = pick := of_decide_eq_true hhit
                rcases claim_cases hc with ⟨rfl, -⟩ | ⟨k, row', rfl, hk, hid', hcl, rfl⟩
                · cases hpick
                · obtain rfl : k = j := (Option.some.inj hpick).symm.trans hid
                  obtain rfl : row = row' := Option.some.inj (hrow.symm.trans hk)
                  rw [hon (by simp), Call.settles_of_no_verdict _ rfl]
                  have : (Call.claimNextQueued (P := P) w now s ex locked (some k)).claims
                      (.row (some (row.claim w now s))) k = some now := if_pos hid
                  rw [this]
                  exact .claimed row w now s ex hcl
            | releaseForRetry k w now s =>
                obtain ⟨rfl, -⟩ := hpos rfl
                rw [hon (by simp), Call.settles_of_no_verdict _ rfl]
                exact .released row w now s hhit
            | setAudioPath k path now =>
                rw [hon (by simp), Call.settles_of_no_verdict _ rfl]
                exact .recorded row path now
            | setStage k stage w now =>
                obtain ⟨rfl, -⟩ := hpos rfl
                rw [hon (by simp), Call.settles_of_no_verdict _ rfl]
                exact .staged row stage w now hhit
            | renewLease k w s now now' =>
                obtain ⟨rfl, -⟩ := hpos rfl
                rw [hon (by simp), Call.settles_of_no_verdict _ rfl]
                exact .renewed row w _ now' hhit
            | cancel k client url stamp now =>
                obtain ⟨rfl, hr⟩ := hpos rfl
                rw [hon (by simp), Call.settles_of_verdict rfl rfl hr]
                exact .cancelled row _ client rfl hhit
            | finish k result w url outcome stamp now =>
                obtain ⟨rfl, hr⟩ := hpos rfl
                rw [hon (by simp), Call.settles_of_verdict rfl rfl hr]
                exact .finished row _ w result rfl hhit
            | fail k error kind w url outcome stamp now =>
                obtain ⟨rfl, hr⟩ := hpos rfl
                rw [hon (by simp), Call.settles_of_verdict rfl rfl hr]
                exact .failed row _ w error kind rfl hhit
            | _ => cases hhit
  · rw [hnone, hget, Call.settles_of_no_verdict _ rfl]
    exact .created new hid

end Changes

/-! ### The log -/

section Log

variable {P : Pydantic}

abbrev StoreLog (P : Pydantic) := List (Entry Db (Call P) (Reply P))

/-- The times a job was claimed. -/
def claimTimes (j : JobId) (h : StoreLog P) : List Time :=
  h.filterMap fun x => x.event.claims x.reply j

/-- The terminal transitions of a job that took effect. -/
def verdicts (j : JobId) (h : StoreLog P) : List Verdict :=
  h.filterMap fun x => x.event.settles x.reply j

/-- The webhook events that were inserted for a job. -/
def webhooks (j : JobId) (h : StoreLog P) : List OutboxRow :=
  h.flatMap fun x => x.after.tables.webhookOutbox.rows.filter fun e =>
    (x.before.tables.webhookOutbox.get? e.id).isNone && e.jobId = j

variable {j : JobId} {h : StoreLog P} {x : Entry Db (Call P) (Reply P)}

@[simp]
theorem claimTimes_append_one :
    claimTimes j (h ++ [x]) = claimTimes j h ++ (x.event.claims x.reply j).toList := by
  rw [claimTimes, List.filterMap_append]
  cases hx : x.event.claims x.reply j <;> simp [claimTimes, hx]

@[simp]
theorem verdicts_append_one :
    verdicts j (h ++ [x]) = verdicts j h ++ (x.event.settles x.reply j).toList := by
  rw [verdicts, List.filterMap_append]
  cases hx : x.event.settles x.reply j <;> simp [verdicts, hx]

end Log

/-! ### What the columns of a row say of each other -/

/-- The combinations of columns a row can show. -/
structure Row.Coherent (row : Row) : Prop where
  running_iff_owner : row.status = .running ↔ row.leaseOwner.isSome
  running_iff_expiry : row.status = .running ↔ row.leaseExpiresAt.isSome
  completed_iff_result : row.status = .completed ↔ row.resultJson.isSome
  failed_iff_error : row.status = .failed ↔ row.error.isSome
  kind_iff : row.failureKind.isSome ↔ row.status = .failed ∨ row.status = .cancelled
  cancelled_kind : row.status = .cancelled → row.failureKind = some .cancelled
  queued_stage : row.status = .queued → row.stage = .queued
  retry_status : row.retryAfter.isSome → row.status = .queued ∨ row.status = .cancelled

section Coherent

variable {P : Pydantic} {j : JobId} {row row' : Row} {ct : Option Time} {v : Option Verdict}

theorem heldBy_iff {w : WorkerId} : row.heldBy j (some w) = true ↔
    row.id = j ∧ row.status = .running ∧ row.leaseOwner = some w := by
  simp [Row.heldBy, and_assoc]

theorem isActive_iff : row.isActive = true ↔ row.status = .queued ∨ row.status = .running := by
  simp [Row.isActive]

theorem active_of_cancellable {client : String} (h : row.cancellable j client = true) :
    row.isActive = true := by
  simp only [Row.cancellable, Bool.and_eq_true] at h
  exact h.2

theorem active_of_claimable {now : Time} {ex : List JobId} (h : row.claimable now ex = true) :
    row.isActive = true := by
  simp only [Row.claimable, Bool.and_eq_true, Bool.or_eq_true, decide_eq_true_eq] at h
  rw [isActive_iff]
  exact h.1.imp And.left And.left

/-- A new row is coherent. -/
theorem coherent_new (new : NewJob P) : new.job.row.Coherent := by
  constructor <;> simp [NewJob.job, Job.row]

/-- The columns no call writes after `create`. -/
theorem Change.immutable (h : Change P j (some row) ct v (some row')) :
    row'.id = row.id ∧ row'.clientId = row.clientId ∧ row'.requestJson = row.requestJson ∧
      row'.idempotencyKey = row.idempotencyKey ∧ row'.requestDigest = row.requestDigest := by
  cases h <;> exact ⟨rfl, rfl, rfl, rfl, rfl⟩

/-- No call makes a job active again. -/
theorem Change.active (h : Change P j (some row) ct v (some row')) (ha : row'.isActive = true) :
    row.isActive = true := by
  cases h with
  | claimed _ w now l ex hrow => exact active_of_claimable hrow
  | released _ w now s hrow => exact isActive_iff.mpr (.inr (heldBy_iff.mp hrow).2.1)
  | recorded | staged | renewed | kept => exact ha
  | _ => cases ha

/-- **A step keeps a row coherent.** -/
theorem Change.coherent (h : Change P j (some row) ct v (some row')) (hc : row.Coherent) :
    row'.Coherent := by
  have active : row.isActive = true →
      row.resultJson = none ∧ row.error = none ∧ row.failureKind = none := by
    intro ha
    have h₁ := hc.completed_iff_result
    have h₂ := hc.failed_iff_error
    have h₃ := hc.kind_iff
    rcases isActive_iff.mp ha with hs | hs <;> simp [hs] at h₁ h₂ h₃ <;> exact ⟨h₁, h₂, h₃⟩
  have running : row.status = .running → row.retryAfter = none := by
    intro hs
    have := hc.retry_status
    simpa [hs] using this
  cases h with
  | claimed _ w now l ex hrow =>
      obtain ⟨h₁, h₂, h₃⟩ := active (active_of_claimable hrow)
      constructor <;> simp [Row.claim, h₁, h₂, h₃]
  | released _ w now s hrow =>
      have hs := (heldBy_iff.mp hrow).2.1
      obtain ⟨h₁, h₂, h₃⟩ := active (isActive_iff.mpr (.inr hs))
      constructor <;> simp [Row.release, h₁, h₂, h₃]
  | recorded => exact ⟨hc.1, hc.2, hc.3, hc.4, hc.5, hc.6, hc.7, hc.8⟩
  | staged _ stage w now hrow =>
      have hs := (heldBy_iff.mp hrow).2.1
      exact ⟨hc.1, hc.2, hc.3, hc.4, hc.5, hc.6, by simp [hs], hc.8⟩
  | renewed _ w e now hrow =>
      have hs := (heldBy_iff.mp hrow).2.1
      exact ⟨hc.1, by simp [hs], hc.3, hc.4, hc.5, hc.6, hc.7, hc.8⟩
  | cancelled _ v client _ hrow =>
      obtain ⟨h₁, h₂, h₃⟩ := active (active_of_cancellable hrow)
      constructor <;> simp [Row.cancel, h₁, h₂]
  | finished _ v w result _ hrow =>
      have hs := (heldBy_iff.mp hrow).2.1
      obtain ⟨h₁, h₂, h₃⟩ := active (isActive_iff.mpr (.inr hs))
      constructor <;> simp [Row.finish, h₂, h₃, running hs]
  | failed _ v w error kind _ hrow =>
      have hs := (heldBy_iff.mp hrow).2.1
      obtain ⟨h₁, h₂, h₃⟩ := active (isActive_iff.mpr (.inr hs))
      constructor <;> simp [Row.fail, h₁, running hs]
  | kept => exact hc

end Coherent

/-! ### The tables agree with the log -/

section Standing

variable {P : Pydantic} {j : JobId} {h : StoreLog P} {s : Db}

/-- A row agrees with the log: it was claimed as often as its attempt says, first at `started_at`,
and it is terminal exactly if something settled it. -/
structure Logged (j : JobId) (h : StoreLog P) (row : Row) : Prop where
  coherent : row.Coherent
  attempt : row.attempt = (claimTimes j h).length
  started : row.startedAt = (claimTimes j h).head?
  settled : row.isActive = true ∧ verdicts j h = [] ∨
    ∃ v, verdicts j h = [v] ∧ row.status = v.status ∧ v.status.isTerminal = true
  retry : row.retryAfter.isSome → row.status = .cancelled → ∃ x ∈ h, ∃ row₀,
    (x.event.settles x.reply j).isSome ∧ x.before.tables.jobs.get? j = some row₀ ∧
      row₀.status = .queued

/-- What the log says of a job that has this row, or none. -/
inductive Standing (j : JobId) (h : StoreLog P) (s : Db) : Option Row → Prop where
  | unborn (hclaim : claimTimes j h = []) (hv : verdicts j h = []) : Standing j h s none
  | present (row : Row) (hdrawn : j ∈ s.drawn) (hrow : Logged j h row) : Standing j h s (some row)
  | purged (v : Verdict) (hdrawn : j ∈ s.drawn) (hv : verdicts j h = [v])
      (hgone : ∃ x ∈ h, ∃ row, x.before.tables.jobs.get? j = some row ∧
        x.after.tables.jobs.get? j = none ∧ row.status = v.status ∧
        v.status.isTerminal = true) : Standing j h s none

theorem isTerminal_iff {row : Row} : row.status.isTerminal = true ↔ row.isActive = false := by
  cases hs : row.status <;> simp [JobStatus.isTerminal, Row.isActive, hs]

theorem Logged.of_active {row : Row} (hl : Logged j h row) (ha : row.isActive = true) :
    verdicts j h = [] := by
  rcases hl.settled with ⟨-, hv⟩ | ⟨v, -, hs, ht⟩
  · exact hv
  · rw [← hs, isTerminal_iff, ha] at ht
    cases ht

theorem Logged.of_terminal {row : Row} (hl : Logged j h row) (ha : row.isActive = false) :
    ∃ v, verdicts j h = [v] ∧ row.status = v.status ∧ v.status.isTerminal = true := by
  rcases hl.settled with ⟨hact, -⟩ | hv
  · rw [ha] at hact
    cases hact
  · exact hv

/-- **A step keeps a row in agreement with the log.** -/
theorem Change.logged {row row' : Row} {x : Entry Db (Call P) (Reply P)}
    (hc : Change P j (some row) (x.event.claims x.reply j) (x.event.settles x.reply j) (some row'))
    (hbefore : x.before.tables.jobs.get? j = some row) (hl : Logged j h row) :
    Logged j (h ++ [x]) row' := by
  have hcoh := hc.coherent hl.coherent
  have hretry : ∀ {row' : Row}, row'.retryAfter = row.retryAfter → row'.status = row.status →
      row'.retryAfter.isSome → row'.status = .cancelled → ∃ y ∈ h ++ [x], ∃ row₀,
        (y.event.settles y.reply j).isSome ∧ y.before.tables.jobs.get? j = some row₀ ∧
          row₀.status = .queued := by
    intro row' h₁ h₂ h₃ h₄
    obtain ⟨y, hy, hrest⟩ := hl.retry (by rwa [← h₁]) (by rwa [← h₂])
    exact ⟨y, List.mem_append_left _ hy, hrest⟩
  generalize hct : x.event.claims x.reply j = ct at hc
  generalize hst : x.event.settles x.reply j = st at hc
  cases hc with
  | claimed _ w now l ex hrow =>
      have ha := active_of_claimable hrow
      refine ⟨hcoh, ?_, ?_, .inl ⟨by simp [Row.isActive, Row.claim], ?_⟩, by simp [Row.claim]⟩
      · simp [Row.claim, hl.attempt, hct]
      · rw [claimTimes_append_one, hct, List.head?_append, ← hl.started]
        cases hs : row.startedAt <;> simp [Row.claim, hs]
      · simp [hl.of_active ha, hst]
  | released _ w now s hrow =>
      have ha := isActive_iff.mpr (.inr (heldBy_iff.mp hrow).2.1)
      refine ⟨hcoh, ?_, ?_, .inl ⟨by simp [Row.isActive, Row.release], ?_⟩, by simp [Row.release]⟩
      · simp [Row.release, hl.attempt, hct]
      · simp [Row.release, hl.started, hct]
      · simp [hl.of_active ha, hst]
  | recorded | staged | renewed | kept =>
      refine ⟨hcoh, ?_, ?_, ?_, hretry rfl rfl⟩
      · simp [hl.attempt, hct]
      · simp [hl.started, hct]
      · simpa [hst, Row.isActive] using hl.settled
  | cancelled _ v client hv hrow =>
      have ha := active_of_cancellable hrow
      refine ⟨hcoh, ?_, ?_, .inr ⟨v, by simp [hl.of_active ha, hst], hv.symm, by rw [hv]; rfl⟩, ?_⟩
      · simp [Row.cancel, hl.attempt, hct]
      · simp [Row.cancel, hl.started, hct]
      · intro hr _
        refine ⟨x, by simp, row, by rw [hst]; rfl, hbefore, ?_⟩
        rcases hl.coherent.retry_status hr with hs | hs
        · exact hs
        · rw [isActive_iff, hs] at ha
          simp at ha
  | finished _ v w result hv hrow =>
      have ha := isActive_iff.mpr (.inr (heldBy_iff.mp hrow).2.1)
      refine ⟨hcoh, ?_, ?_, .inr ⟨v, by simp [hl.of_active ha, hst], hv.symm, by rw [hv]; rfl⟩,
        by simp [Row.finish]⟩
      · simp [Row.finish, hl.attempt, hct]
      · simp [Row.finish, hl.started, hct]
  | failed _ v w error kind hv hrow =>
      have ha := isActive_iff.mpr (.inr (heldBy_iff.mp hrow).2.1)
      refine ⟨hcoh, ?_, ?_, .inr ⟨v, by simp [hl.of_active ha, hst], hv.symm, by rw [hv]; rfl⟩,
        by simp [Row.fail]⟩
      · simp [Row.fail, hl.attempt, hct]
      · simp [Row.fail, hl.started, hct]

/-- A row appears only under an id nobody had drawn. -/
theorem not_drawn_of_created {c : Call P} {db db' : Db} {r : Reply P} {row : Row}
    (hstep : c.step db = some (db', r)) (hnone : db.tables.jobs.get? j = none)
    (hsome : db'.tables.jobs.get? j = some row) :
    j ∉ db.drawn ∧ j ∈ db'.drawn ∧ ∃ new a b, c = .create new a b ∧ row = new.job.row := by
  rcases get?_step hstep j with hget | ⟨new, a, b, rfl, rfl, hnew, -, hget⟩
  · rw [hnone, hsome] at hget
    cases hget
  · rw [hsome] at hget
    exact ⟨hnew, (drawn_step hstep _).mpr (.inr ⟨new, a, b, rfl, rfl⟩), new, a, b, rfl,
      Option.some.inj hget⟩

/-- **In every run the tables agree with the log.** -/
theorem standing (run : (storeMachine P).Run h s) (j : JobId) :
    Standing j h s (s.tables.jobs.get? j) := by
  refine Machine.Run.invariant (M := storeMachine P)
    (I := fun h s => Standing j h s (s.tables.jobs.get? j)) (.unborn rfl rfl) ?_ run
  intro h s c s' r _ ih hstep
  have hdrawn : j ∈ s.drawn → j ∈ s'.drawn := fun hj => (drawn_step hstep j).mpr (.inl hj)
  have hc := change_step hstep j
  cases hb : s.tables.jobs.get? j with
  | none =>
      rw [hb] at ih hc
      cases ha : s'.tables.jobs.get? j with
      | none =>
          rw [ha] at hc
          have hct : c.claims r j = none ∧ c.settles r j = none := by
            generalize c.claims r j = ct at hc
            generalize c.settles r j = st at hc
            cases hc
            exact ⟨rfl, rfl⟩
          cases ih with
          | unborn h₁ h₂ => exact .unborn (by simp [h₁, hct.1]) (by simp [h₂, hct.2])
          | purged v hd hv hgone =>
              obtain ⟨x, hx, hrest⟩ := hgone
              exact .purged v (hdrawn hd) (by simp [hv, hct.2])
                ⟨x, List.mem_append_left _ hx, hrest⟩
      | some row =>
          obtain ⟨hnew, hd, new, a, b, rfl, rfl⟩ := not_drawn_of_created hstep hb ha
          cases ih with
          | unborn h₁ h₂ =>
              refine .present _ hd ⟨coherent_new new, ?_, ?_, .inl ⟨rfl, ?_⟩, by simp [NewJob.job, Job.row]⟩
              · simp [h₁, Call.claims, NewJob.job, Job.row]
              · simp [h₁, Call.claims, NewJob.job, Job.row]
              · simp [h₂, Call.settles_of_no_verdict (c := .create new a b) (r := r) j rfl]
          | purged v hd' => exact absurd hd' hnew
  | some row =>
      rw [hb] at ih hc
      obtain ⟨hd, hl⟩ : j ∈ s.drawn ∧ Logged j h row := by
        cases ih with
        | present _ hd hl => exact ⟨hd, hl⟩
      cases ha : s'.tables.jobs.get? j with
      | some row' =>
          rw [ha] at hc
          exact .present row' (hdrawn hd) (Change.logged (x := ⟨s, c, r, s'⟩) hc hb hl)
      | none =>
          rw [ha] at hc
          generalize hct : c.claims r j = ct at hc
          generalize hst : c.settles r j = st at hc
          cases hc with
          | purged _ cutoff hx =>
              simp only [Row.expired, Bool.and_eq_true] at hx
              obtain ⟨v, hv, hs, ht⟩ := hl.of_terminal (isTerminal_iff.mp hx.1)
              exact .purged v (hdrawn hd) (by simp [hv, hst])
                ⟨⟨s, c, r, s'⟩, by simp, row, hb, ha, hs, ht⟩

/-- A claim or a terminal transition of `j` finds an active row, which nothing has settled. -/
theorem active_of_change {c : Call P} {db' : Db} {r : Reply P} (run : (storeMachine P).Run h s)
    (hstep : c.step s = some (db', r)) (hc : c.claims r j ≠ none ∨ c.settles r j ≠ none) :
    ∃ row, s.tables.jobs.get? j = some row ∧ row.isActive = true ∧ Logged j h row ∧
      verdicts j h = [] := by
  have hch := change_step hstep j
  have hst := standing run j
  generalize s.tables.jobs.get? j = o at hch hst
  generalize db'.tables.jobs.get? j = o' at hch
  generalize c.claims r j = ct at hch hc
  generalize c.settles r j = st at hch hc
  obtain ⟨row, rfl, ha⟩ : ∃ row, o = some row ∧ row.isActive = true := by
    cases hch with
    | claimed row w now l ex hrow => exact ⟨row, rfl, active_of_claimable hrow⟩
    | cancelled row v client _ hrow => exact ⟨row, rfl, active_of_cancellable hrow⟩
    | finished row v w result _ hrow =>
        exact ⟨row, rfl, isActive_iff.mpr (.inr (heldBy_iff.mp hrow).2.1)⟩
    | failed row v w error kind _ hrow =>
        exact ⟨row, rfl, isActive_iff.mpr (.inr (heldBy_iff.mp hrow).2.1)⟩
    | _ => simp at hc
  cases hst with
  | present _ _ hl => exact ⟨row, rfl, ha, hl, hl.of_active ha⟩

/-! ### What a terminal transition leaves behind -/

theorem verdicts_cases (run : (storeMachine P).Run h s) (j : JobId) :
    verdicts j h = [] ∨ ∃ v, verdicts j h = [v] := by
  have hst := standing run j
  generalize s.tables.jobs.get? j = o at hst
  cases hst with
  | unborn _ hv => exact .inl hv
  | present row _ hl => exact hl.settled.imp And.right fun ⟨v, hv, _⟩ => ⟨v, hv⟩
  | purged v _ hv => exact .inr ⟨v, hv⟩

theorem verdicts_length_le (run : (storeMachine P).Run h s) (j : JobId) :
    (verdicts j h).length ≤ 1 := by
  rcases verdicts_cases run j with hv | ⟨v, hv⟩ <;> simp [hv]

theorem mem_verdicts {v : Verdict} (hv : v ∈ verdicts j h) :
    ∃ x ∈ h, x.event.verdict = some v ∧ x.reply.positive = true ∧ v.jobId = j := by
  obtain ⟨x, hx, hs⟩ := List.mem_filterMap.mp hv
  unfold Call.settles at hs
  split at hs
  · rename_i hpos
    obtain ⟨hver, hj⟩ := Option.filter_eq_some_iff.mp hs
    exact ⟨x, hx, hver, hpos, by simpa using hj⟩
  · cases hs

/-- `j` is, or was when it was purged, terminal with this status. -/
def EndedAs (j : JobId) (h : StoreLog P) (s : Db) (status : JobStatus) : Prop :=
  status.isTerminal = true ∧
    ((∃ row, s.tables.jobs.get? j = some row ∧ row.status = status) ∨
      ∃ x ∈ h, ∃ row, x.before.tables.jobs.get? j = some row ∧
        x.after.tables.jobs.get? j = none ∧ row.status = status)

theorem endedAs_iff (run : (storeMachine P).Run h s) {status : JobStatus} :
    EndedAs j h s status ↔ ∃ v, verdicts j h = [v] ∧ v.status = status := by
  constructor
  · rintro ⟨hterm, ⟨row, hrow, rfl⟩ | ⟨x, hx, row, hrow, -, rfl⟩⟩
    · have hst := standing run j
      rw [hrow] at hst
      cases hst with
      | present _ _ hl =>
          obtain ⟨v, hv, hs, -⟩ := hl.of_terminal (isTerminal_iff.mp hterm)
          exact ⟨v, hv, hs.symm⟩
    · -- nothing settles the job after the moment it is found terminal
      obtain ⟨h₁, h₂, rfl⟩ := List.append_of_mem hx
      have hst := standing run.split.1 j
      rw [hrow] at hst
      cases hst with
      | present _ _ hl =>
          obtain ⟨v, hv, hs, -⟩ := hl.of_terminal (isTerminal_iff.mp hterm)
          have hlen := verdicts_length_le run j
          refine ⟨v, ?_, hs.symm⟩
          simp only [verdicts, List.filterMap_append, List.length_append] at hv hlen ⊢
          rw [hv] at hlen ⊢
          rw [List.length_eq_zero_iff.mp (Nat.le_zero.mp (Nat.le_of_add_le_add_left hlen))]
          rfl
  · rintro ⟨v, hv, rfl⟩
    have hst := standing run j
    cases hrow : s.tables.jobs.get? j with
    | none =>
        rw [hrow] at hst
        cases hst with
        | unborn _ h₀ => rw [hv] at h₀; cases h₀
        | purged v' _ hv' hgone =>
            obtain rfl : v = v' := by simpa [hv] using hv'
            obtain ⟨x, hx, row, h₁, h₂, h₃, hterm⟩ := hgone
            exact ⟨hterm, .inr ⟨x, hx, row, h₁, h₂, h₃⟩⟩
    | some row =>
        rw [hrow] at hst
        cases hst with
        | present _ _ hl =>
            rcases hl.settled with ⟨-, h₀⟩ | ⟨v', hv', hs, hterm⟩
            · rw [hv] at h₀; cases h₀
            · obtain rfl : v = v' := by simpa [hv] using hv'
              exact ⟨hterm, .inl ⟨row, hrow, hs⟩⟩

/-! #### Statistics -/

/-- The statistics purge deleted the row of `j`. -/
def StatsPurged (j : JobId) (h : StoreLog P) : Prop :=
  ∃ x ∈ h, ∃ stats, x.before.tables.jobStats.get? j = some stats ∧ x.event.purges stats = true

/-- What the log says of the statistics row of `j`, if it has one. -/
inductive StatsStanding (j : JobId) (h : StoreLog P) : Option StatsRow → Prop where
  | running (hv : verdicts j h = []) (hp : ¬ StatsPurged j h) : StatsStanding j h none
  | recorded (stats : StatsRow) (v : Verdict) (hv : verdicts j h = [v])
      (hp : ¬ StatsPurged j h) (hs : stats.status = v.status)
      (ha : stats.attempts = (claimTimes j h).length) : StatsStanding j h (some stats)
  | purged (v : Verdict) (hv : verdicts j h = [v]) (hp : StatsPurged j h) : StatsStanding j h none

theorem statsPurged_append_one {x : Entry Db (Call P) (Reply P)} :
    StatsPurged j (h ++ [x]) ↔ StatsPurged j h ∨
      ∃ stats, x.before.tables.jobStats.get? j = some stats ∧ x.event.purges stats = true := by
  simp only [StatsPurged, List.mem_append, List.mem_singleton, or_and_right, exists_or,
    exists_eq_left]

/-- **In every run the statistics agree with the log.** -/
theorem stats_standing (run : (storeMachine P).Run h s) (j : JobId) :
    StatsStanding j h (s.tables.jobStats.get? j) := by
  refine Machine.Run.invariant (M := storeMachine P)
    (I := fun h s => StatsStanding j h (s.tables.jobStats.get? j))
    (.running rfl fun ⟨_, hx, _⟩ => by cases hx) ?_ run
  intro h s c s' r run ih hstep
  rcases jobStats_step hstep j with ⟨v, row, hset, hrow, -, hget⟩ | ⟨hset, hget⟩
  · obtain ⟨row', hrow', -, hl, h₀⟩ := active_of_change run hstep (.inr (by rw [hset]; simp))
    obtain rfl : row = row' := Option.some.inj (hrow.symm.trans hrow')
    have hnone : s.tables.jobStats.get? j = none ∧ ¬ StatsPurged j h := by
      generalize s.tables.jobStats.get? j = o at ih
      cases ih with
      | running _ hp => exact ⟨rfl, hp⟩
      | recorded _ v hv => rw [h₀] at hv; cases hv
      | purged v hv => rw [h₀] at hv; cases hv
    have hclaim : c.claims r j = none := by
      have hc := change_step hstep j
      rw [hset] at hc
      generalize c.claims r j = ct at hc
      generalize s.tables.jobs.get? j = o at hc
      generalize s'.tables.jobs.get? j = o' at hc
      cases hc <;> rfl
    have hattempt : (c.set row).attempt = row.attempt := by
      unfold Call.settles at hset
      split at hset
      · cases c <;> first | rfl | cases hset
      · cases hset
    rw [hget, hnone.1, Option.getD_none]
    refine .recorded _ v (by simp [h₀, hset]) ?_ rfl ?_
    · rw [statsPurged_append_one]
      rintro (hp | ⟨stats, hst, -⟩)
      · exact hnone.2 hp
      · rw [hnone.1] at hst
        cases hst
    · rw [claimTimes_append_one, hclaim, Option.toList_none, List.append_nil, ← hl.attempt]
      exact hattempt
  · have hverdicts : ∀ {l}, verdicts j h = l →
        verdicts j (h ++ [⟨s, c, r, s'⟩]) = l := by
      rintro l rfl
      simp [hset]
    have hclaim : verdicts j h ≠ [] → c.claims r j = none := by
      intro hv
      by_contra hct
      obtain ⟨-, -, -, -, h₀⟩ := active_of_change run hstep (.inl hct)
      exact hv h₀
    rw [hget]
    cases hst : s.tables.jobStats.get? j with
    | none =>
        have hp : StatsPurged j (h ++ [⟨s, c, r, s'⟩]) ↔ StatsPurged j h := by
          simp [statsPurged_append_one, hst]
        rw [hst] at ih
        cases ih with
        | running hv hnp => exact .running (hverdicts hv) (mt hp.mp hnp)
        | purged v hv hnp => exact .purged v (hverdicts hv) (hp.mpr hnp)
    | some stats =>
        rw [hst] at ih
        cases ih with
        | recorded _ v hv hnp hs ha =>
            cases hpurge : c.purges stats with
            | true =>
                have : StatsPurged j (h ++ [⟨s, c, r, s'⟩]) :=
                  statsPurged_append_one.mpr (.inr ⟨stats, hst, hpurge⟩)
                simpa [Option.filter, hpurge] using .purged v (hverdicts hv) this
            | false =>
                have hnp' : ¬ StatsPurged j (h ++ [⟨s, c, r, s'⟩]) := by
                  simp [statsPurged_append_one, hst, hpurge, hnp]
                have ha' : stats.attempts = (claimTimes j (h ++ [⟨s, c, r, s'⟩])).length := by
                  simp [ha, hclaim (by simp [hv])]
                simpa [Option.filter, hpurge] using
                  .recorded stats v (hverdicts hv) hnp' hs ha'

/-! #### Webhook events -/

/-- **The events inserted for a job are those of its terminal transitions.** -/
theorem webhooks_eq (run : (storeMachine P).Run h s) (j : JobId) :
    webhooks j h = (verdicts j h).flatMap Verdict.events := by
  refine Machine.Run.invariant (M := storeMachine P)
    (I := fun h _ => webhooks j h = (verdicts j h).flatMap Verdict.events) rfl ?_ run
  intro h s c s' r _ ih hstep
  have hone := webhookOutbox_step hstep j
  rw [verdicts_append_one, List.flatMap_append, ← ih, webhooks, List.flatMap_append,
    List.flatMap_singleton, hone]
  cases c.settles r j <;> simp [webhooks]

theorem payload_of_verdict {c : Call P} {v : Verdict} (hv : c.verdict = some v) :
    v.payload.jobId = v.jobId ∧ v.payload.status = v.status := by
  cases c <;> simp only [Call.verdict, Option.some.injEq, reduceCtorEq] at hv <;> subst hv <;>
    exact ⟨rfl, rfl⟩

/-! #### The row -/

/-- What a terminal transition decides about a row. -/
def Row.outcome (row : Row) :
    JobStatus × Option Json × Option String × Option FailureKind × Option WorkerId × Option Time :=
  (row.status, row.resultJson, row.error, row.failureKind, row.leaseOwner, row.leaseExpiresAt)

/-- No call changes the outcome of a terminal row. -/
theorem Change.outcome {row row' : Row} {ct : Option Time} {v : Option Verdict}
    (hc : Change P j (some row) ct v (some row')) (ha : row.isActive = false) :
    row'.outcome = row.outcome := by
  have held : ∀ {w}, row.heldBy j (some w) = true → False := fun hrow => by
    rw [isActive_iff.mpr (.inr (heldBy_iff.mp hrow).2.1)] at ha
    cases ha
  cases hc with
  | claimed _ w now l ex hrow => rw [active_of_claimable hrow] at ha; cases ha
  | cancelled _ v client _ hrow => rw [active_of_cancellable hrow] at ha; cases ha
  | released _ _ _ _ hrow | staged _ _ _ _ hrow | renewed _ _ _ _ hrow
  | finished _ _ _ _ _ hrow | failed _ _ _ _ _ _ hrow => exact (held hrow).elim
  | recorded | kept => rfl

theorem outcome_frozen {u : Db} {row₀ : Row} (path : (storeMachine P).Path u h s)
    (hdrawn : j ∈ u.drawn) (hrow₀ : u.tables.jobs.get? j = some row₀)
    (hterm : row₀.isActive = false) {row : Row} (hrow : s.tables.jobs.get? j = some row) :
    row.outcome = row₀.outcome := by
  have key : ∀ {a b : Row}, a.outcome = b.outcome → a.isActive = b.isActive := by
    intro a b hab
    have : a.status = b.status := congrArg Prod.fst hab
    simp [Row.isActive, this]
  refine (Machine.Path.preserves (M := storeMachine P)
    (I := fun t => j ∈ t.drawn ∧ ∀ row, t.tables.jobs.get? j = some row → row.outcome = row₀.outcome)
    path ?_ ⟨hdrawn, fun row h => by rw [← Option.some.inj (hrow₀.symm.trans h)]⟩).2 row hrow
  rintro t c t' r hstep ⟨hd, hfix⟩
  refine ⟨(drawn_step hstep j).mpr (.inl hd), fun row' hrow' => ?_⟩
  cases hb : t.tables.jobs.get? j with
  | none => exact absurd hd (not_drawn_of_created hstep hb hrow').1
  | some row =>
      have hc := change_step hstep j
      rw [hb, hrow'] at hc
      rw [hc.outcome (by rw [key (hfix row hb), hterm]), hfix row hb]

/-- **A settled job keeps its outcome**, and holds no lease. -/
theorem frozen_after_settled {h₁ h₂ : StoreLog P} {x : Entry Db (Call P) (Reply P)} {v : Verdict}
    (run : (storeMachine P).Run (h₁ ++ x :: h₂) s)
    (hset : x.event.settles x.reply j = some v) :
    ∃ row₀, x.after.tables.jobs.get? j = some row₀ ∧ row₀.status = v.status ∧
      row₀.leaseOwner = none ∧ row₀.leaseExpiresAt = none ∧
      ∀ row, s.tables.jobs.get? j = some row → row.outcome = row₀.outcome := by
  obtain ⟨run₁, hstep, path⟩ := run.split
  obtain ⟨row, hrow, ha, hl, hnil⟩ := active_of_change run₁ hstep (.inr (by rw [hset]; simp))
  have hst := standing (run₁.append (.one hstep)) j
  have hc := change_step hstep j
  rw [hrow, hset] at hc
  obtain ⟨row₀, hrow₀⟩ : ∃ row₀, x.after.tables.jobs.get? j = some row₀ := by
    generalize x.event.claims x.reply j = ct at hc
    generalize x.after.tables.jobs.get? j = o at hc
    cases hc <;> exact ⟨_, rfl⟩
  rw [hrow₀] at hst
  cases hst with
  | present _ hd hl₀ =>
      have hv : verdicts j (h₁ ++ [x]) = [v] := by
        rw [verdicts_append_one, hnil, hset]
        rfl
      have hact : row₀.isActive = false := Bool.eq_false_iff.mpr fun ha₀ => by
        rw [hl₀.of_active ha₀] at hv
        cases hv
      obtain ⟨v', hv', hs, -⟩ := hl₀.of_terminal hact
      obtain rfl : v = v' := by simpa [hv] using hv'
      have hrun : row₀.status ≠ .running := fun hr => by
        rw [isActive_iff.mpr (.inr hr)] at hact
        cases hact
      refine ⟨row₀, hrow₀, hs, ?_, ?_, fun row hrow => outcome_frozen path hd hrow₀ hact hrow⟩
      · simpa using mt hl₀.coherent.running_iff_owner.mpr hrun
      · simpa using mt hl₀.coherent.running_iff_expiry.mpr hrun

theorem stats_iff (run : (storeMachine P).Run h s) (j : JobId) :
    s.tables.jobStats.matched (fun stats => stats.jobId = j) = 1 ↔
      (∃ status, EndedAs j h s status) ∧ ¬ StatsPurged j h := by
  rw [Table.matched_eq_one_iff (k := j) (fun r hr => of_decide_eq_true hr)]
  have hst := stats_standing run j
  constructor
  · rintro ⟨stats, hget, -⟩
    rw [hget] at hst
    cases hst with
    | recorded _ v hv hp => exact ⟨⟨v.status, (endedAs_iff run).mpr ⟨v, hv, rfl⟩⟩, hp⟩
  · rintro ⟨⟨status, hend⟩, hp⟩
    obtain ⟨v, hv, -⟩ := (endedAs_iff run).mp hend
    cases hget : s.tables.jobStats.get? j with
    | some stats => exact ⟨stats, rfl, decide_eq_true (Table.key_of_get? hget)⟩
    | none =>
        rw [hget] at hst
        cases hst with
        | running h₀ => rw [hv] at h₀; cases h₀
        | purged _ _ hp' => exact absurd hp' hp

theorem stats_agree (run : (storeMachine P).Run h s) {stats : StatsRow}
    (hget : s.tables.jobStats.get? j = some stats) :
    EndedAs j h s stats.status ∧ stats.attempts = (claimTimes j h).length := by
  have hst := stats_standing run j
  rw [hget] at hst
  cases hst with
  | recorded _ v hv _ hs ha => exact ⟨(endedAs_iff run).mpr ⟨v, hv, hs.symm⟩, ha⟩

theorem events_length_le (v : Verdict) : v.events.length ≤ 1 := by
  cases hu : v.webhookUrl <;> simp [Verdict.events, hu]

theorem webhooks_length_le (run : (storeMachine P).Run h s) (j : JobId) :
    (webhooks j h).length ≤ 1 := by
  rw [webhooks_eq run j]
  rcases verdicts_cases run j with hv | ⟨v, hv⟩
  · simp [hv]
  · simpa [hv] using events_length_le v

theorem webhook_agrees (run : (storeMachine P).Run h s) {e : OutboxRow} (he : e ∈ webhooks j h) :
    e.payload.jobId = j ∧ EndedAs j h s e.payload.status := by
  rw [webhooks_eq run j, List.mem_flatMap] at he
  obtain ⟨v, hv, he⟩ := he
  obtain ⟨x, -, hver, -, hj⟩ := mem_verdicts hv
  have hpay := payload_of_verdict hver
  obtain ⟨url, -, rfl⟩ : ∃ url, v.webhookUrl = some url ∧ v.event url = e := by
    simpa [Verdict.events] using he
  refine ⟨hpay.1.trans hj, (endedAs_iff run).mpr ⟨v, ?_, hpay.2.symm⟩⟩
  rcases verdicts_cases run j with hnil | ⟨v', hone⟩
  · rw [hnil] at hv
    cases hv
  · rw [hone, List.mem_singleton] at hv
    rw [hone, hv]

/-- **What makes a terminal transition final.** -/
structure TerminalOnce (j : JobId) (h : StoreLog P) (s : Db) : Prop where
  /-- at most one terminal call takes effect -/
  one_verdict : (verdicts j h).length ≤ 1
  /-- and one that says it did not leaves everything as it was -/
  refused : ∀ x ∈ h, ∀ v, x.event.verdict = some v → x.reply.positive = false → x.after = x.before
  /-- once one has, the outcome and the empty lease of the row stay until it is purged -/
  frozen : ∀ h₁ x h₂ v, h = h₁ ++ x :: h₂ → x.event.settles x.reply j = some v →
    ∃ row₀, x.after.tables.jobs.get? j = some row₀ ∧ row₀.status = v.status ∧
      row₀.leaseOwner = none ∧ row₀.leaseExpiresAt = none ∧
      ∀ row, s.tables.jobs.get? j = some row → row.outcome = row₀.outcome
  /-- there is one row of statistics, until the purge, if and only if the job ended -/
  one_stats : s.tables.jobStats.matched (fun stats => stats.jobId = j) = 1 ↔
    (∃ status, EndedAs j h s status) ∧ ¬ StatsPurged j h
  /-- with the status it ended with, and as many attempts as it was claimed -/
  stats_agree : ∀ stats, s.tables.jobStats.get? j = some stats →
    EndedAs j h s stats.status ∧ stats.attempts = (claimTimes j h).length
  /-- at most one event is inserted, and one exactly when the winning call had a URL -/
  one_webhook : (webhooks j h).length ≤ 1 ∧ webhooks j h = (verdicts j h).flatMap Verdict.events
  webhook_agrees : ∀ e ∈ webhooks j h, e.payload.jobId = j ∧ EndedAs j h s e.payload.status

/-- **Exactly-once terminal transition**, in every run of the store. -/
theorem terminal_exactly_once (run : (storeMachine P).Run h s) (j : JobId) :
    TerminalOnce j h s where
  one_verdict := verdicts_length_le run j
  refused x hx v hv hpos := by
    rcases step_keyed (run.step_of_mem hx) (Call.key_of_verdict hv) with ⟨-, heq, -⟩ | ⟨hb, -⟩
    · exact heq
    · rw [hpos] at hb
      cases hb
  frozen h₁ x h₂ v hh hset := by
    subst hh
    exact frozen_after_settled run hset
  one_stats := stats_iff run j
  stats_agree _ hget := stats_agree run hget
  one_webhook := ⟨webhooks_length_le run j, webhooks_eq run j⟩
  webhook_agrees _ he := webhook_agrees run he

/-- A job is submitted, claimed, and finished with a webhook. -/
def finishedCalls : List (Call .strict) :=
  [.create { id := "job", clientId := "client", now := 0, request := .ofUrl "https://host/a.wav" }
      none none,
    .claimNextQueued "worker" 1 60 [] [] (some "job"),
    .finish "job" { language := "sv", durationSeconds := .finite 1, model := "m", text := ""
                    segments := [] }
      "worker" (some "https://host/hook") none ⟨"event", 2⟩ 2]

theorem terminal_exactly_once_finished : ∃ h s, TerminalOnce (P := .strict) "job" h s ∧
    (webhooks "job" h).length = 1 := by
  obtain ⟨h, s, run, hone⟩ := Machine.Run.of_exec (storeMachine .strict) finishedCalls
    (fun h _ => (webhooks "job" h).length = 1) (by decide +kernel)
  exact ⟨h, s, terminal_exactly_once run "job", of_decide_eq_true hone⟩

/-! ### Rows -/

/-- What holds of every row of a run. -/
structure RowInvariant (j : JobId) (h : StoreLog P) (row : Row) : Prop where
  coherent : row.Coherent
  attempt : row.attempt = (claimTimes j h).length
  started_iff : row.startedAt.isSome ↔ 1 ≤ row.attempt
  started_fixed : row.startedAt = (claimTimes j h).head?
  /-- a cool-down is left on rows that are queued, or were when they were cancelled -/
  retry : row.retryAfter.isSome → row.status = .queued ∨
    row.status = .cancelled ∧ ∃ x ∈ h, ∃ row₀, (x.event.settles x.reply j).isSome ∧
      x.before.tables.jobs.get? j = some row₀ ∧ row₀.status = .queued

theorem rowInvariant (run : (storeMachine P).Run h s) {row : Row}
    (hrow : s.tables.jobs.get? j = some row) : RowInvariant j h row := by
  have hst := standing run j
  rw [hrow] at hst
  cases hst with
  | present _ _ hl =>
      refine ⟨hl.coherent, hl.attempt, ?_, hl.started, fun hr => ?_⟩
      · rw [hl.started, hl.attempt]
        cases claimTimes j h <;> simp
      · exact (hl.coherent.retry_status hr).imp id fun hs => ⟨hs, hl.retry hr hs⟩

/-! ### Idempotency keys -/

/-- A row is inserted only if no row of the client has its key. -/
theorem key_free_of_created {c : Call P} {db db' : Db} {r : Reply P} {row : Row}
    (hstep : c.step db = some (db', r)) (hnone : db.tables.jobs.get? j = none)
    (hsome : db'.tables.jobs.get? j = some row) {key : String}
    (hkey : row.idempotencyKey = some key) : lookUpKey db.tables row.clientId key = none := by
  obtain ⟨-, -, new, a, b, rfl, rfl⟩ := not_drawn_of_created hstep hnone hsome
  rw [Call.step] at hstep
  split at hstep
  · cases hstep
  · split at hstep
    · obtain ⟨rfl, rfl⟩ := Prod.mk.inj (Option.some.inj hstep)
      rw [hnone] at hsome
      cases hsome
    · rename_i t job hc
      obtain ⟨rfl, rfl⟩ := Prod.mk.inj (Option.some.inj hstep)
      rcases create_cases hc with ⟨rfl, -⟩ | ⟨rfl, hins, -⟩
      · rw [hnone] at hsome
        cases hsome
      · exact (insertJob_eq_some hins).2.2.2.2.1 key hkey

/-- A row of the client under its key, if there is one. -/
theorem lookUpKey_eq_none {t : Tables} {clientId key : String} :
    lookUpKey t clientId key = none ↔
      ∀ k row, t.jobs.get? k = some row → row.clientId = clientId →
        row.idempotencyKey ≠ some key := by
  simp only [lookUpKey, List.find?_eq_none, Bool.and_eq_true, decide_eq_true_eq, not_and]
  exact ⟨fun h k row hk => h row (Table.mem_of_get? hk),
    fun h row hrow => h row.id row (Table.get?_of_mem hrow)⟩

/-- **In every run a client's idempotency key is on one row at most.** -/
theorem unique_key (run : (storeMachine P).Run h s) {j k : JobId} {row row' : Row}
    (hj : s.tables.jobs.get? j = some row) (hk : s.tables.jobs.get? k = some row')
    (hclient : row.clientId = row'.clientId) {key : String}
    (hkey : row.idempotencyKey = some key) (hkey' : row'.idempotencyKey = some key) : j = k := by
  refine Machine.Run.invariant (M := storeMachine P)
    (I := fun _ s => ∀ j k row row', s.tables.jobs.get? j = some row →
      s.tables.jobs.get? k = some row' → row.clientId = row'.clientId →
        row.idempotencyKey = some key → row'.idempotencyKey = some key → j = k)
    (fun _ _ _ _ hj => by cases hj) ?_ run j k row row' hj hk hclient hkey hkey'
  intro h s c s' r _ ih hstep j k row row' hj hk hclient hkey hkey'
  have old : ∀ {j row row₀}, s.tables.jobs.get? j = some row₀ → s'.tables.jobs.get? j = some row →
      row.clientId = row₀.clientId ∧ row.idempotencyKey = row₀.idempotencyKey := by
    intro j row row₀ hb ha
    have hc := change_step hstep j
    rw [hb, ha] at hc
    exact ⟨hc.immutable.2.1, hc.immutable.2.2.2.1⟩
  have fresh : ∀ {j k row row'}, s.tables.jobs.get? j = none → s'.tables.jobs.get? j = some row →
      s.tables.jobs.get? k = some row' → row.clientId = row'.clientId →
      row.idempotencyKey = some key → row'.idempotencyKey ≠ some key := by
    intro j k row row' hb ha hk hclient hkey
    exact lookUpKey_eq_none.mp (key_free_of_created hstep hb ha hkey) k row' hk hclient.symm
  cases hbj : s.tables.jobs.get? j with
  | none =>
      cases hbk : s.tables.jobs.get? k with
      | none =>
          obtain ⟨-, -, new, a, b, hc, rfl⟩ := not_drawn_of_created hstep hbj hj
          obtain ⟨-, -, new', a', b', hc', rfl⟩ := not_drawn_of_created hstep hbk hk
          obtain ⟨rfl, -, -⟩ := Call.create.inj (hc.symm.trans hc')
          exact (Table.key_of_get? hj).symm.trans (Table.key_of_get? hk)
      | some row₁ =>
          obtain ⟨h₁, h₂⟩ := old hbk hk
          exact absurd (h₂ ▸ hkey') (fresh hbj hj hbk (hclient.trans h₁) hkey)
  | some row₀ =>
      obtain ⟨h₁, h₂⟩ := old hbj hj
      cases hbk : s.tables.jobs.get? k with
      | none => exact absurd (h₂ ▸ hkey) (fresh hbk hk hbj (hclient.symm.trans h₁) hkey')
      | some row₁ =>
          obtain ⟨h₃, h₄⟩ := old hbk hk
          exact ih j k row₀ row₁ hbj hbk (h₁.symm.trans (hclient.trans h₃)) (h₂ ▸ hkey)
            (h₄ ▸ hkey')

end Standing

end Vemsa.Jobs
