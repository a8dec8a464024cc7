import Vemsa.Support.Ranks
import Vemsa.Jobs.Persistence

/-!
# Jobs — QueuePosition

The place in the queue that a client is shown, and the order in which jobs are claimed.
`queue_position` counts the queued jobs that come before one by creation time and id; the claim
orders by creation time alone, so among jobs created at one moment the database may take any.  The
positions are the order of service exactly when no two queued jobs were created at one moment, and
every stored request can be read (`queue_in_order`).
-/

namespace Vemsa.Jobs
open Vemsa.Support

/-! ### Positions -/

/-- The collation of the database: a strict order of the texts. -/
structure Collation where
  lt : String → String → Bool
  irrefl : ∀ a, lt a a = false
  trans : ∀ a b c, lt a b = true → lt b c = true → lt a c = true
  total : ∀ a b, a ≠ b → lt a b = true ∨ lt b a = true

/-- Texts ordered by code points. -/
def Collation.codePoints : Collation where
  lt a b := a < b
  irrefl a := by simp
  trans a b c hab hbc := decide_eq_true (lt_trans (of_decide_eq_true hab) (of_decide_eq_true hbc))
  total a b h := by simpa using lt_or_gt_of_ne h

section Source

variable (P : Pydantic) (C : Collation)

/-- The `WHERE` clause of `queue_position`. -/
def Row.ahead (createdAt : Time) (id : JobId) (row : Row) : Bool :=
  row.status = .queued &&
    (row.createdAt < createdAt || (row.createdAt = createdAt && C.lt row.id id))

/-- `queue_position` -/
def queuePosition (jobId : JobId) (clientId : String) (t : Tables) :
    Except ErrorDetails (Option ℕ) := do
  match ← get P jobId (some clientId) t with
  | none => return none
  | some job =>
    if job.status ≠ .queued then return none
    else return some (t.jobs.matched (Row.ahead C job.createdAt job.id) + 1)

/-- What `claim_next_queued` returns: the row of the reply, read. -/
def claimedJob : Reply P → Except ErrorDetails (Option (Job P))
  | .row (some row) => (rowToJob P row).map some
  | _ => .ok none

end Source

/-- The queued jobs. -/
def queued (t : Tables) : List Row := t.jobs.rows.filter fun row => row.status = .queued

/-- The order of the positions. -/
def Row.Before (C : Collation) (a b : Row) : Prop :=
  a.createdAt < b.createdAt ∨ a.createdAt = b.createdAt ∧ C.lt a.id b.id = true

instance (C : Collation) : DecidableRel (Row.Before C) := fun a b =>
  inferInstanceAs (Decidable (a.createdAt < b.createdAt ∨ a.createdAt = b.createdAt ∧ C.lt a.id b.id = true))

instance (C : Collation) : Std.Irrefl (Row.Before C) where
  irrefl a h := by
    rcases h with h | ⟨-, h⟩
    · exact lt_irrefl _ h
    · rw [C.irrefl] at h
      cases h

instance (C : Collation) : IsTrans Row (Row.Before C) where
  trans a b c hab hbc := by
    rcases hab with hab | ⟨hab, hlt⟩ <;> rcases hbc with hbc | ⟨hbc, hlt'⟩
    · exact .inl (hab.trans hbc)
    · exact .inl (hbc ▸ hab)
    · exact .inl (hab ▸ hbc)
    · exact .inr ⟨hab.trans hbc, C.trans _ _ _ hlt hlt'⟩

section Positions

variable {P : Pydantic} {C : Collation} {t : Tables} {row : Row}

theorem mem_queued : row ∈ queued t ↔ row ∈ t.jobs.rows ∧ row.status = .queued := by
  rw [queued, List.mem_filter, decide_eq_true_eq]

/-- Jobs in the queue have different ids, so there are no ties. -/
theorem ranked_queued (C : Collation) (t : Tables) : Ranked (Row.Before C) (queued t) := by
  have hids : t.jobs.rows.Pairwise fun a b => a.id ≠ b.id := List.pairwise_map.mp t.jobs.nodup
  refine (hids.filter _).imp fun {a b} hne => ?_
  rcases lt_trichotomy a.createdAt b.createdAt with h | h | h
  · exact .inl (.inl h)
  · exact (C.total _ _ hne).imp (fun hlt => .inr ⟨h, hlt⟩) fun hlt => .inr ⟨h.symm, hlt⟩
  · exact .inr (.inl h)

theorem matched_ahead (C : Collation) (t : Tables) (row : Row) :
    t.jobs.matched (Row.ahead C row.createdAt row.id) = rank (Row.Before C) (queued t) row := by
  rw [Table.matched, rank, queued, List.countP_filter]
  refine List.countP_congr fun r _ => ?_
  simp only [Row.ahead, Bool.and_eq_true, Bool.or_eq_true, decide_eq_true_eq]
  exact and_comm

/-- What `_row_to_job` copies from the columns. -/
theorem rowToJob_columns {job : Job P} (h : rowToJob P row = .ok job) :
    job.id = row.id ∧ job.clientId = row.clientId ∧ job.status = row.status ∧
      job.createdAt = row.createdAt := by
  unfold rowToJob at h
  split at h
  · cases h
  · obtain rfl := Except.ok.inj h
    exact ⟨rfl, rfl, rfl, rfl⟩

/-- The position of a queued job is its rank, if its request can be read. -/
theorem queuePosition_queued (hrow : row ∈ queued t) :
    queuePosition P C row.id row.clientId t =
      (rowToJob P row).map fun _ => some (rank (Row.Before C) (queued t) row + 1) := by
  obtain ⟨hmem, hstatus⟩ := mem_queued.mp hrow
  have hget : get P row.id (some row.clientId) t = (rowToJob P row).map some := by
    rw [get, Table.get?_of_mem hmem]
    simp [Option.filter]
  rw [queuePosition, hget]
  cases hjob : rowToJob P row with
  | error e => rfl
  | ok job =>
      obtain ⟨hid, -, hst, hcreated⟩ := rowToJob_columns hjob
      simp only [Except.map, except_ok_bind, hst, hstatus, ne_eq, not_true_eq_false, if_false, hcreated,
        hid, matched_ahead]
      rfl

/-- Only queued jobs have a position. -/
theorem queuePosition_eq_some {j : JobId} {clientId : String} {p : ℕ}
    (h : queuePosition P C j clientId t = .ok (some p)) :
    ∃ row ∈ queued t, row.id = j ∧ row.clientId = clientId ∧
      p = rank (Row.Before C) (queued t) row + 1 := by
  obtain ⟨row, hrow, hid, hclient⟩ : ∃ row ∈ queued t, row.id = j ∧ row.clientId = clientId := by
    rw [queuePosition, except_bind_eq_ok] at h
    obtain ⟨found, hget, h⟩ := h
    cases found with
    | none => cases h
    | some job =>
        rw [get] at hget
        split at hget
        · cases hget
        · rename_i row hrow
          obtain ⟨hrow, hclient⟩ := Option.filter_eq_some_iff.mp hrow
          cases hjob : rowToJob P row with
          | error e =>
              rw [hjob] at hget
              cases hget
          | ok job' =>
              rw [hjob] at hget
              obtain rfl := Option.some.inj (Except.ok.inj hget)
              obtain ⟨-, -, hst, -⟩ := rowToJob_columns hjob
              by_cases hqueued : job'.status = .queued
              · obtain ⟨hmem, hid⟩ := Table.get?_eq_some_iff.mp hrow
                exact ⟨row, mem_queued.mpr ⟨hmem, hst ▸ hqueued⟩, hid, by simpa using hclient⟩
              · dsimp only at h
                rw [if_pos hqueued] at h
                cases h
  refine ⟨row, hrow, hid, hclient, ?_⟩
  rw [← hid, ← hclient, queuePosition_queued hrow] at h
  cases hjob : rowToJob P row with
  | error e =>
      rw [hjob] at h
      cases h
  | ok job =>
      rw [hjob] at h
      exact (Option.some.inj (Except.ok.inj h)).symm

end Positions

/-! ### Claims -/

/-- No lease has lapsed, and no queued job is in its cool-down. -/
def AllReady (now : Time) (t : Tables) : Prop :=
  ∀ row ∈ t.jobs.rows,
    (row.status = .running → ∀ expires ∈ row.leaseExpiresAt, now ≤ expires) ∧
      (row.status = .queued → ∀ retryAfter ∈ row.retryAfter, retryAfter ≤ now)

section Claims

variable {P : Pydantic} {C : Collation} {t t' : Tables} {row : Row} {worker : WorkerId}
  {now leaseForS : Time} {locked : List JobId} {pick : Option JobId} {o : Option Row}

/-- At such a moment exactly the queued jobs can be claimed. -/
theorem candidates_ready (hready : AllReady now t) (hfree : ∀ row ∈ queued t, row.id ∉ locked) :
    candidates t now [] locked = queued t := by
  refine List.filter_congr fun r hr => ?_
  obtain ⟨hlease, hretry⟩ := hready r hr
  by_cases hq : r.status = .queued
  · have hout : r.id ∉ locked := hfree r (mem_queued.mpr ⟨hr, hq⟩)
    have hcool : r.retryAfter.all (· ≤ now) = true := by
      rw [Option.all_eq_true]
      exact fun a ha => decide_eq_true (hretry hq a ha)
    simp [Row.claimable, hq, hcool, hout]
  · have hlapsed : r.status = .running → r.leaseExpiresAt.any (· < now) = false := fun hrun => by
      rw [Option.any_eq_false]
      exact fun a ha => decide_eq_false (not_lt.mpr (hlease hrun a ha))
    by_cases hrun : r.status = .running
    · simp [Row.claimable, hrun, hlapsed hrun]
    · simp [Row.claimable, hq, hrun]

/-- A claim takes one job out of the queue and leaves the others. -/
theorem queued_claim (hrow : row ∈ queued t) (hf : ∀ r, (Row.claim worker now leaseForS r).id = r.id) :
    (queued t).Perm (row :: queued { t with
      jobs := t.jobs.update (fun r => some r.id = some row.id) (Row.claim worker now leaseForS) hf }) := by
  obtain ⟨hmem, hstatus⟩ := mem_queued.mp hrow
  obtain ⟨front, back, hrows⟩ := List.append_of_mem hmem
  have hnodup := t.jobs.nodup
  rw [hrows, List.map_append, List.map_cons, List.nodup_middle, List.nodup_cons, ← List.map_append]
    at hnodup
  have hkept : ∀ r ∈ front ++ back, (if some r.id = some row.id then r.claim worker now leaseForS else r) = r :=
    fun r hr => if_neg fun heq => hnodup.1 (by
      rw [← Option.some.inj heq]
      exact List.mem_map_of_mem hr)
  have hfront := List.map_congr_left fun r hr => hkept r (List.mem_append_left _ hr)
  have hback := List.map_congr_left fun r hr => hkept r (List.mem_append_right _ hr)
  rw [List.map_id'] at hfront hback
  have hclaimed : (row.claim worker now leaseForS).status ≠ .queued := by simp [Row.claim]
  show (t.jobs.rows.filter _).Perm (row :: (t.jobs.rows.map _).filter _)
  rw [hrows]
  simp only [decide_eq_true_eq, List.map_append, List.map_cons, hfront, hback, if_true,
    List.filter_append, List.filter_cons, hstatus, hclaimed, decide_true, decide_false,
    Bool.false_eq_true, if_false]
  exact List.perm_middle

/-- **A claim at such a moment**: any of the oldest jobs leaves the queue, if there is one. -/
theorem claim_ready (hready : AllReady now t) (hfree : ∀ row ∈ queued t, row.id ∉ locked)
    (h : claimNextQueued worker now leaseForS [] locked pick t = some (t', o)) :
    (queued t = [] ∧ queued t' = []) ∨
      ∃ row ∈ queued t, pick = some row.id ∧ (∀ r ∈ queued t, row.createdAt ≤ r.createdAt) ∧
        (queued t).Perm (row :: queued t') ∧ o = some (row.claim worker now leaseForS) := by
  have hcases := claim_cases h
  unfold claimNextQueued at h
  split at h
  · rename_i hpick
    obtain ⟨rfl, -⟩ := Prod.mk.inj (Option.some.inj h)
    rw [mayPick.eq_def, candidates_ready hready hfree] at hpick
    cases pick with
    | none =>
        have hnil : queued t = [] := List.isEmpty_iff.mp hpick
        have hsame : t.jobs.update (fun r => some r.id = none) (Row.claim worker now leaseForS)
            (fun _ => rfl) = t.jobs :=
          Table.update_of_matched_zero (Table.matched_eq_zero_iff.mpr fun r _ => by simp)
        exact .inl ⟨hnil, by rw [hsame]; exact hnil⟩
    | some j =>
        obtain ⟨row, hrow, hp⟩ := List.any_eq_true.mp hpick
        simp only [Bool.and_eq_true, decide_eq_true_eq, List.all_eq_true] at hp
        obtain ⟨rfl, hmin⟩ := hp
        obtain ⟨j, row', hj, hget, -, -, rfl⟩ := hcases.resolve_left (by simp)
        obtain rfl := Option.some.inj hj
        rw [Table.get?_of_mem (mem_queued.mp hrow).1] at hget
        obtain rfl := Option.some.inj hget
        exact .inr ⟨row, hrow, rfl, hmin, queued_claim hrow fun _ => rfl, rfl⟩
  · cases h

/-- The database may take any of the oldest jobs. -/
theorem claim_enabled (hready : AllReady now t) (hfree : ∀ row ∈ queued t, row.id ∉ locked)
    (hrow : row ∈ queued t) (hmin : ∀ r ∈ queued t, row.createdAt ≤ r.createdAt) :
    ∃ x, claimNextQueued worker now leaseForS [] locked (some row.id) t = some x := by
  have hpick : mayPick t now [] locked (some row.id) = true := by
    rw [mayPick, candidates_ready hready hfree, List.any_eq_true]
    refine ⟨row, hrow, ?_⟩
    simp only [decide_true, Bool.true_and, List.all_eq_true, decide_eq_true_eq]
    exact hmin
  exact ⟨_, if_pos hpick⟩

/-- When the first one leaves, everyone else moves up. -/
theorem rank_moved (hperm : (queued t).Perm (row :: queued t'))
    (hfirst : rank (Row.Before C) (queued t) row = 0) {r : Row} (hr : r ∈ queued t') :
    rank (Row.Before C) (queued t) r = rank (Row.Before C) (queued t') r + 1 := by
  have hranked := (ranked_queued C t).perm hperm
  have hne : r ≠ row := fun heq => (List.nodup_cons.mp hranked.nodup).1 (heq ▸ hr)
  rw [rank_perm hperm] at hfirst
  rw [rank_perm hperm, rank_cons,
    if_pos (hranked.first_before List.mem_cons_self hfirst (List.mem_cons_of_mem row hr) hne)]

end Claims

/-! ### The order of service -/

section Service

variable (P : Pydantic) (C : Collation)

/-- A claim without exclusions, at a moment when no lease has lapsed and no queued job is in its
cool-down, and no other transaction holds a queued job. -/
def IsClaim (x : Entry Db (Call P) (Reply P)) : Prop :=
  ∃ worker now leaseForS locked pick,
    x.event = .claimNextQueued worker now leaseForS [] locked pick ∧ AllReady now x.before.tables ∧
      ∀ row ∈ queued x.before.tables, row.id ∉ locked

/-- **The positions are the order of service.** -/
structure InOrder (s : Db) : Prop where
  /-- the positions of the `n` queued jobs are `1 … n` -/
  shown : ((queued s.tables).map fun row => queuePosition P C row.id row.clientId s.tables).Perm
    ((List.range (queued s.tables).length).map fun k => .ok (some (k + 1)))
  /-- one claim after the other returns the job at position 1, the job at position 2, … -/
  served : ∀ log s', (storeMachine P).Path s log s' → (∀ x ∈ log, IsClaim P x) →
    ∀ (k : ℕ) (hk : k < log.length), k < (queued s.tables).length →
      ∃ job, claimedJob P log[k].reply = .ok (some job) ∧
        queuePosition P C job.id job.clientId s.tables = .ok (some (k + 1))
  /-- and everyone else moves up by one with each -/
  moved : ∀ log s', (storeMachine P).Path s log s' → (∀ x ∈ log, IsClaim P x) →
    ∀ row ∈ queued s'.tables, ∃ p,
      queuePosition P C row.id row.clientId s'.tables = .ok (some p) ∧
        queuePosition P C row.id row.clientId s.tables = .ok (some (p + log.length))

/-- No two queued jobs were created at one moment, and their requests can be read. -/
structure InLine (t : Tables) : Prop where
  untied : (queued t).Pairwise fun a b => a.createdAt ≠ b.createdAt
  readable : ∀ row ∈ queued t, ∃ job, rowToJob P row = .ok job

variable {P C}

/-- **Every position once**, when the requests can be read. -/
theorem shown_of_readable {t : Tables} (hread : ∀ row ∈ queued t, ∃ job, rowToJob P row = .ok job) :
    ((queued t).map fun row => queuePosition P C row.id row.clientId t).Perm
      ((List.range (queued t).length).map fun k => .ok (some (k + 1))) := by
  have hpositions : ((queued t).map fun row => queuePosition P C row.id row.clientId t) =
      ((queued t).map (rank (Row.Before C) (queued t))).map fun k => .ok (some (k + 1)) := by
    rw [List.map_map]
    refine List.map_congr_left fun row hrow => ?_
    obtain ⟨job, hjob⟩ := hread row hrow
    rw [queuePosition_queued hrow, hjob]
    rfl
  rw [hpositions]
  exact (perm_ranks (ranked_queued C t)).map _

/-- Without ties the oldest job is the first. -/
theorem first_of_oldest {t : Tables} {row : Row} (hrow : row ∈ queued t)
    (huntied : (queued t).Pairwise fun a b => a.createdAt ≠ b.createdAt)
    (hmin : ∀ r ∈ queued t, row.createdAt ≤ r.createdAt) :
    rank (Row.Before C) (queued t) row = 0 := by
  refine rank_eq_zero_iff.mpr fun r hr hbefore => ?_
  rcases hbefore with hlt | ⟨heq, hlt⟩
  · exact not_lt.mpr (hmin r hr) hlt
  · have : Std.Symm fun a b : Row => a.createdAt ≠ b.createdAt := ⟨fun _ _ => Ne.symm⟩
    have hsame : r = row := by
      by_contra hne
      exact huntied.forall hr hrow hne heq
    rw [hsame, C.irrefl] at hlt
    cases hlt

theorem rowToJob_claim {row : Row} {job : Job P} (h : rowToJob P row = .ok job) (worker : WorkerId)
    (now leaseForS : Time) : ∃ job', rowToJob P (row.claim worker now leaseForS) = .ok job' := by
  unfold rowToJob at h ⊢
  split at h
  · cases h
  · rename_i request hrequest
    exact ⟨_, by rw [show (row.claim worker now leaseForS).requestJson = row.requestJson from rfl, hrequest]⟩

/-- What is behind the first one moves up when it leaves. -/
theorem position_moved {t t' : Tables} {row : Row} (hperm : (queued t).Perm (row :: queued t'))
    (hfirst : rank (Row.Before C) (queued t) row = 0) {j : JobId} {clientId : String} {p : ℕ}
    (h : queuePosition P C j clientId t' = .ok (some p)) :
    queuePosition P C j clientId t = .ok (some (p + 1)) := by
  obtain ⟨r, hr, rfl, rfl, rfl⟩ := queuePosition_eq_some h
  rw [queuePosition_queued hr] at h
  have hr' : r ∈ queued t := hperm.mem_iff.mpr (List.mem_cons_of_mem row hr)
  rw [queuePosition_queued hr', rank_moved hperm hfirst hr]
  cases hjob : rowToJob P r with
  | error e =>
      rw [hjob] at h
      cases h
  | ok job => rfl

/-- **One claim** serves the job at position 1. -/
theorem inLine_step {x : Entry Db (Call P) (Reply P)} (hclaim : IsClaim P x)
    (hstep : x.event.step x.before = some (x.after, x.reply)) (ho : InLine P x.before.tables) :
    InLine P x.after.tables ∧
      ((queued x.before.tables = [] ∧ queued x.after.tables = []) ∨
        ∃ row job, (queued x.before.tables).Perm (row :: queued x.after.tables) ∧
          rank (Row.Before C) (queued x.before.tables) row = 0 ∧
          claimedJob P x.reply = .ok (some job) ∧
          queuePosition P C job.id job.clientId x.before.tables = .ok (some 1)) := by
  obtain ⟨worker, now, leaseForS, locked, pick, hevent, hready, hfree⟩ := hclaim
  rw [hevent, Call.step, Option.map_eq_some_iff] at hstep
  obtain ⟨⟨t, o⟩, hstep, heq⟩ := hstep
  obtain ⟨hafter, hreply⟩ := Prod.mk.inj heq
  rw [← hafter, ← hreply]
  rcases claim_ready hready hfree hstep with ⟨hnil, hnil'⟩ | ⟨row, hrow, -, hmin, hperm, rfl⟩
  · exact ⟨⟨hnil' ▸ .nil, fun row hrow => absurd hrow (hnil' ▸ List.not_mem_nil)⟩, .inl ⟨hnil, hnil'⟩⟩
  obtain ⟨job, hjob⟩ := ho.readable row hrow
  obtain ⟨job', hjob'⟩ := rowToJob_claim hjob worker now leaseForS
  obtain ⟨hid, hclient, -, -⟩ := rowToJob_columns hjob'
  have hfirst := first_of_oldest (C := C) hrow ho.untied hmin
  have huntied := (hperm.pairwise_iff fun {a b} (h : a.createdAt ≠ b.createdAt) => h.symm).mp ho.untied
  refine ⟨⟨(List.pairwise_cons.mp huntied).2, fun r hr => ho.readable r ?_⟩,
    .inr ⟨row, job', hperm, hfirst, ?_, ?_⟩⟩
  · exact hperm.mem_iff.mpr (List.mem_cons_of_mem row hr)
  · rw [claimedJob, hjob']
    rfl
  · rw [hid, hclient]
    show queuePosition P C row.id row.clientId x.before.tables = _
    rw [queuePosition_queued hrow, hjob, hfirst]
    rfl

/-- **A run of claims.** -/
theorem inOrder_of_inLine {s : Db} (ho : InLine P s.tables) : InOrder P C s := by
  refine ⟨shown_of_readable ho.readable, fun log => ?_, fun log => ?_⟩
  · induction log generalizing s with
    | nil => exact fun _ _ _ k hk => absurd hk (Nat.not_lt_zero k)
    | cons x log ih =>
        intro s' path hclaims k hk hlt
        obtain ⟨rfl, hstep, rest⟩ := path.cons_inv
        obtain ⟨hx, hlog⟩ := List.forall_mem_cons.mp hclaims
        obtain ⟨ho', ⟨hnil, -⟩ | ⟨row, job, hperm, hfirst, hjob, hpos⟩⟩ := inLine_step (C := C) hx hstep ho
        · rw [hnil] at hlt
          exact absurd hlt (Nat.not_lt_zero k)
        · cases k with
          | zero => exact ⟨job, hjob, hpos⟩
          | succ k =>
              rw [hperm.length_eq, List.length_cons] at hlt
              obtain ⟨job, hjob, hpos⟩ := ih ho' s' rest hlog k (Nat.lt_of_succ_lt_succ hk)
                (Nat.lt_of_succ_lt_succ hlt)
              exact ⟨job, hjob, position_moved hperm hfirst hpos⟩
  · induction log generalizing s with
    | nil =>
        intro s' path _ row hrow
        generalize hk : ([] : List (Entry Db (Call P) (Reply P))) = log at path
        cases path with
        | snoc _ _ => simp at hk
        | nil =>
            obtain ⟨job, hjob⟩ := ho.readable row hrow
            refine ⟨rank (Row.Before C) (queued s.tables) row + 1, ?_, ?_⟩ <;>
              rw [queuePosition_queued hrow, hjob] <;> rfl
    | cons x log ih =>
        intro s' path hclaims row hrow
        obtain ⟨rfl, hstep, rest⟩ := path.cons_inv
        obtain ⟨hx, hlog⟩ := List.forall_mem_cons.mp hclaims
        obtain ⟨ho', hcases⟩ := inLine_step (C := C) hx hstep ho
        obtain ⟨p, hp, hmoved⟩ := ih ho' s' rest hlog row hrow
        rcases hcases with ⟨-, hnil⟩ | ⟨first, job, hperm, hfirst, -, -⟩
        · obtain ⟨r, hr, -⟩ := queuePosition_eq_some hmoved
          exact absurd hr (hnil ▸ List.not_mem_nil)
        · exact ⟨p, hp, position_moved hperm hfirst hmoved⟩

/-- What is not first keeps its place behind the first one. -/
theorem position_behind {t t' : Tables} {row : Row} (hperm : (queued t).Perm (row :: queued t'))
    (hfirst : rank (Row.Before C) (queued t) row = 0) {j : JobId} {clientId : String} {p : ℕ}
    (h : queuePosition P C j clientId t = .ok (some (p + 2))) :
    queuePosition P C j clientId t' = .ok (some (p + 1)) := by
  obtain ⟨r, hr, rfl, rfl, hp⟩ := queuePosition_eq_some h
  have hne : r ≠ row := by
    rintro rfl
    omega
  have hr' : r ∈ queued t' := (List.mem_cons.mp (hperm.mem_iff.mp hr)).resolve_left hne
  have hmoved := rank_moved hperm hfirst hr'
  rw [queuePosition_queued hr] at h
  rw [queuePosition_queued hr']
  cases hjob : rowToJob P r with
  | error e =>
      rw [hjob] at h
      cases h
  | ok job =>
      show Except.ok (some _) = _
      rw [show rank (Row.Before C) (queued t') r = p by omega]

/-- Any of the oldest jobs may be served, at once and for a lease of no time at all. -/
theorem oldest_claimed {s : Db} {now : Time} (hready : AllReady now s.tables) {row : Row}
    (hrow : row ∈ queued s.tables) (hmin : ∀ r ∈ queued s.tables, row.createdAt ≤ r.createdAt) :
    ∃ x : Entry Db (Call P) (Reply P), x.before = s ∧ IsClaim P x ∧
      x.event.step x.before = some (x.after, x.reply) ∧
      x.reply = .row (some (row.claim "" now 0)) ∧
      (queued s.tables).Perm (row :: queued x.after.tables) ∧ AllReady now x.after.tables := by
  have hfree : ∀ r ∈ queued s.tables, r.id ∉ ([] : List JobId) := fun _ _ => List.not_mem_nil
  obtain ⟨⟨t, o⟩, hclaim⟩ : ∃ x, claimNextQueued "" now 0 [] [] (some row.id) s.tables = some x :=
    claim_enabled hready hfree hrow hmin
  rcases claim_ready hready hfree hclaim with
    ⟨hnil, -⟩ | ⟨row', hrow', hid, -, hperm, rfl⟩
  · exact absurd hrow (hnil ▸ List.not_mem_nil)
  have hsame : row' = row := by
    have hget := Table.get?_of_mem (mem_queued.mp hrow').1
    rw [← Option.some.inj hid, Table.get?_of_mem (mem_queued.mp hrow).1] at hget
    exact (Option.some.inj hget).symm
  subst hsame
  refine ⟨⟨s, .claimNextQueued "" now 0 [] [] (some row'.id), _, ⟨t, s.drawn⟩⟩, rfl,
    ⟨_, _, _, _, _, rfl, hready, hfree⟩, ?_, rfl, hperm, ?_⟩
  · rw [Call.step, hclaim]
    rfl
  · unfold claimNextQueued at hclaim
    split at hclaim
    · obtain ⟨rfl, -⟩ := Prod.mk.inj (Option.some.inj hclaim)
      intro _ hmem
      obtain ⟨r, hr, rfl⟩ := List.mem_map.mp hmem
      split
      · simp [Row.claim]
      · exact hready r hr
    · cases hclaim

/-- **A tie is served in the wrong order** by some run of claims. -/
theorem untied_of_served {s : Db} {now : Time} (hready : AllReady now s.tables)
    (hread : ∀ row ∈ queued s.tables, ∃ job, rowToJob P row = .ok job)
    (hserved : ∀ log s', (storeMachine P).Path s log s' → (∀ x ∈ log, IsClaim P x) →
      ∀ (k : ℕ) (hk : k < log.length), k < (queued s.tables).length →
        ∃ job, claimedJob P log[k].reply = .ok (some job) ∧
          queuePosition P C job.id job.clientId s.tables = .ok (some (k + 1))) :
    (queued s.tables).Pairwise fun a b => a.createdAt ≠ b.createdAt := by
  generalize hn : (queued s.tables).length = n at hserved
  induction n generalizing s with
  | zero =>
      rw [List.length_eq_zero_iff.mp hn]
      exact .nil
  | succ n ih =>
      have hranked := ranked_queued C s.tables
      have hne : queued s.tables ≠ [] := fun hnil => by simp [hnil] at hn
      obtain ⟨row, hrow, hfirst⟩ := hranked.exists_first hne
      have hmin : ∀ r ∈ queued s.tables, row.createdAt ≤ r.createdAt := fun r hr =>
        not_lt.mp fun hlt => rank_eq_zero_iff.mp hfirst r hr (.inl hlt)
      -- whatever is as old may be served first, and so is at position 1
      have hold : ∀ r ∈ queued s.tables, r.createdAt = row.createdAt → r = row := by
        intro r hr heq
        obtain ⟨x, rfl, hclaim, hstep, hreply, -, -⟩ :=
          oldest_claimed (P := P) hready hr fun r' hr' => heq ▸ hmin r' hr'
        obtain ⟨job, hjob, hpos⟩ := hserved [x] _ (.one hstep) (by simpa using hclaim) 0 (by simp)
          (Nat.succ_pos n)
        obtain ⟨job', hjob'⟩ := hread r hr
        obtain ⟨job'', hjob''⟩ := rowToJob_claim hjob' "" now 0
        rw [List.getElem_cons_zero, hreply, claimedJob, hjob''] at hjob
        obtain rfl := Option.some.inj (Except.ok.inj hjob)
        obtain ⟨hid, hclient, -, -⟩ := rowToJob_columns hjob''
        rw [hid, hclient] at hpos
        have hzero : rank (Row.Before C) (queued x.before.tables) r = 0 := by
          have hpos' := (queuePosition_queued hr).symm.trans hpos
          rw [hjob'] at hpos'
          exact Nat.succ.inj (Option.some.inj (Except.ok.inj hpos'))
        exact hranked.rank_inj hr hrow (hzero.trans hfirst.symm)
      obtain ⟨x, rfl, hclaim, hstep, -, hperm, hready'⟩ := oldest_claimed (P := P) hready hrow hmin
      have hlen := hperm.length_eq
      rw [hn, List.length_cons] at hlen
      have hrest : (queued x.after.tables).Pairwise fun a b => a.createdAt ≠ b.createdAt := by
        refine ih hready' (fun r hr => hread r (hperm.mem_iff.mpr (List.mem_cons_of_mem row hr)))
          (Nat.succ.inj hlen).symm fun log s' path hclaims k hk hlt => ?_
        obtain ⟨job, hjob, hpos⟩ := hserved (x :: log) s' ((Machine.Path.one hstep).append path)
          (List.forall_mem_cons.mpr ⟨hclaim, hclaims⟩) (k + 1) (Nat.succ_lt_succ hk)
          (Nat.succ_lt_succ hlt)
        exact ⟨job, hjob, position_behind hperm hfirst hpos⟩
      have hnodup := (hranked.perm hperm).nodup
      refine (hperm.pairwise_iff fun {a b} (h : a.createdAt ≠ b.createdAt) => h.symm).mpr
        (List.pairwise_cons.mpr ⟨fun r hr heq => ?_, hrest⟩)
      have hr' : r ∈ queued x.before.tables := hperm.mem_iff.mpr (List.mem_cons_of_mem row hr)
      exact (List.nodup_cons.mp hnodup).1 (hold r hr' heq.symm ▸ hr)

theorem readable_of_shown {t : Tables}
    (hshown : ((queued t).map fun row => queuePosition P C row.id row.clientId t).Perm
      ((List.range (queued t).length).map fun k => .ok (some (k + 1)))) :
    ∀ row ∈ queued t, ∃ job, rowToJob P row = .ok job := by
  intro row hrow
  obtain ⟨k, -, hk⟩ := List.mem_map.mp (hshown.mem_iff.mp (List.mem_map_of_mem hrow))
  rw [queuePosition_queued hrow] at hk
  cases hjob : rowToJob P row with
  | error e =>
      rw [hjob] at hk
      cases hk
  | ok job => exact ⟨job, rfl⟩

end Service

/-! ### Runs -/

section Runs

variable {P : Pydantic} {C : Collation} {h : StoreLog P} {s : Db}

/-- The jobs a run submits. -/
def submissions (h : StoreLog P) : List (NewJob P) :=
  h.filterMap fun x =>
    match x.event with
    | .create new _ _ => some new
    | _ => none

/-- They are submitted at different moments, and what is stored of their requests can be read. -/
structure Spread (h : StoreLog P) : Prop where
  moments : (submissions h).Pairwise fun a b => a.now ≠ b.now
  readable : ∀ new ∈ submissions h, ∀ json ∈ new.request.requestJson,
    ∃ request, modelValidate P json = .ok request

/-- The time of creation stays what it was. -/
theorem Change.createdAt {j : JobId} {row row' : Row} {ct : Option Time} {v : Option Verdict}
    (h : Change P j (some row) ct v (some row')) : row'.createdAt = row.createdAt := by
  cases h <;> rfl

/-- **Every row was submitted**, at the time and with the request it shows. -/
theorem row_submitted (run : (storeMachine P).Run h s) {j : JobId} {row : Row}
    (hrow : s.tables.jobs.get? j = some row) :
    ∃ new ∈ submissions h, new.id = j ∧ row.createdAt = new.now ∧
      new.request.requestJson = some row.requestJson := by
  refine Machine.Run.invariant (M := storeMachine P)
    (I := fun h s => ∀ row, s.tables.jobs.get? j = some row → ∃ new ∈ submissions h,
      new.id = j ∧ row.createdAt = new.now ∧ new.request.requestJson = some row.requestJson)
    (fun _ hj => by cases hj) ?_ run row hrow
  intro h s c s' r _ ih hstep row' hrow'
  simp only [submissions, List.filterMap_append, List.mem_append]
  cases hb : s.tables.jobs.get? j with
  | none =>
      obtain ⟨new, a, b, rfl, rfl, hstored⟩ := stored_of_created hstep hb hrow'
      exact ⟨new, .inr (by simp), show new.job.row.id = j from Table.key_of_get? hrow', rfl, hstored⟩
  | some row =>
      obtain ⟨new, hnew, hid, hcreated, hjson⟩ := ih row hb
      have hc := change_step hstep j
      rw [hb, hrow'] at hc
      exact ⟨new, .inl hnew, hid, hc.createdAt.trans hcreated,
        hjson.trans (congrArg some hc.immutable.2.2.1.symm)⟩

theorem inLine_of_spread (run : (storeMachine P).Run h s) (hs : Spread h) : InLine P s.tables := by
  constructor
  · have hids : (queued s.tables).Pairwise fun a b => a.id ≠ b.id :=
      (List.pairwise_map.mp s.tables.jobs.nodup).filter _
    refine hids.imp_of_mem fun {a b} ha hb hne heq => ?_
    obtain ⟨new, hnew, hid, hcreated, -⟩ := row_submitted run (Table.get?_of_mem (mem_queued.mp ha).1)
    obtain ⟨new', hnew', hid', hcreated', -⟩ :=
      row_submitted run (Table.get?_of_mem (mem_queued.mp hb).1)
    have : Std.Symm fun a b : NewJob P => a.now ≠ b.now := ⟨fun _ _ => Ne.symm⟩
    refine hs.moments.forall hnew hnew' (fun hsame => ?_) (hcreated.symm.trans (heq.trans hcreated'))
    exact hne (hid.symm.trans ((congrArg NewJob.id hsame).trans hid'))
  · intro row hrow
    obtain ⟨new, hnew, -, -, hjson⟩ := row_submitted run (Table.get?_of_mem (mem_queued.mp hrow).1)
    obtain ⟨request, hrequest⟩ := hs.readable new hnew _ hjson
    exact ⟨_, by rw [rowToJob, hrequest]⟩

/-- **Queue position is the claim order** exactly when no two queued jobs were created at one moment
and all their requests can be read; and so in every state of a run whose submissions are like that. -/
theorem queue_in_order (run : (storeMachine P).Run h s) {now : Time} (hready : AllReady now s.tables) :
    (InOrder P C s ↔ InLine P s.tables) ∧ (Spread h → InOrder P C s) := by
  refine ⟨⟨fun hin => ?_, inOrder_of_inLine⟩, fun hs => inOrder_of_inLine (inLine_of_spread run hs)⟩
  have hread := readable_of_shown hin.shown
  exact ⟨untied_of_served hready hread hin.served, hread⟩

end Runs

/-- In a fresh queue every job can be claimed. -/
theorem ready_of_fresh {t : Tables} (now : Time)
    (h : t.jobs.rows.all (fun row => row.status = .queued && row.retryAfter.isNone) = true) :
    AllReady now t := by
  intro row hrow
  have hfresh := List.all_eq_true.mp h row hrow
  simp only [Bool.and_eq_true, decide_eq_true_eq, Option.isNone_iff_eq_none] at hfresh
  simp [hfresh]

/-- A job of one client, created at `now`. -/
def plainJob (id : JobId) (now : Time) : NewJob .strict where
  id := id
  clientId := "client"
  now := now
  request := .ofUrl "https://host/a.wav"

/-- Two jobs are created one after the other. -/
def spacedCalls : List (Call .strict) :=
  [.create (plainJob "a" 1) none none, .create (plainJob "b" 0) none none]

theorem queue_in_order_spaced : ∃ h s, (storeMachine .strict).Run h s ∧
    (queued s.tables).length = 2 ∧ InOrder .strict .codePoints s := by
  obtain ⟨h, s, run, hcheck⟩ := Machine.Run.of_exec (storeMachine .strict) spacedCalls
    (fun _ s => s.tables.jobs.rows.all (fun row => row.status = .queued && row.retryAfter.isNone) &&
      (queued s.tables).length = 2 &&
      decide ((queued s.tables).Pairwise fun a b : Row => a.createdAt ≠ b.createdAt) &&
      (queued s.tables).all fun row => (rowToJob .strict row).toOption.isSome)
    (by decide +kernel)
  simp only [Bool.and_eq_true, decide_eq_true_eq, List.all_eq_true] at hcheck
  obtain ⟨⟨⟨hfresh, htwo⟩, huntied⟩, hread⟩ := hcheck
  have hready := ready_of_fresh 1 (List.all_eq_true.mpr fun row hrow => by simpa using hfresh row hrow)
  refine ⟨h, s, run, htwo, (queue_in_order run hready).1.mpr ⟨huntied, fun row hrow => ?_⟩⟩
  have hsome := hread row hrow
  cases hjob : rowToJob .strict row with
  | error e =>
      rw [hjob] at hsome
      cases hsome
  | ok job => exact ⟨job, rfl⟩

/-- Two jobs are created at one moment. -/
def tiedCalls : List (Call .strict) :=
  [.create (plainJob "a" 0) none none, .create (plainJob "b" 0) none none]

/-- The database may serve the one that was shown position 2. -/
theorem tie_overtaken : ∃ h x s, (storeMachine .strict).Run (h ++ [x]) s ∧ IsClaim .strict x ∧
    (claimedJob .strict x.reply).map (Option.map Job.id) = .ok (some "b") ∧
    queuePosition .strict .codePoints "b" "client" x.before.tables = .ok (some 2) ∧
    ¬ InOrder .strict .codePoints x.before := by
  obtain ⟨h, s, run, hcheck⟩ := Machine.Run.of_exec (storeMachine .strict) tiedCalls
    (fun _ s => s.tables.jobs.rows.all (fun row => row.status = .queued && row.retryAfter.isNone) &&
      (queued s.tables).map (fun row => (row.id, row.clientId, row.createdAt)) =
        [("b", "client", 0), ("a", "client", 0)] &&
      (queuePosition .strict .codePoints "b" "client" s.tables).toOption = some (some 2))
    (by decide +kernel)
  simp only [Bool.and_eq_true, decide_eq_true_eq] at hcheck
  obtain ⟨⟨hfresh, hrows⟩, hpos⟩ := hcheck
  have hready := ready_of_fresh 1 hfresh
  obtain ⟨b, rest, hqueued, hb, hrest⟩ := List.map_eq_cons_iff.mp hrows
  obtain ⟨a, _, rfl, ha, hnil⟩ := List.map_eq_cons_iff.mp hrest
  obtain rfl := List.map_eq_nil_iff.mp hnil
  simp only [Prod.mk.injEq] at hb ha
  obtain ⟨hid, hclient, hcreated⟩ := hb
  have hmem : b ∈ queued s.tables := hqueued ▸ List.mem_cons_self
  have hposition : queuePosition .strict .codePoints "b" "client" s.tables = .ok (some 2) := by
    cases hq : queuePosition .strict .codePoints "b" "client" s.tables with
    | error e => rw [hq] at hpos; cases hpos
    | ok o => rw [hq] at hpos; rw [← Option.some.inj hpos]
  obtain ⟨x, rfl, hclaim, hstep, hreply, -, -⟩ := oldest_claimed (P := .strict) hready hmem fun r hr => by
    rw [hqueued, List.mem_cons, List.mem_singleton] at hr
    rcases hr with rfl | rfl
    · exact le_rfl
    · rw [hcreated, ha.2.2]
  refine ⟨h, x, _, run.append (.one hstep), hclaim, ?_, hposition, fun hin => ?_⟩
  · rw [← hid, ← hclient, queuePosition_queued hmem] at hposition
    cases hjob : rowToJob .strict b with
    | error e => rw [hjob] at hposition; cases hposition
    | ok job =>
        obtain ⟨job', hjob'⟩ := rowToJob_claim hjob "" 1 0
        rw [hreply, claimedJob, hjob']
        show Except.ok (some job'.id) = _
        rw [(rowToJob_columns hjob').1]
        exact congrArg (fun id => Except.ok (some id)) hid
  · have huntied := untied_of_served hready (readable_of_shown hin.shown) hin.served
    rw [hqueued] at huntied
    exact (List.pairwise_cons.mp huntied).1 a List.mem_cons_self (hcreated.trans ha.2.2.symm)

end Vemsa.Jobs
