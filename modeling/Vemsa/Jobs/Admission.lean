import Vemsa.Jobs.Attempts
import Vemsa.Jobs.Persistence

/-!
# Jobs — Admission

`create` checks and then inserts, across processes.  What makes that sound is the admission lock:
between the key lookup and the commit nobody else inserts, and no other call adds an active job or
puts a key on one.  `Admission` is that argument as an invariant of the system; `Admitted` is what
a client may rely on in a run, and `admission_iff` says in which runs it may.
-/

namespace Vemsa.Jobs
open Vemsa.Support

variable {P : Pydantic}

/-! ### What a call leaves of keys and counts -/

section Tables

variable {c : Call P} {db db' : Db} {r : Reply P}

/-- Only `create` adds a row. -/
theorem old_row (hstep : c.step db = some (db', r)) (hc : ∀ new a b, c ≠ .create new a b)
    {j : JobId} {row' : Row} (hrow' : db'.tables.jobs.get? j = some row') :
    ∃ row, db.tables.jobs.get? j = some row ∧
      Change P j (some row) (c.claims r j) (c.settles r j) (some row') := by
  have hch := change_step hstep j
  cases hb : db.tables.jobs.get? j with
  | none =>
      obtain ⟨-, -, new, a, b, rfl, -⟩ := not_drawn_of_created hstep hb hrow'
      exact absurd rfl (hc new a b)
  | some row =>
      rw [hb, hrow'] at hch
      exact ⟨row, rfl, hch⟩

/-- **No call but `create` raises a count** of rows by columns it cannot make true. -/
theorem matched_step_le (hstep : c.step db = some (db', r)) (hc : ∀ new a b, c ≠ .create new a b)
    {q : Row → Bool} (hq : ∀ {j row row' ct v}, Change P j (some row) ct v (some row') →
      q row' = true → q row = true) : db'.tables.jobs.matched q ≤ db.tables.jobs.matched q := by
  rcases jobs_step hstep hc with hjobs | ⟨cutoff, -, hjobs⟩
  · rw [hjobs]
    refine Table.matched_update_le fun row hrow hhit hset => ?_
    have hget : db'.tables.jobs.get? row.id = some (c.set row) := by
      rw [hjobs, Table.get?_update, Table.get?_of_mem hrow, Option.map_some, if_pos hhit]
    obtain ⟨row₀, hrow₀, hch⟩ := old_row hstep hc hget
    obtain rfl := Option.some.inj ((Table.get?_of_mem hrow).symm.trans hrow₀)
    exact hq hch hset
  · rw [hjobs]
    exact Table.matched_delete_le ..

/-- A key nobody has is still free. -/
theorem lookUpKey_step (hstep : c.step db = some (db', r)) (hc : ∀ new a b, c ≠ .create new a b)
    {clientId key : String} (hfree : lookUpKey db.tables clientId key = none) :
    lookUpKey db'.tables clientId key = none := by
  refine lookUpKey_eq_none.mpr fun k row' hrow' hclient hkey => ?_
  obtain ⟨row, hrow, hch⟩ := old_row hstep hc hrow'
  obtain ⟨-, hcl, -, hk, -⟩ := hch.immutable
  exact lookUpKey_eq_none.mp hfree k row hrow (hcl ▸ hclient) (hk ▸ hkey)

end Tables

/-! ### Where a submission stands -/

/-- Inside the transaction, and with it the lock. -/
def SubmissionPc.holdsLock : SubmissionPc → Bool
  | locked | lookedUp | counted | inserted => true
  | _ => false

/-- The key was looked up and is free. -/
def SubmissionPc.keyChecked : SubmissionPc → Bool
  | lookedUp | counted | inserted => true
  | _ => false

/-- The active jobs were counted and there is room. -/
def SubmissionPc.roomChecked : SubmissionPc → Bool
  | counted | inserted => true
  | _ => false

/-- What the submission comes to, once that is decided. -/
def SubmissionPc.outcome : SubmissionPc → Option (Except CreateError JobId)
  | admitted id => some (.ok id)
  | refused e => some (.error e)
  | answered r => some r
  | _ => none

theorem SubmissionPc.locked_of_keyChecked {pc : SubmissionPc} (h : pc.keyChecked = true) :
    pc.holdsLock = true := by
  cases pc <;> first | rfl | cases h

theorem SubmissionPc.locked_of_roomChecked {pc : SubmissionPc} (h : pc.roomChecked = true) :
    pc.holdsLock = true := by
  cases pc <;> first | rfl | cases h

def System.outcome (s : System P) (id : JobId) : Option (Except CreateError JobId) :=
  (s.submissions id).bind fun b => b.pc.outcome

/-- One more job of the client fits under both caps. -/
structure Room (st : Settings) (t : Tables) (clientId : String) : Prop where
  global : t.jobs.matched Row.isActive < st.maxQueuedJobs
  client : (t.jobs.matched fun r => r.isActive && r.clientId = clientId) < st.maxQueuedJobsPerClient

theorem room_of_counts {st : Settings} {t : Tables} {clientId : String}
    (h : onCounts (some st.maxQueuedJobs) (some st.maxQueuedJobsPerClient)
      (activeCounts t clientId) = .ok ()) : Room st t clientId := by
  unfold onCounts at h
  split at h
  · cases h
  · rename_i hglobal
    split at h
    · cases h
    · rename_i hclient
      exact ⟨Nat.lt_of_not_le fun hle => hglobal (decide_eq_true hle),
        Nat.lt_of_not_le fun hle => hclient (decide_eq_true hle)⟩

/-! ### The invariant -/

/-- **Admission under the lock.** -/
structure Admission (st : Settings) (s : System P) : Prop where
  submitted : ∀ j b, s.submissions j = some b → b.new.id = j ∧ j ∈ s.drawn
  lock : ∀ j b, s.submissions j = some b → b.pc.holdsLock = true → s.admissionLock = some j
  keyed : ∀ j b, s.submissions j = some b → b.pc.keyChecked = true →
    ∀ key ∈ b.new.job.idempotencyKey, lookUpKey s.db.tables b.new.clientId key = none
  room : ∀ j b, s.submissions j = some b → b.pc.roomChecked = true →
    Room st s.db.tables b.new.clientId
  storable : ∀ j b, s.submissions j = some b → b.pc = .inserted →
    P.Storable b.new.request.fields.texts
  global : s.db.tables.jobs.matched Row.isActive ≤ st.maxQueuedJobs
  client : ∀ clientId, (s.db.tables.jobs.matched fun r => r.isActive && r.clientId = clientId) ≤
    st.maxQueuedJobsPerClient
  drawn : ∀ j ∈ s.db.drawn, s.outcome j = some (.ok j)
  stored : ∀ j row, s.db.tables.jobs.get? j = some row → ∃ b, s.submissions j = some b ∧
    b.pc.outcome = some (.ok j) ∧ row.requestJson = b.new.request.json
  unique : ∀ j b, s.submissions j = some b → b.pc.outcome ≠ some (.error .duplicate)
  upload : ∀ j b, s.submissions j = some b → ∀ p ∈ b.new.audioPath, s.madeFor p = some j
  discarded : ∀ j b r, s.submissions j = some b → b.pc = .answered r → r ≠ .ok j →
    (∀ e, r ≠ .error (.undecodable e)) → r ≠ .error .unstorable →
      ∀ p ∈ b.new.audioPath, s.files p = none

theorem admission_init (st : Settings) : Admission st (System.init P) := by
  constructor <;> first | (intros; contradiction) | exact Nat.zero_le _ | exact fun _ => Nat.zero_le _

section Step

variable {st : Settings} {s s' : System P} {e : Event P} {r : Option (Reply P)}

/-- Steps of other processes: they submit nothing and call anything but `create`. -/
theorem Admission.aside (ha : Admission st s) (hsub : s'.submissions = s.submissions)
    (hlock : s'.admissionLock = s.admissionLock) (hdrawn : s'.drawn = s.drawn)
    (hmade : ∀ p j, s.madeFor p = some j →
      s'.madeFor p = some j ∧ (s.files p = none → s'.files p = none))
    {c : Option (Call P)} (hcall : System.Called c s.db r s'.db)
    (hc : ∀ c₀ ∈ c, ∀ new a b, c₀ ≠ .create new a b) : Admission st s' := by
  have hle : ∀ {q : Row → Bool}, (∀ {j row row' ct v}, Change P j (some row) ct v (some row') →
      q row' = true → q row = true) →
      s'.db.tables.jobs.matched q ≤ s.db.tables.jobs.matched q := by
    intro q hq
    rcases hcall with ⟨-, -, hdb⟩ | ⟨c₀, r₀, hc₀, -, hstep⟩
    · rw [hdb]
    · exact matched_step_le hstep (hc c₀ hc₀) hq
  have hglobal := hle (q := Row.isActive) Change.active
  have hclient := fun clientId => hle (q := fun r => r.isActive && r.clientId = clientId) fun hch h => by
    simp only [Bool.and_eq_true, decide_eq_true_eq] at h ⊢
    exact ⟨hch.active h.1, hch.immutable.2.1 ▸ h.2⟩
  constructor
  case submitted =>
    rw [hsub, hdrawn]; exact ha.submitted
  case lock =>
    rw [hsub, hlock]; exact ha.lock
  case keyed =>
    intro j b hb hpc key hkey
    have hfree := ha.keyed j b (hsub ▸ hb) hpc key hkey
    rcases hcall with ⟨-, -, hdb⟩ | ⟨c₀, r₀, hc₀, -, hstep⟩
    · rwa [hdb]
    · exact lookUpKey_step hstep (hc c₀ hc₀) hfree
  case room =>
    intro j b hb hpc
    obtain ⟨h₁, h₂⟩ := ha.room j b (hsub ▸ hb) hpc
    exact ⟨Nat.lt_of_le_of_lt hglobal h₁, Nat.lt_of_le_of_lt (hclient _) h₂⟩
  case storable =>
    rw [hsub]; exact ha.storable
  case global =>
    exact Nat.le_trans hglobal ha.global
  case client =>
    exact fun clientId => Nat.le_trans (hclient clientId) (ha.client clientId)
  case drawn =>
    intro j hj
    rw [System.outcome, hsub]
    refine ha.drawn j ?_
    rcases hcall with ⟨-, -, hdb⟩ | ⟨c₀, r₀, hc₀, -, hstep⟩
    · rwa [← hdb]
    · refine ((drawn_step hstep j).mp hj).resolve_right ?_
      rintro ⟨new, a, b, hcreate, -⟩
      exact hc c₀ hc₀ new a b hcreate
  case stored =>
    intro j row' hrow'
    rw [hsub]
    rcases hcall with ⟨-, -, hdb⟩ | ⟨c₀, r₀, hc₀, -, hstep⟩
    · exact ha.stored j row' (hdb ▸ hrow')
    · obtain ⟨row, hrow, hch⟩ := old_row hstep (hc c₀ hc₀) hrow'
      rw [hch.immutable.2.2.1]
      exact ha.stored j row hrow
  case unique =>
    rw [hsub]; exact ha.unique
  case upload =>
    exact fun j b hb p hp => (hmade p j (ha.upload j b (hsub ▸ hb) p hp)).1
  case discarded =>
    intro j b r₀ hb hpc hne hund hst p hp
    rw [hsub] at hb
    exact (hmade p j (ha.upload j b hb p hp)).2 (ha.discarded j b r₀ hb hpc hne hund hst p hp)

/-- A submission moves on, the tables as they are. -/
theorem Admission.moved (ha : Admission st s) {new : NewJob P} {pc pc' : SubmissionPc}
    (hsub : s.submissions new.id = some ⟨new, pc⟩)
    (hsub' : s'.submissions = Function.update s.submissions new.id (some ⟨new, pc'⟩))
    (hdb : s'.db = s.db) (hdrawn : s'.drawn = s.drawn) (hmade : s'.madeFor = s.madeFor)
    (hfiles : ∀ p, s.files p = none → s'.files p = none)
    (hlock : pc'.holdsLock = true → s'.admissionLock = some new.id)
    (hothers : s'.admissionLock = s.admissionLock ∨ s.admissionLock = none ∨
      s.admissionLock = some new.id)
    (hkeyed : pc'.keyChecked = true →
      ∀ key ∈ new.job.idempotencyKey, lookUpKey s.db.tables new.clientId key = none)
    (hroom : pc'.roomChecked = true → Room st s.db.tables new.clientId)
    (hstorable : pc' = .inserted → P.Storable new.request.fields.texts)
    (hstored : pc.outcome = some (.ok new.id) → pc'.outcome = some (.ok new.id))
    (hunique : pc'.outcome ≠ some (.error .duplicate))
    (hdiscarded : ∀ r, pc' = .answered r → r ≠ .ok new.id → (∀ e, r ≠ .error (.undecodable e)) →
      r ≠ .error .unstorable → ∀ p ∈ new.audioPath, s'.files p = none) : Admission st s' := by
  have other : ∀ {j b}, s'.submissions j = some b →
      j = new.id ∧ b = ⟨new, pc'⟩ ∨ j ≠ new.id ∧ s.submissions j = some b := fun hb => by
    rw [hsub'] at hb
    exact (update_some_eq_some.mp hb).imp (And.imp_right Eq.symm) id
  constructor
  case submitted =>
    intro j b hb
    rw [hdrawn]
    rcases other hb with ⟨rfl, rfl⟩ | ⟨-, hb⟩
    · exact ⟨rfl, (ha.submitted _ _ hsub).2⟩
    · exact ha.submitted j b hb
  case lock =>
    intro j b hb hpc
    rcases other hb with ⟨rfl, rfl⟩ | ⟨hj, hb⟩
    · exact hlock hpc
    · have hheld := ha.lock j b hb hpc
      rcases hothers with ho | ho | ho
      · rw [ho, hheld]
      · rw [ho] at hheld
        cases hheld
      · rw [ho] at hheld
        exact absurd (Option.some.inj hheld).symm hj
  case keyed =>
    intro j b hb hpc
    rw [hdb]
    rcases other hb with ⟨rfl, rfl⟩ | ⟨-, hb⟩
    · exact hkeyed hpc
    · exact ha.keyed j b hb hpc
  case room =>
    intro j b hb hpc
    rw [hdb]
    rcases other hb with ⟨rfl, rfl⟩ | ⟨-, hb⟩
    · exact hroom hpc
    · exact ha.room j b hb hpc
  case storable =>
    intro j b hb hpc
    rcases other hb with ⟨rfl, rfl⟩ | ⟨-, hb⟩
    · exact hstorable hpc
    · exact ha.storable j b hb hpc
  case global =>
    rw [hdb]; exact ha.global
  case client =>
    rw [hdb]; exact ha.client
  case drawn =>
    intro j hj
    rw [hdb] at hj
    have hout := ha.drawn j hj
    rw [System.outcome, hsub']
    by_cases hj : j = new.id
    · subst hj
      rw [System.outcome, hsub, Option.bind_some] at hout
      rw [Function.update_self, Option.bind_some]
      exact hstored hout
    · rw [Function.update_of_ne hj]
      exact hout
  case stored =>
    intro j row hrow
    rw [hdb] at hrow
    obtain ⟨b, hb, hout, hjson⟩ := ha.stored j row hrow
    rw [hsub']
    by_cases hj : j = new.id
    · subst hj
      obtain rfl := Option.some.inj (hsub.symm.trans hb)
      exact ⟨_, Function.update_self .., hstored hout, hjson⟩
    · exact ⟨b, (Function.update_of_ne hj ..).trans hb, hout, hjson⟩
  case unique =>
    intro j b hb
    rcases other hb with ⟨rfl, rfl⟩ | ⟨-, hb⟩
    · exact hunique
    · exact ha.unique j b hb
  case upload =>
    intro j b hb
    rw [hmade]
    rcases other hb with ⟨rfl, rfl⟩ | ⟨-, hb⟩
    · exact ha.upload _ ⟨new, pc⟩ hsub
    · exact ha.upload j b hb
  case discarded =>
    intro j b r hb hpc hne hund hst p hp
    rcases other hb with ⟨rfl, rfl⟩ | ⟨-, hb⟩
    · exact hdiscarded r hpc hne hund hst p hp
    · exact hfiles p (ha.discarded j b r hb hpc hne hund hst p hp)

/-- What the lookup says of a key that is free. -/
theorem free_of_onKeyRow {job : Job P} {t : Tables} {clientId : String}
    (h : onKeyRow P job (job.idempotencyKey.bind (lookUpKey t clientId)) = .ok none) :
    ∀ key ∈ job.idempotencyKey, lookUpKey t clientId key = none := by
  rintro key hkey
  rw [hkey, Option.bind_some] at h
  unfold onKeyRow at h
  split at h
  · assumption
  · split at h
    · cases h
    · split at h <;> cases h

theorem onKeyRow_not_duplicate {job : Job P} {row : Option Row} {e : CreateError}
    (h : onKeyRow P job row = .error e) : e ≠ .duplicate := by
  rintro rfl
  unfold onKeyRow at h
  split at h
  · cases h
  · split at h
    · cases h
    · split at h <;> cases h

theorem onCounts_not_duplicate {a b : Option ℕ} {counts : ℕ × ℕ} {e : CreateError}
    (h : onCounts a b counts = .error e) : e ≠ .duplicate := by
  rintro rfl
  unfold onCounts at h
  split at h
  · cases h
  · split at h <;> cases h

/-- **No insert is refused**: the key is free, and so is the id. -/
theorem Admission.insert_ne_none (ha : Admission st s) {new : NewJob P} {pc : SubmissionPc}
    (hsub : s.submissions new.id = some ⟨new, pc⟩) (hpc : pc.keyChecked = true) :
    insertJob s.db.tables new.job.row ≠ none := by
  intro hins
  unfold insertJob at hins
  split at hins
  · rename_i hkey
    obtain ⟨key, hk, hsome⟩ := (Option.any_eq_true _ _).mp hkey
    rw [show lookUpKey s.db.tables new.job.row.clientId key = none from
      ha.keyed _ _ hsub hpc key hk] at hsome
    cases hsome
  · obtain ⟨row, hrow⟩ := Table.insert_eq_none_iff.mp (Option.map_eq_none_iff.mp hins)
    obtain ⟨b, hb, hout, -⟩ := ha.stored new.id row hrow
    obtain rfl := Option.some.inj (hsub.symm.trans hb)
    dsimp only at hout
    cases pc <;> first | (cases hpc; done) | cases hout

theorem Admission.statement (ha : Admission st s) {new : NewJob P} {pc : SubmissionPc}
    {statement : Statement} (hsub : s.submissions new.id = some ⟨new, pc⟩)
    (hs : System.OnStatement st s new pc statement s') : Admission st s' := by
  have held : pc.holdsLock = true → s.admissionLock = some new.id := ha.lock _ _ hsub
  cases hs with
  | locked hlock =>
      refine ha.moved hsub rfl rfl rfl rfl (fun _ h => h) (fun _ => rfl) (.inr (.inl hlock))
        ?_ ?_ ?_ ?_ ?_ ?_ <;> first | (rintro ⟨⟩; done) | rintro _ ⟨⟩
  | keyFailed e hrow =>
      refine ha.moved hsub rfl rfl rfl rfl (fun _ h => h) ?_ (.inr (.inr (held rfl))) ?_ ?_ ?_ ?_
        (fun h => onKeyRow_not_duplicate hrow (Except.error.inj (Option.some.inj h))) ?_ <;>
          first | (rintro ⟨⟩; done) | rintro _ ⟨⟩
  | keyFound original hrow =>
      refine ha.moved hsub rfl rfl rfl rfl (fun _ h => h) ?_ (.inr (.inr (held rfl)))
        ?_ ?_ ?_ ?_ ?_ ?_ <;> first | (rintro ⟨⟩; done) | rintro _ ⟨⟩
  | keyNew hrow =>
      refine ha.moved hsub rfl rfl rfl rfl (fun _ h => h) (fun _ => held rfl) (.inl rfl)
        (fun _ => free_of_onKeyRow hrow) ?_ ?_ ?_ ?_ ?_ <;> first | (rintro ⟨⟩; done) | rintro _ ⟨⟩
  | full e hcounts =>
      refine ha.moved hsub rfl rfl rfl rfl (fun _ h => h) ?_ (.inr (.inr (held rfl))) ?_ ?_ ?_ ?_
        (fun h => onCounts_not_duplicate hcounts (Except.error.inj (Option.some.inj h))) ?_ <;>
          first | (rintro ⟨⟩; done) | rintro _ ⟨⟩
  | counted hcounts =>
      refine ha.moved hsub rfl rfl rfl rfl (fun _ h => h) (fun _ => held rfl) (.inl rfl)
        (fun _ => ha.keyed _ _ hsub rfl) (fun _ => room_of_counts hcounts) ?_ ?_ ?_ ?_ <;>
          first | (rintro ⟨⟩; done) | rintro _ ⟨⟩
  | unstorable hrequest =>
      refine ha.moved hsub rfl rfl rfl rfl (fun _ h => h) ?_ (.inr (.inr (held rfl)))
        ?_ ?_ ?_ ?_ ?_ ?_ <;> first | (rintro ⟨⟩; done) | rintro _ ⟨⟩
  | duplicate hins => exact absurd hins (ha.insert_ne_none hsub rfl)
  | inserted t hrequest hins =>
      refine ha.moved hsub rfl rfl rfl rfl (fun _ h => h) (fun _ => held rfl) (.inl rfl)
        (fun _ => ha.keyed _ _ hsub rfl) (fun _ => ha.room _ _ hsub rfl)
        (fun _ => onRequest_eq_ok.mp hrequest) ?_ ?_ ?_ <;>
          first | (rintro ⟨⟩; done) | rintro _ ⟨⟩
  | admitted id =>
      have hu := ha.unique _ _ hsub
      by_cases hid : id = new.id
      · rw [if_pos hid]
        refine ha.moved hsub rfl rfl rfl rfl (fun _ h => h) (by rintro ⟨⟩) (.inl rfl) (by rintro ⟨⟩)
          (by rintro ⟨⟩) (by rintro ⟨⟩) (fun h => h) hu fun r hr hne => ?_
        obtain rfl := SubmissionPc.answered.inj hr
        exact absurd (congrArg Except.ok hid) hne
      · rw [if_neg hid]
        refine ha.moved hsub rfl rfl rfl rfl
          (fun p h => by simp [System.unlink, System.setSubmission, h]) (by rintro ⟨⟩) (.inl rfl)
          (by rintro ⟨⟩) (by rintro ⟨⟩) (by rintro ⟨⟩) (fun h => h) hu
          fun r hr hne hund hst p hp => ?_
        simp [System.unlink, System.setSubmission, Option.mem_def.mp hp]
  | refused e =>
      have hu := ha.unique _ _ hsub
      cases href : e.isRefusal with
      | true =>
          refine ha.moved hsub rfl rfl rfl rfl
            (fun p h => by simp [System.unlink, System.setSubmission, h]) (by rintro ⟨⟩) (.inl rfl)
            (by rintro ⟨⟩) (by rintro ⟨⟩) (by rintro ⟨⟩) (fun h => h) hu
            fun r hr hne hund hst p hp => ?_
          simp [System.unlink, System.setSubmission, Option.mem_def.mp hp]
      | false =>
          refine ha.moved hsub rfl rfl rfl rfl (fun _ h => h) (by rintro ⟨⟩) (.inl rfl)
            (by rintro ⟨⟩) (by rintro ⟨⟩) (by rintro ⟨⟩) (fun h => h) hu
            fun r hr hne hund hst p hp => ?_
          obtain rfl := SubmissionPc.answered.inj hr
          cases e with
          | undecodable e => exact absurd rfl (hund e)
          | unstorable => exact absurd rfl hst
          | duplicate => exact absurd rfl hu
          | _ => cases href

/-- A submission begins. -/
theorem Admission.begun (ha : Admission st s) {new : NewJob P} (hid : new.id ∉ s.drawn)
    (hsub' : s'.submissions = Function.update s.submissions new.id (some ⟨new, .waiting⟩))
    (hdrawn' : s'.drawn = new.id :: s.drawn) (hdb : s'.db = s.db)
    (hlock : s'.admissionLock = s.admissionLock)
    (hmade : ∀ p j, s.madeFor p = some j →
      s'.madeFor p = some j ∧ (s.files p = none → s'.files p = none))
    (hupload : ∀ p ∈ new.audioPath, s'.madeFor p = some new.id) : Admission st s' := by
  have other : ∀ {j b}, s'.submissions j = some b →
      j = new.id ∧ b = ⟨new, .waiting⟩ ∨ s.submissions j = some b := fun hb => by
    rw [hsub'] at hb
    exact (update_some_eq_some.mp hb).imp (And.imp_right Eq.symm) And.right
  have keeps : ∀ {j b}, s.submissions j = some b → s'.submissions j = some b := fun {j b} hb => by
    rw [hsub', Function.update_of_ne]
    · exact hb
    · rintro rfl
      exact hid (ha.submitted _ _ hb).2
  constructor
  case submitted =>
    intro j b hb
    rw [hdrawn']
    rcases other hb with ⟨rfl, rfl⟩ | hb
    · exact ⟨rfl, List.mem_cons_self⟩
    · exact (ha.submitted j b hb).imp_right (List.mem_cons_of_mem _)
  case lock =>
    intro j b hb hpc
    rw [hlock]
    rcases other hb with ⟨rfl, rfl⟩ | hb
    · cases hpc
    · exact ha.lock j b hb hpc
  case keyed =>
    intro j b hb hpc
    rw [hdb]
    rcases other hb with ⟨rfl, rfl⟩ | hb
    · cases hpc
    · exact ha.keyed j b hb hpc
  case room =>
    intro j b hb hpc
    rw [hdb]
    rcases other hb with ⟨rfl, rfl⟩ | hb
    · cases hpc
    · exact ha.room j b hb hpc
  case storable =>
    intro j b hb hpc
    rcases other hb with ⟨rfl, rfl⟩ | hb
    · cases hpc
    · exact ha.storable j b hb hpc
  case global =>
    rw [hdb]; exact ha.global
  case client =>
    rw [hdb]; exact ha.client
  case drawn =>
    intro j hj
    rw [hdb] at hj
    obtain ⟨b, hb, hout⟩ := Option.bind_eq_some_iff.mp (ha.drawn j hj)
    exact Option.bind_eq_some_iff.mpr ⟨b, keeps hb, hout⟩
  case stored =>
    intro j row hrow
    rw [hdb] at hrow
    obtain ⟨b, hb, hrest⟩ := ha.stored j row hrow
    exact ⟨b, keeps hb, hrest⟩
  case unique =>
    intro j b hb
    rcases other hb with ⟨rfl, rfl⟩ | hb
    · exact nofun
    · exact ha.unique j b hb
  case upload =>
    intro j b hb p hp
    rcases other hb with ⟨rfl, rfl⟩ | hb
    · exact hupload p hp
    · exact (hmade p j (ha.upload j b hb p hp)).1
  case discarded =>
    intro j b r hb hpc hne hund hst p hp
    rcases other hb with ⟨rfl, rfl⟩ | hb
    · cases hpc
    · exact (hmade p j (ha.upload j b hb p hp)).2 (ha.discarded j b r hb hpc hne hund hst p hp)

/-- **The commit inserts the row**: nobody took the key in between. -/
theorem Admission.inserted (ha : Admission st s) {new : NewJob P} {db : Db} {job : Job P}
    (hsub : s.submissions new.id = some ⟨new, .inserted⟩)
    (hdb : (Call.create new none none).step s.db = some (db, .created (.ok job))) :
    insertJob s.db.tables new.job.row = some db.tables := by
  rw [Call.step] at hdb
  split at hdb
  · cases hdb
  · split at hdb
    · cases hdb
    · rename_i t job' hc
      obtain ⟨rfl, -⟩ := Prod.mk.inj (Option.some.inj hdb)
      rcases create_cases hc with ⟨rfl, key, hkey, row, hrow, -⟩ | ⟨-, hins, -⟩
      · have hnone := ha.keyed _ _ hsub rfl key hkey
        rw [show lookUpKey s.db.tables new.clientId key = some row from hrow] at hnone
        cases hnone
      · exact hins

/-- and is never refused. -/
theorem Admission.commit_enabled (ha : Admission st s) {new : NewJob P}
    (hsub : s.submissions new.id = some ⟨new, .inserted⟩) :
    ∃ db, (Call.create new none none).step s.db = some (db, .created (.ok new.job)) := by
  have hfree : new.job.idempotencyKey.bind (lookUpKey s.db.tables new.clientId) = none :=
    Option.bind_eq_none_iff.mpr (ha.keyed _ _ hsub rfl)
  have hnew : new.id ∉ s.db.drawn := fun hd => by
    have hout := ha.drawn _ hd
    rw [System.outcome, hsub] at hout
    cases hout
  obtain ⟨t, ht⟩ := Option.ne_none_iff_exists'.mp (ha.insert_ne_none hsub rfl)
  have hstorable := ha.storable _ _ hsub rfl
  have hrequest : onRequest new.job.request = .ok () := onRequest_eq_ok.mpr hstorable
  have hcreate : create P new.job none none s.db.tables = .ok (t, new.job) := by
    have hrow : onKeyRow P new.job
        (new.job.idempotencyKey.bind (lookUpKey s.db.tables new.job.clientId)) = .ok none := by
      rw [show new.job.clientId = new.clientId from rfl, hfree]
      rfl
    simp [create, hrow, onCounts, hrequest, ht, bind, Except.bind, pure, Except.pure]
  exact ⟨⟨t, new.id :: s.db.drawn⟩, by simp [Call.step, hnew, hcreate]⟩

theorem Admission.commit (ha : Admission st s) {new : NewJob P} {db : Db} {job : Job P}
    (hsub : s.submissions new.id = some ⟨new, .inserted⟩)
    (hdb : (Call.create new none none).step s.db = some (db, .created (.ok job))) :
    Admission st ({ s with db }.unlock.setSubmission new (.admitted new.id)) := by
  obtain ⟨hnone, hget, hcount, -⟩ := insertJob_eq_some (ha.inserted hsub hdb)
  obtain ⟨-, hdrawn, -⟩ := create_step hdb
  have hroom := ha.room _ _ hsub rfl
  have other : ∀ {j b}, Function.update s.submissions new.id (some ⟨new, .admitted new.id⟩) j =
      some b → j = new.id ∧ b = ⟨new, .admitted new.id⟩ ∨ j ≠ new.id ∧ s.submissions j = some b :=
    fun hb => (update_some_eq_some.mp hb).imp (And.imp_right Eq.symm) id
  -- whoever else were inside the transaction would hold the lock
  have outside : ∀ {j b}, Function.update s.submissions new.id (some ⟨new, .admitted new.id⟩) j =
      some b → b.pc.holdsLock = false := fun {j b} hb => by
    rcases other hb with ⟨-, rfl⟩ | ⟨hj, hb⟩
    · rfl
    · refine Bool.eq_false_iff.mpr fun hpc => hj ?_
      exact Option.some.inj ((ha.lock j b hb hpc).symm.trans (ha.lock _ _ hsub rfl))
  constructor
  case submitted =>
    intro j b hb
    rcases other hb with ⟨rfl, rfl⟩ | ⟨-, hb⟩
    · exact ha.submitted _ ⟨new, .inserted⟩ hsub
    · exact ha.submitted j b hb
  case lock =>
    intro j b hb hpc
    exact absurd (outside hb) (by simp [hpc])
  case keyed =>
    intro j b hb hpc
    exact absurd (outside hb) (by simp [SubmissionPc.locked_of_keyChecked hpc])
  case room =>
    intro j b hb hpc
    exact absurd (outside hb) (by simp [SubmissionPc.locked_of_roomChecked hpc])
  case storable =>
    intro j b hb hpc
    exact absurd (outside hb) (by simp [hpc, SubmissionPc.holdsLock])
  case global =>
    exact (hcount _).trans_le (hroom.global)
  case client =>
    intro clientId
    refine (hcount _).trans_le ?_
    by_cases hclient : new.clientId = clientId
    · subst hclient
      have hle : ∀ q : Bool, (if q = true then 1 else 0) ≤ 1 := by decide
      exact Nat.le_trans (Nat.add_le_add_left (hle _) _) hroom.client
    · rw [if_neg (by simp [Job.row, NewJob.job, hclient]), Nat.add_zero]
      exact ha.client clientId
  case drawn =>
    intro j hj
    replace hj : j ∈ db.drawn := hj
    rw [hdrawn] at hj
    by_cases he : j = new.id
    · subst he
      simp [System.outcome, System.setSubmission, SubmissionPc.outcome]
    · simp only [System.outcome, System.setSubmission, System.unlock, Function.update_of_ne he]
      exact ha.drawn j ((List.mem_cons.mp hj).resolve_left he)
  case stored =>
    intro j row hrow
    replace hrow : db.tables.jobs.get? j = some row := hrow
    rw [hget] at hrow
    by_cases he : new.id = j
    · subst he
      obtain rfl := Option.some.inj ((if_pos rfl).symm.trans hrow)
      exact ⟨_, Function.update_self .., rfl, rfl⟩
    · obtain ⟨b, hb, hrest⟩ := ha.stored j row ((if_neg he).symm.trans hrow)
      exact ⟨b, (Function.update_of_ne (Ne.symm he) ..).trans hb, hrest⟩
  case unique =>
    intro j b hb
    rcases other hb with ⟨rfl, rfl⟩ | ⟨-, hb⟩
    · rintro ⟨⟩
    · exact ha.unique j b hb
  case upload =>
    intro j b hb
    rcases other hb with ⟨rfl, rfl⟩ | ⟨-, hb⟩
    · exact ha.upload _ ⟨new, .inserted⟩ hsub
    · exact ha.upload j b hb
  case discarded =>
    intro j b r hb hpc
    rcases other hb with ⟨rfl, rfl⟩ | ⟨-, hb⟩
    · cases hpc
    · exact ha.discarded j b r hb hpc

theorem Task.call_ne_create {t : Task P} {act : Act} {c : Call P} (hc : t.call act = some c)
    (new : NewJob P) (a b : Option ℕ) : c ≠ .create new a b := by
  rintro rfl
  unfold Task.call at hc
  split at hc
  case h_2 =>
    obtain ⟨path, -, hcreate⟩ := Option.map_eq_some_iff.mp hc
    cases hcreate
  all_goals cases hc

/-- Only a submission calls `create`. -/
theorem Event.call_ne_create (he : ∀ id statement, e ≠ .create id statement) {c : Call P}
    (hc : c ∈ e.call s) (new : NewJob P) (a b : Option ℕ) : c ≠ .create new a b := by
  cases e with
  | create id statement => exact absurd rfl (he id statement)
  | task n act =>
      obtain ⟨t, -, hcall⟩ := Option.bind_eq_some_iff.mp hc
      exact Task.call_ne_create hcall new a b
  | background c' =>
      simp only [Event.call, Option.mem_def] at hc
      split at hc
      · rename_i hbg
        obtain rfl := Option.some.inj hc
        rintro rfl
        cases hbg
      · cases hc
  | _ =>
      simp only [Event.call, Option.mem_def] at hc
      repeat' split at hc
      all_goals first
        | (cases hc; done)
        | (obtain rfl := Option.some.inj hc; rintro ⟨⟩)

theorem Admission.step (ha : Admission st s) (hstep : s.step st e = some (s', r)) :
    Admission st s' := by
  have h := System.step_cases hstep
  have hmade : ∀ p j, s.madeFor p = some j →
      s'.madeFor p = some j ∧ (s.files p = none → s'.files p = none) := fun p j hp => h.madeFor hp
  have hdb := System.step_db hstep
  have hcall : (∀ id statement, e ≠ .create id statement) → ∀ c ∈ e.call s, ∀ new a b,
      c ≠ .create new a b := fun he c hc => Event.call_ne_create he hc
  cases h with
  | submit new mtime hid haudio =>
      exact ha.begun hid rfl rfl rfl rfl hmade fun p hp => by rw [haudio] at hp; cases hp
  | upload new mtime path hid haudio hpath =>
      refine ha.begun hid rfl rfl rfl rfl hmade fun p hp => ?_
      obtain rfl := Option.some.inj (haudio.symm.trans hp)
      exact Function.update_self ..
  | statement id statement new pc s' hsub hs =>
      obtain rfl := (ha.submitted _ _ hsub).1
      exact ha.statement hsub hs
  | commit id new db job hsub hcreate =>
      obtain rfl := (ha.submitted _ _ hsub).1
      exact ha.commit hsub hcreate
  | leave n t d =>
      cases d <;> exact ha.aside rfl rfl rfl hmade hdb (hcall nofun)
  | sweep now path mtime =>
      exact ha.aside (by split <;> rfl) (by split <;> rfl) (by split <;> rfl) hmade hdb (hcall nofun)
  | _ => exact ha.aside rfl rfl rfl hmade hdb (hcall nofun)

/-- What a submission has come to stays so. -/
theorem Admission.outcome_step (ha : Admission st s) (h : System.Step st s e r s') {j : JobId}
    {o : Except CreateError JobId} (hj : s.outcome j = some o) : s'.outcome j = some o := by
  obtain ⟨b, hb, hout⟩ := Option.bind_eq_some_iff.mp hj
  have moved : ∀ {new : NewJob P} {pc pc' : SubmissionPc} {t : System P},
      t.submissions = Function.update s.submissions new.id (some ⟨new, pc'⟩) →
      s.submissions new.id = some ⟨new, pc⟩ → (∀ o, pc.outcome = some o → pc'.outcome = some o) →
      t.outcome j = some o := by
    intro new pc pc' t ht hsub hpc
    rw [System.outcome, ht]
    by_cases he : j = new.id
    · subst he
      obtain rfl := Option.some.inj (hsub.symm.trans hb)
      rw [Function.update_self, Option.bind_some]
      exact hpc o hout
    · rw [Function.update_of_ne he]
      exact hj
  have begun : ∀ {new : NewJob P} {t : System P}, new.id ∉ s.drawn →
      t.submissions = Function.update s.submissions new.id (some ⟨new, .waiting⟩) →
      t.outcome j = some o := by
    intro new t hid ht
    rw [System.outcome, ht, Function.update_of_ne]
    · exact hj
    · rintro rfl
      exact hid (ha.submitted _ _ hb).2
  cases h with
  | submit new mtime hid => exact begun hid rfl
  | upload new mtime path hid => exact begun hid rfl
  | commit id new db job hsub hdb =>
      obtain rfl := (ha.submitted _ _ hsub).1
      exact moved rfl hsub nofun
  | statement id statement new pc s' hsub hs =>
      obtain rfl := (ha.submitted _ _ hsub).1
      cases hs with
      | admitted id =>
          split <;> exact moved rfl hsub fun _ h => h
      | refused e =>
          split <;> exact moved rfl hsub fun _ h => h
      | _ => exact moved rfl hsub nofun
  | leave n t d => cases d <;> exact hj
  | sweep => split <;> exact hj
  | _ => exact hj

end Step

/-- **In every run the lock keeps admission sound.** -/
theorem admission {st : Settings} {h : SystemLog P} {s : System P}
    (run : (systemMachine P st).Run h s) : Admission st s :=
  Machine.Run.invariant (M := systemMachine P st) (I := fun _ s => Admission st s)
    (admission_init st) (fun _ _ _ _ _ _ ha hstep => ha.step hstep) run

/-- **An outcome is final.** -/
theorem outcome_final {st : Settings} {h : SystemLog P} {s s' : System P} (ha : Admission st s)
    (path : (systemMachine P st).Path s h s') {j : JobId} {o : Except CreateError JobId}
    (hj : s.outcome j = some o) : s'.outcome j = some o :=
  (path.preserves (I := fun s => Admission st s ∧ s.outcome j = some o)
    (fun _ _ _ _ hstep ⟨ha, hj⟩ => ⟨ha.step hstep,
      ha.outcome_step (System.step_cases hstep) hj⟩) ⟨ha, hj⟩).2

/-! ### What a client may rely on -/

section Law

variable {st : Settings} {h : SystemLog P} {s : System P}

/-- A logged key lookup that finds a row. -/
structure Repeats (x : Entry (System P) (Event P) (Option (Reply P))) (new : NewJob P) (row : Row) :
    Prop where
  event : x.event = .create new.id .lookUpKey
  pc : x.before.submissions new.id = some ⟨new, .locked⟩
  row : new.job.idempotencyKey.bind (lookUpKey x.before.db.tables new.clientId) = some row

/-- **Admission.**  A request that cannot be stored is no refused one: `create` raises, and nothing is
promised of its upload. -/
structure Admitted (st : Settings) (h : SystemLog P) (s : System P) : Prop where
  global : s.db.tables.jobs.matched Row.isActive ≤ st.maxQueuedJobs
  client : ∀ clientId, (s.db.tables.jobs.matched fun r => r.isActive && r.clientId = clientId) ≤
    st.maxQueuedJobsPerClient
  unique : ∀ j k row row' key, s.db.tables.jobs.get? j = some row →
    s.db.tables.jobs.get? k = some row' → row.clientId = row'.clientId →
      row.idempotencyKey = some key → row'.idempotencyKey = some key → j = k
  repeated : ∀ x ∈ h, ∀ new row, Repeats x new row → s.outcome new.id =
    some (if row.requestDigest = new.job.requestDigest then .ok row.id
      else .error .idempotencyConflict)
  unchanged : ∀ j b r, s.submissions j = some b → b.pc = .answered r → r ≠ .ok j →
    (∀ x ∈ h, ∀ statement, x.event = .create j statement → x.after.db = x.before.db) ∧
      s.db.tables.jobs.get? j = none ∧
      (r ≠ .error .unstorable → ∀ p ∈ b.new.audioPath, s.files p = none)

/-- What a repeated key comes to. -/
def Row.answer (row : Row) (new : NewJob P) : Except CreateError JobId :=
  match rowToJob P row with
  | .error e => .error (.undecodable e)
  | .ok _ => if row.requestDigest = new.job.requestDigest then .ok row.id
    else .error .idempotencyConflict

theorem outcome_of_lookUp {s' : System P} {new : NewJob P} {row : Row}
    (hs : System.OnStatement st s new .locked .lookUpKey s')
    (hrow : new.job.idempotencyKey.bind (lookUpKey s.db.tables new.clientId) = some row) :
    s'.outcome new.id = some (row.answer new) := by
  have moved : ∀ (t : System P) (pc : SubmissionPc), (t.setSubmission new pc).outcome new.id =
      pc.outcome := fun t pc => by simp [System.outcome, System.setSubmission]
  cases hjob : rowToJob P row with
  | error e =>
      have hanswer : row.answer new = .error (.undecodable e) := by simp [Row.answer, hjob]
      cases hs with
      | keyFailed e' h =>
          rw [hrow, onKeyRow, hjob] at h
          obtain rfl := Except.error.inj h
          rw [moved, hanswer]
          rfl
      | keyFound | keyNew => simp [hrow, onKeyRow, hjob] at *
  | ok original =>
      obtain ⟨hid, -, -, -, hdigest⟩ := rowToJob_eq_ok hjob
      by_cases he : row.requestDigest = new.job.requestDigest
      · have hanswer : row.answer new = .ok row.id := by simp [Row.answer, hjob, he]
        cases hs with
        | keyFound original' h =>
            rw [hrow, onKeyRow, hjob] at h
            simp only [hdigest, he, ne_eq, not_true, if_false] at h
            obtain rfl := Option.some.inj (Except.ok.inj h)
            rw [moved, hanswer, ← hid]
            rfl
        | keyFailed | keyNew => simp [hrow, onKeyRow, hjob, hdigest, he] at *
      · have hanswer : row.answer new = .error .idempotencyConflict := by
          simp [Row.answer, hjob, he]
        cases hs with
        | keyFailed e' h =>
            rw [hrow, onKeyRow, hjob] at h
            simp only [hdigest, ne_eq, he, not_false_iff, if_true] at h
            obtain rfl := Except.error.inj h
            rw [moved, hanswer]
            rfl
        | keyFound | keyNew => simp [hrow, onKeyRow, hjob, hdigest, he] at *

theorem outcome_of_repeats (run : (systemMachine P st).Run h s)
    {x : Entry (System P) (Event P) (Option (Reply P))} (hx : x ∈ h) {new : NewJob P} {row : Row}
    (hr : Repeats x new row) : s.outcome new.id = some (row.answer new) := by
  obtain ⟨h₁, h₂, rfl⟩ := List.append_of_mem hx
  obtain ⟨run₁, hstep, path⟩ := run.split
  obtain ⟨s₀, e, r, s₁⟩ := x
  obtain ⟨rfl, hsub, hrow⟩ := hr
  have ha : Admission st s₀ := admission run₁
  have hstep' : s₀.step st (.create new.id .lookUpKey) = some (s₁, r) := hstep
  refine outcome_final (ha.step hstep') path ?_
  cases System.step_cases hstep' with
  | statement _ _ new' pc _ hsub' hs =>
      obtain ⟨rfl, rfl⟩ := Submission.mk.inj (Option.some.inj (hsub.symm.trans hsub'))
      exact outcome_of_lookUp hs hrow

/-- A row under a repeated key is there, and holds what its own submission asked for. -/
theorem Admission.original (ha : Admission st s) {clientId : String} {o : Option String} {row : Row}
    (hrow : o.bind (lookUpKey s.db.tables clientId) = some row) :
    ∃ b, s.submissions row.id = some b ∧ row.requestJson = b.new.request.json := by
  obtain ⟨key, -, hkey⟩ := Option.bind_eq_some_iff.mp hrow
  obtain ⟨b, hb, -, hjson⟩ := ha.stored row.id row
    (Table.get?_of_mem (List.mem_of_find?_eq_some hkey))
  exact ⟨b, hb, hjson⟩

theorem rowToJob_isOk (hP : P.Lawful) {row : Row} {request : JobRequest P}
    (hjson : row.requestJson = request.json) :
    (∃ job, rowToJob P row = .ok job) ↔ request.fields.Timed := by
  rw [← modelValidate_isOk hP, ← hjson]
  unfold rowToJob
  cases modelValidate P row.requestJson <;> simp

/-- A repeated key whose row does not decode is the only way to that outcome. -/
theorem undecodable_outcome (run : (systemMachine P st).Run h s) {j : JobId} {e : ErrorDetails}
    (hj : s.outcome j = some (.error (.undecodable e))) :
    ∃ x ∈ h, ∃ new row, Repeats x new row ∧ rowToJob P row = .error e := by
  refine Machine.Run.invariant (M := systemMachine P st)
    (I := fun h s => s.outcome j = some (.error (.undecodable e)) →
      ∃ x ∈ h, ∃ new row, Repeats x new row ∧ rowToJob P row = .error e)
    nofun ?_ run hj
  intro h s ev s' r run ih hstep hj
  by_cases hold : s.outcome j = some (.error (.undecodable e))
  · obtain ⟨x, hx, hrest⟩ := ih hold
    exact ⟨x, List.mem_append_left _ hx, hrest⟩
  refine ⟨⟨s, ev, r, s'⟩, List.mem_append_right _ (List.mem_singleton_self _), ?_⟩
  have ha : Admission st s := admission run
  have moved : ∀ {new : NewJob P} {pc : SubmissionPc} {t : System P},
      t.submissions = Function.update s.submissions new.id (some ⟨new, pc⟩) →
      t.outcome j = some (.error (.undecodable e)) →
      j = new.id ∧ pc.outcome = some (.error (.undecodable e)) := by
    intro new pc t ht hout
    rw [System.outcome, ht] at hout
    by_cases he : j = new.id
    · subst he
      rw [Function.update_self] at hout
      exact ⟨rfl, hout⟩
    · rw [Function.update_of_ne he] at hout
      exact absurd hout hold
  cases System.step_cases hstep with
  | submit | upload =>
      obtain ⟨-, hout⟩ := moved rfl hj
      cases hout
  | commit =>
      obtain ⟨-, hout⟩ := moved rfl hj
      cases hout
  | statement id statement new pc s' hsub hs =>
      obtain rfl := (ha.submitted _ _ hsub).1
      have hsame : ∀ {o}, j = new.id → pc.outcome = some o → s.outcome j = some o := by
        rintro o rfl hpc
        rw [System.outcome, hsub]
        exact hpc
      cases hs with
      | keyFailed e' hrow =>
          obtain ⟨rfl, hout⟩ := moved rfl hj
          obtain rfl := Except.error.inj (Option.some.inj hout)
          unfold onKeyRow at hrow
          split at hrow
          · cases hrow
          · rename_i row hlook
            split at hrow
            · rename_i e₀ herror
              obtain rfl := CreateError.undecodable.inj (Except.error.inj hrow)
              exact ⟨new, row, ⟨rfl, hsub, hlook⟩, herror⟩
            · split at hrow <;> cases hrow
      | full e' hcounts =>
          obtain ⟨rfl, hout⟩ := moved rfl hj
          obtain rfl := Except.error.inj (Option.some.inj hout)
          unfold onCounts at hcounts
          split at hcounts
          · cases hcounts
          · split at hcounts <;> cases hcounts
      | admitted id =>
          split at hj <;>
          · obtain ⟨he, hout⟩ := moved rfl hj
            exact absurd (hsame he hout) hold
      | refused e' =>
          split at hj <;>
          · obtain ⟨he, hout⟩ := moved rfl hj
            exact absurd (hsame he hout) hold
      | _ =>
          obtain ⟨-, hout⟩ := moved rfl hj
          cases hout
  | leave n t d => cases d <;> exact absurd hj hold
  | sweep => split at hj <;> exact absurd hj hold
  | _ => exact absurd hj hold

/-- Only a submission that is admitted as itself changes the tables. -/
theorem db_of_create (run : (systemMachine P st).Run h s)
    {x : Entry (System P) (Event P) (Option (Reply P))} (hx : x ∈ h) {j : JobId}
    {statement : Statement} (hevent : x.event = .create j statement)
    (hj : s.outcome j ≠ some (.ok j)) : x.after.db = x.before.db := by
  obtain ⟨h₁, h₂, rfl⟩ := List.append_of_mem hx
  obtain ⟨run₁, hstep, path⟩ := run.split
  obtain ⟨s₀, e, r, s₁⟩ := x
  obtain rfl := hevent
  have ha : Admission st s₀ := admission run₁
  have hstep' : s₀.step st (.create j statement) = some (s₁, r) := hstep
  cases System.step_cases hstep' with
  | statement _ _ new pc _ hsub hs => exact hs.workers.1
  | commit _ new db job hsub hdb =>
      refine absurd (outcome_final (ha.step hstep') path ?_) hj
      obtain rfl := (ha.submitted _ _ hsub).1
      simp [System.outcome, System.setSubmission, SubmissionPc.outcome]

/-- **In which runs admission is as promised**: those in which every request whose key is repeated
has finite bounds. -/
theorem admission_iff (hP : P.Lawful) (run : (systemMachine P st).Run h s) :
    Admitted st h s ↔ ∀ x ∈ h, ∀ new row, Repeats x new row →
      ∀ original, x.before.submissions row.id = some original →
        original.new.request.fields.Timed := by
  have ha := admission run
  have stored : ∀ x ∈ h, ∀ new row, Repeats x new row → ∃ original,
      x.before.submissions row.id = some original ∧
        row.requestJson = original.new.request.json := by
    intro x hx new row hr
    obtain ⟨h₁, h₂, rfl⟩ := List.append_of_mem hx
    exact (admission run.split.1).original hr.row
  constructor
  · intro hlaw x hx new row hr original hb
    obtain ⟨original', hb', hjson⟩ := stored x hx new row hr
    obtain rfl := Option.some.inj (hb.symm.trans hb')
    by_contra htimed
    have hout := outcome_of_repeats run hx hr
    rw [hlaw.repeated x hx new row hr, Row.answer] at hout
    cases hjob : rowToJob P row with
    | ok job => exact htimed ((rowToJob_isOk hP hjson).mp ⟨job, hjob⟩)
    | error e =>
        rw [hjob] at hout
        split at hout <;> cases hout
  · intro hall
    have decodes : ∀ x ∈ h, ∀ new row, Repeats x new row → ∃ job, rowToJob P row = .ok job := by
      intro x hx new row hr
      obtain ⟨original, hb, hjson⟩ := stored x hx new row hr
      exact (rowToJob_isOk hP hjson).mpr (hall x hx new row hr original hb)
    refine ⟨ha.global, ha.client, fun j k row row' key hj hk hclient hkey hkey' =>
      unique_key (store_run run) hj hk hclient hkey hkey', fun x hx new row hr => ?_,
      fun j b r hb hpc hne => ?_⟩
    · obtain ⟨job, hjob⟩ := decodes x hx new row hr
      rw [outcome_of_repeats run hx hr, Row.answer, hjob]
    · have hout : s.outcome j = some r := by
        rw [System.outcome, hb, Option.bind_some, hpc]
        rfl
      have hown : s.outcome j ≠ some (.ok j) := by
        rw [hout]
        exact fun h => hne (Option.some.inj h)
      refine ⟨fun x hx statement he => db_of_create run hx he hown, ?_, ?_⟩
      · refine Option.eq_none_iff_forall_ne_some.mpr fun row hrow => ?_
        obtain ⟨b', hb', hself, -⟩ := ha.stored j row hrow
        exact hown (Option.bind_eq_some_iff.mpr ⟨b', hb', hself⟩)
      · refine ha.discarded j b r hb hpc hne fun e he => ?_
        obtain ⟨x, hx, new, row, hr, herror⟩ := undecodable_outcome run (he ▸ hout)
        obtain ⟨job, hjob⟩ := decodes x hx new row hr
        rw [hjob] at herror
        cases herror

end Law

/-- An upload and a repetition of it, under one key, up to the answer of the second. -/
def repeatedEvents (request : JobRequest .strict) : List (Event .strict) :=
  let new (id path : String) : NewJob .strict :=
    { id, clientId := "client", now := 0, request, audioPath := some path
      keyed := some ("key", "digest") }
  [.submit (new "first" "first.wav") 0, .create "first" .lockAdmission, .create "first" .lookUpKey,
    .create "first" .countActive, .create "first" .insert, .create "first" .commit,
    .create "first" .answer, .submit (new "second" "second.wav") 1, .create "second" .lockAdmission,
    .create "second" .lookUpKey, .create "second" .answer]

theorem admission_iff_repeated : ∃ h s, (systemMachine .strict sampleSettings).Run h s ∧
    (s.outcome "second").any (fun o => o.toOption = some "first") = true ∧
    (Admitted sampleSettings h s ↔ ∀ x ∈ h, ∀ new row, Repeats x new row →
      ∀ original, x.before.submissions row.id = some original →
        original.new.request.fields.Timed) := by
  obtain ⟨h, s, run, hone⟩ := Machine.Run.of_exec (systemMachine .strict sampleSettings)
    (repeatedEvents .ofUpload)
    (fun _ s => (s.outcome "second").any fun o => o.toOption = some "first") (by decide +kernel)
  exact ⟨h, s, run, hone, admission_iff Pydantic.strict_lawful run⟩

/-- A request to diarize one word whose start is `NaN`. -/
def nanRequest : JobRequest .strict where
  fields := { task := .diarize, words := some [⟨"hej", .nan, .finite 1, none⟩] }
  ge_one := by simp
  vocabulary_clean := rfl
  task_valid := by decide

/-- The submission was answered with an error, and its upload is still there. -/
def System.leftOver (s : System P) (id : JobId) (path : Path) : Bool :=
  match s.submissions id with
  | some ⟨new, .answered (.error e)⟩ =>
    e ≠ .unstorable && (new.audioPath = some path && (s.files path).isSome)
  | _ => false

/-- Its repetition is refused, and the second upload stays. -/
theorem repeated_nan_refused : ∃ h s, (systemMachine .strict sampleSettings).Run h s ∧
    (s.outcome "first").any (fun o => o.toOption = some "first") = true ∧
    (s.outcome "second").any (fun o => o.toOption.isNone) = true ∧
    ¬ Admitted sampleSettings h s := by
  obtain ⟨h, s, run, hone⟩ := Machine.Run.of_exec (systemMachine .strict sampleSettings)
    (repeatedEvents nanRequest)
    (fun _ s => (s.outcome "first").any (fun o => o.toOption = some "first") &&
      ((s.outcome "second").any (fun o => o.toOption.isNone) && s.leftOver "second" "second.wav"))
    (by decide +kernel)
  obtain ⟨hfirst, hrest⟩ := Bool.and_eq_true_iff.mp hone
  obtain ⟨hsecond, hleft⟩ := Bool.and_eq_true_iff.mp hrest
  refine ⟨h, s, run, hfirst, hsecond, fun hlaw => ?_⟩
  unfold System.leftOver at hleft
  split at hleft
  · rename_i new e hsub
    simp only [Bool.and_eq_true, decide_eq_true_eq] at hleft
    obtain ⟨hst, haudio, hfile⟩ := hleft
    have hdiscarded := (hlaw.unchanged "second" _ _ hsub rfl (by rintro ⟨⟩)).2.2
    rw [hdiscarded (fun h => hst (Except.error.inj h)) _ haudio] at hfile
    cases hfile
  · cases hleft

end Vemsa.Jobs
