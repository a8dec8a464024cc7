import Vemsa.Support.Machine
import Vemsa.Support.Procs

/-!
# Support — Locks

Threads that share a state and counting locks.  A thread runs a program that acquires and releases
locks and performs operations of its own on what is shared; any thread may take the next step.

* `Proc.Nested`: locks are taken in increasing rank and given back in the reverse order.
* `Threads.held_le`: no lock is held more often than it may be.
* `Threads.inevitable`: nested programs never deadlock, and every schedule ends with all of them done.
* `Proc.Safe`: rules for what a program relies on and guarantees, which `Threads.safe` carries to runs.
-/

namespace Vemsa.Support

/-- Whichever steps are taken, they end where `goal` holds. -/
inductive Inevitable {σ : Type} (R : σ → σ → Prop) (goal : σ → Prop) : σ → Prop where
  | now {s : σ} (h : goal s) : Inevitable R goal s
  | later {s : σ} (can : ∃ s', R s s') (all : ∀ s', R s s' → Inevitable R goal s') :
      Inevitable R goal s

/-- Steps that cannot go on forever, and stop at the goal only. -/
theorem Inevitable.of_acc {σ : Type} {R : σ → σ → Prop} {goal I : σ → Prop}
    (hstep : ∀ s s', I s → R s s' → I s') (hcan : ∀ s, I s → ¬ goal s → ∃ s', R s s') {s : σ}
    (hacc : Acc (fun s' s => R s s') s) (hs : I s) : Inevitable R goal s := by
  induction hacc with
  | intro s _ ih =>
      by_cases hgoal : goal s
      · exact .now hgoal
      · exact .later (hcan s hs hgoal) fun s' hR => ih s' hR (hstep s s' hs hR)

/-- `acquire`, `release`, or an operation on what is shared. -/
inductive LockOp (L Op : Type) where
  | acquire (l : L)
  | release (l : L)
  | own (o : Op)

variable {L Op : Type} {Answer : Op → Type} {ε α β σ ι : Type}

/-- A lock is answered by taking it. -/
def LockAnswer (L : Type) (Answer : Op → Type) : LockOp L Op → Type
  | .acquire _ | .release _ => Unit
  | .own o => Answer o

/-- What a thread runs. -/
abbrev Threaded (L : Type) (Answer : Op → Type) (ε α : Type) : Type :=
  Proc (LockAnswer L Answer) ε α

namespace Proc

/-- `with l: p` -/
def withLock (l : L) (p : Threaded L Answer ε α) : Threaded L Answer ε α :=
  ask (.acquire l) fun _ =>
    (p.guard fun e => ask (.release l) fun _ => raise e).bind fun a => ask (.release l) fun _ => pure a

/-- `try: p` with `finally: q` -/
def ending (p : Threaded L Answer ε α) (q : Threaded L Answer ε Unit) : Threaded L Answer ε α :=
  (p.guard fun e => q.bind fun _ => raise e).bind fun a => q.bind fun _ => pure a

variable (rank : L → ℕ)

/-- From a point where `held` is held, innermost lock first, the program takes locks of higher rank
only, gives back the innermost one, and ends holding `out`. -/
def Nested (out : List L) : Threaded L Answer ε α → List L → Prop
  | pure _, held | raise _, held => held = out
  | ask (.acquire l) k, held => (∀ m ∈ held, rank m < rank l) ∧ (k ()).Nested out (l :: held)
  | ask (.release l) k, held => ∃ rest, held = l :: rest ∧ (k ()).Nested out rest
  | ask (.own _) k, held => ∀ r, (k r).Nested out held

variable {rank} {out held : List L} {p : Threaded L Answer ε α}

theorem Nested.bind {f : α → Threaded L Answer ε β} {mid : List L} (hp : p.Nested rank mid held)
    (hf : ∀ a, (f a).Nested rank mid mid) : (p.bind f).Nested rank mid held := by
  induction p generalizing held with
  | pure a =>
      obtain rfl : held = mid := hp
      exact hf a
  | raise e => exact hp
  | ask o k ih =>
      cases o with
      | acquire l => exact ⟨hp.1, ih () hp.2⟩
      | release l =>
          obtain ⟨rest, rfl, hrest⟩ := hp
          exact ⟨rest, rfl, ih () hrest⟩
      | own o => exact fun r => ih r (hp r)

theorem Nested.guard {f : ε → Threaded L Answer ε α} {mid : List L} (hp : p.Nested rank mid held)
    (hf : ∀ e, (f e).Nested rank mid mid) : (p.guard f).Nested rank mid held := by
  induction p generalizing held with
  | pure a => exact hp
  | raise e =>
      obtain rfl : held = mid := hp
      exact hf e
  | ask o k ih =>
      cases o with
      | acquire l => exact ⟨hp.1, ih () hp.2⟩
      | release l =>
          obtain ⟨rest, rfl, hrest⟩ := hp
          exact ⟨rest, rfl, ih () hrest⟩
      | own o => exact fun r => ih r (hp r)

theorem nested_ofExcept (x : Except ε α) :
    (ofExcept x : Threaded L Answer ε α).Nested rank held held := by
  cases x <;> rfl

theorem Nested.ending {q : Threaded L Answer ε Unit} (hp : p.Nested rank held held)
    (hq : q.Nested rank held held) : (p.ending q).Nested rank held held :=
  (hp.guard fun e => hq.bind (f := fun _ => raise e) fun _ => rfl).bind fun a =>
    hq.bind (f := fun _ => pure a) fun _ => rfl

/-- **`with`**, inside locks of lower rank. -/
theorem nested_withLock {l : L} (hl : ∀ m ∈ held, rank m < rank l)
    (hp : p.Nested rank (l :: held) (l :: held)) : (withLock l p).Nested rank held held := by
  refine ⟨hl, ?_⟩
  -- the release after a raise and the one after a return both end at `held`
  have hbody : ∀ (q : Threaded L Answer ε α), ∀ inner, q.Nested rank (l :: held) inner →
      ((q.guard fun e => ask (.release l) fun _ => raise e).bind fun a =>
        ask (.release l) fun _ => pure a).Nested rank held inner := by
    intro q
    induction q with
    | pure a => exact fun inner hq => ⟨held, hq, rfl⟩
    | raise e => exact fun inner hq => ⟨held, hq, rfl⟩
    | ask o k ih =>
        intro inner hq
        cases o with
        | acquire m => exact ⟨hq.1, ih () _ hq.2⟩
        | release m =>
            obtain ⟨rest, rfl, hrest⟩ := hq
            exact ⟨rest, rfl, ih () _ hrest⟩
        | own o => exact fun r => ih r _ (hq r)
  exact hbody p _ hp

/-- What is left of a program after one answer. -/
def Next (p q : Threaded L Answer ε α) : Prop := ∃ o k r, q = .ask o k ∧ p = k r

theorem wellFounded_next : WellFounded (Next : Threaded L Answer ε α → Threaded L Answer ε α → Prop) := by
  refine ⟨fun p => ?_⟩
  induction p with
  | pure a => exact ⟨_, fun q ⟨o, k, r, h, _⟩ => nomatch h⟩
  | raise e => exact ⟨_, fun q ⟨o, k, r, h, _⟩ => nomatch h⟩
  | ask o k ih =>
      refine ⟨_, fun q ⟨o', k', r, h, hq⟩ => ?_⟩
      cases h
      exact hq ▸ ih r

end Proc

/-! ### Threads -/

/-- A thread: the locks it holds, and what it has still to run. -/
structure Thread (L : Type) (Answer : Op → Type) (ε α : Type) where
  held : List L
  prog : Threaded L Answer ε α

/-- What is shared, how often every lock can still be taken, and the threads. -/
structure Threads (L : Type) (Answer : Op → Type) (ε α σ : Type) where
  shared : σ
  permits : L → ℕ
  threads : List (Thread L Answer ε α)

/-- A thread is started with one of the programs, or takes its next step; `answer` is what its
operation answers, whichever it is. -/
inductive ThreadEvent (ι : Type) (Answer : Op → Type) where
  | start (i : ι)
  | run (n : ℕ) (answer : ∀ o, Answer o)

namespace Threads

variable [DecidableEq L]

/-- One step of a thread; `none` where it is done, or has to wait for a lock. -/
def advance (effect : (o : Op) → Answer o → σ → Option σ) (s : Threads L Answer ε α σ)
    (answer : ∀ o, Answer o) (t : Thread L Answer ε α) :
    Option (σ × (L → ℕ) × Thread L Answer ε α) :=
  match t.prog with
  | .pure _ | .raise _ => none
  | .ask (.acquire l) k =>
    if s.permits l = 0 then none
    else some (s.shared, Function.update s.permits l (s.permits l - 1), ⟨l :: t.held, k ()⟩)
  | .ask (.release l) k =>
    some (s.shared, Function.update s.permits l (s.permits l + 1), ⟨t.held.erase l, k ()⟩)
  | .ask (.own o) k =>
    (effect o (answer o) s.shared).map fun shared => (shared, s.permits, ⟨t.held, k (answer o)⟩)

/-- What a thread asks next, with the answer it gets. -/
def asks (answer : ∀ o, Answer o) (t : Thread L Answer ε α) :
    Option ((o : LockOp L Op) × LockAnswer L Answer o) :=
  match t.prog with
  | .pure _ | .raise _ => none
  | .ask (.acquire l) _ => some ⟨.acquire l, ()⟩
  | .ask (.release l) _ => some ⟨.release l, ()⟩
  | .ask (.own o) _ => some ⟨.own o, answer o⟩

def step (effect : (o : Op) → Answer o → σ → Option σ) (programs : ι → Threaded L Answer ε α)
    (s : Threads L Answer ε α σ) :
    ThreadEvent ι Answer →
      Option (Threads L Answer ε α σ × Option ((o : LockOp L Op) × LockAnswer L Answer o))
  | .start i => some ({ s with threads := s.threads ++ [⟨[], programs i⟩] }, none)
  | .run n answer =>
    match s.threads[n]? with
    | none => none
    | some t =>
      (s.advance effect answer t).map fun (shared, permits, t') =>
        (⟨shared, permits, s.threads.set n t'⟩, asks answer t)

end Threads

/-- The threads, before the first one starts. -/
def threadMachine [DecidableEq L] (effect : (o : Op) → Answer o → σ → Option σ)
    (programs : ι → Threaded L Answer ε α) (cap : L → ℕ) (shared : σ) :
    Machine (Threads L Answer ε α σ) (ThreadEvent ι Answer)
      (Option ((o : LockOp L Op) × LockAnswer L Answer o)) where
  init := ⟨shared, cap, []⟩
  step := Threads.step effect programs

namespace Threads

variable [DecidableEq L] {effect : (o : Op) → Answer o → σ → Option σ}
  {programs : ι → Threaded L Answer ε α} {rank cap : L → ℕ} {s s' : Threads L Answer ε α σ}
  {t t' : Thread L Answer ε α} {answer : ∀ o, Answer o}

/-- What a thread's step does to the locks it holds, with the program before and after it. -/
inductive Advances (effect : (o : Op) → Answer o → σ → Option σ) (s : Threads L Answer ε α σ)
    (answer : ∀ o, Answer o) (held : List L) :
    Threaded L Answer ε α → σ → (L → ℕ) → List L → Threaded L Answer ε α → Prop where
  | acquire {l : L} {k : Unit → Threaded L Answer ε α} (hfree : s.permits l ≠ 0) :
      Advances effect s answer held (.ask (.acquire l) k) s.shared
        (Function.update s.permits l (s.permits l - 1)) (l :: held) (k ())
  | release {l : L} {k : Unit → Threaded L Answer ε α} :
      Advances effect s answer held (.ask (.release l) k) s.shared
        (Function.update s.permits l (s.permits l + 1)) (held.erase l) (k ())
  | own {o : Op} {k : Answer o → Threaded L Answer ε α} {shared : σ}
      (heff : effect o (answer o) s.shared = some shared) :
      Advances effect s answer held (.ask (.own o) k) shared s.permits held (k (answer o))

theorem advances_of_advance {shared : σ} {permits : L → ℕ}
    (h : s.advance effect answer t = some (shared, permits, t')) :
    Advances effect s answer t.held t.prog shared permits t'.held t'.prog := by
  obtain ⟨held, prog⟩ := t
  cases prog with
  | pure a => cases h
  | raise e => cases h
  | ask o k =>
      cases o with
      | acquire l =>
          simp only [advance] at h
          split at h
          case isTrue => cases h
          case isFalse hfree => cases h; exact .acquire hfree
      | release l => cases h; exact .release
      | own o =>
          obtain ⟨shared', heff, heq⟩ := Option.map_eq_some_iff.mp h
          cases heq
          exact .own heff

/-- The thread that takes a step, and the others. -/
theorem step_run {n : ℕ} {r : Option ((o : LockOp L Op) × LockAnswer L Answer o)}
    (h : step effect programs s (.run n answer) = some (s', r)) :
    ∃ a t b t', s.threads = a ++ t :: b ∧ s'.threads = a ++ t' :: b ∧ r = asks answer t ∧
      Advances effect s answer t.held t.prog s'.shared s'.permits t'.held t'.prog := by
  simp only [step] at h
  split at h
  case h_1 => cases h
  case h_2 t ht =>
    obtain ⟨⟨shared, permits, t'⟩, hadv, heq⟩ := Option.map_eq_some_iff.mp h
    cases heq
    obtain ⟨hn, rfl⟩ := List.getElem?_eq_some_iff.mp ht
    refine ⟨s.threads.take n, s.threads[n], s.threads.drop (n + 1), t', ?_, ?_, rfl,
      advances_of_advance hadv⟩
    · rw [List.cons_getElem_drop_succ, List.take_append_drop]
    · exact List.set_eq_take_append_cons_drop.trans (if_pos hn)

/-! ### No lock is held too often -/

/-- Every thread's program is nested, and what is not held can be taken. -/
structure Ordered (rank cap : L → ℕ) (s : Threads L Answer ε α σ) : Prop where
  nested : ∀ t ∈ s.threads, t.prog.Nested rank [] t.held
  permits : ∀ l, s.permits l + (s.threads.map fun t => t.held.count l).sum = cap l

theorem Ordered.step {e : ThreadEvent ι Answer}
    {r : Option ((o : LockOp L Op) × LockAnswer L Answer o)} (hs : Ordered rank cap s)
    (hnested : ∀ i, (programs i).Nested rank [] [])
    (h : step effect programs s e = some (s', r)) : Ordered rank cap s' := by
  cases e with
  | start i =>
      cases h
      refine ⟨?_, fun l => ?_⟩
      · simpa [or_imp, forall_and] using ⟨hs.nested, hnested i⟩
      · simpa using hs.permits l
  | run n answer =>
      obtain ⟨a, ⟨held, prog⟩, b, ⟨held', prog'⟩, hbefore, hafter, -, hadv⟩ := step_run h
      have hthread : prog.Nested rank [] held := hs.nested ⟨held, prog⟩ (by simp [hbefore])
      have hothers : ∀ u, u ∈ a ∨ u ∈ b → u.prog.Nested rank [] u.held := fun u hu =>
        hs.nested u (by rw [hbefore]; simpa using hu.imp_right .inr)
      have hkeep : prog'.Nested rank [] held' → ∀ u ∈ s'.threads, u.prog.Nested rank [] u.held := by
        intro hprog u hu
        rw [hafter] at hu
        obtain hu | hu := List.mem_append.mp hu
        · exact hothers u (.inl hu)
        · obtain rfl | hu := List.mem_cons.mp hu
          · exact hprog
          · exact hothers u (.inr hu)
      have hsum : ∀ l, s.permits l + held.count l = s'.permits l + held'.count l →
          s'.permits l + (s'.threads.map fun t => t.held.count l).sum = cap l := by
        intro l hl
        have hl' := hs.permits l
        simp only [hbefore, hafter, List.map_append, List.map_cons, List.sum_append,
          List.sum_cons] at hl' ⊢
        omega
      obtain ⟨shared, permits, threads⟩ := s'
      simp only at hadv hkeep hsum
      cases hadv with
      | @acquire l k hfree =>
          refine ⟨hkeep hthread.2, fun m => hsum m ?_⟩
          obtain rfl | hm := eq_or_ne m l
          · rw [Function.update_self, List.count_cons_self]
            omega
          · rw [Function.update_of_ne hm, List.count_cons_of_ne hm.symm]
      | @release l k =>
          obtain ⟨rest, rfl, hrest⟩ := hthread
          rw [List.erase_cons_head] at hkeep hsum
          refine ⟨hkeep hrest, fun m => hsum m ?_⟩
          obtain rfl | hm := eq_or_ne m l
          · rw [Function.update_self, List.count_cons_self]
            omega
          · rw [Function.update_of_ne hm, List.count_cons_of_ne hm.symm]
      | own heff => exact ⟨hkeep (hthread _), fun l => hsum l rfl⟩

/-- **In every run** of nested programs. -/
theorem ordered {shared : σ} (hnested : ∀ i, (programs i).Nested rank [] [])
    {h : List (Entry (Threads L Answer ε α σ) (ThreadEvent ι Answer)
      (Option ((o : LockOp L Op) × LockAnswer L Answer o)))}
    (run : (threadMachine effect programs cap shared).Run h s) : Ordered rank cap s :=
  run.preserves (I := Ordered rank cap) (fun _ _ _ _ hstep hs => hs.step hnested hstep)
    ⟨by simp [threadMachine], by simp [threadMachine]⟩

/-- **No lock is held more often than it may be.** -/
theorem held_le (hs : Ordered rank cap s) (l : L) :
    (s.threads.map fun t => t.held.count l).sum ≤ cap l :=
  hs.permits l ▸ Nat.le_add_left _ _

/-- No more threads are where the lock is needed than may hold it. -/
theorem countP_le (hs : Ordered rank cap s) {l : L} {needs : Thread L Answer ε α → Bool}
    (hneeds : ∀ t ∈ s.threads, needs t = true → l ∈ t.held) : s.threads.countP needs ≤ cap l := by
  refine le_trans ?_ (held_le hs l)
  generalize s.threads = threads at hneeds ⊢
  induction threads with
  | nil => exact le_rfl
  | cons t threads ih =>
      obtain ⟨ht, hthreads⟩ := List.forall_mem_cons.mp hneeds
      have hrest := ih hthreads
      rw [List.countP_cons, List.map_cons, List.sum_cons]
      split
      case isTrue h =>
        have hpos : 0 < t.held.count l := List.count_pos_iff.mpr (ht h)
        omega
      case isFalse => omega

/-! ### Every schedule ends -/

/-- One of the threads takes a step. -/
def Steps (effect : (o : Op) → Answer o → σ → Option σ) (programs : ι → Threaded L Answer ε α)
    (s s' : Threads L Answer ε α σ) : Prop :=
  ∃ n answer r, step effect programs s (.run n answer) = some (s', r)

/-- Every thread has returned or raised. -/
def Done (s : Threads L Answer ε α σ) : Prop := ∀ t ∈ s.threads, ∀ o k, t.prog ≠ .ask o k

/-- Where every operation is answered, a thread that does not wait for a lock can go on. -/
theorem exists_step_of_ask (programs : ι → Threaded L Answer ε α)
    (hanswers : ∀ s o, ∃ r, (effect o r s).isSome) (ht : t ∈ s.threads)
    {o : LockOp L Op} {k : LockAnswer L Answer o → Threaded L Answer ε α} (hprog : t.prog = .ask o k)
    (hfree : ∀ l, o = .acquire l → s.permits l ≠ 0) : ∃ s', Steps effect programs s s' := by
  choose answer hanswer using hanswers s.shared
  have hadv : ∃ x, s.advance effect answer t = some x := by
    obtain ⟨held, prog⟩ := t
    obtain rfl : prog = .ask o k := hprog
    cases o with
    | acquire l => exact ⟨_, if_neg (hfree l rfl)⟩
    | release l => exact ⟨_, rfl⟩
    | own o =>
        obtain ⟨shared, heff⟩ := Option.isSome_iff_exists.mp (hanswer o)
        exact ⟨_, by simp only [advance, heff]; rfl⟩
  obtain ⟨x, hx⟩ := hadv
  obtain ⟨n, hn⟩ := List.mem_iff_getElem?.mp ht
  exact ⟨_, n, answer, _, by simp only [step, hn, hx]; rfl⟩

/-- The rank of the lock a thread is about to take. -/
def wanted (rank : L → ℕ) (t : Thread L Answer ε α) : ℕ :=
  match t.prog with
  | .ask (.acquire l) _ => rank l
  | _ => 0

/-- **No deadlock.**  The thread that waits for the highest lock waits for one that could go on. -/
theorem exists_step (hs : Ordered rank cap s) (hcap : ∀ l, 0 < cap l)
    (hanswers : ∀ s o, ∃ r, (effect o r s).isSome) (hnot : ¬ s.Done) :
    ∃ s', Steps effect programs s s' := by
  classical
  by_contra! hstuck
  -- whoever is not done waits for a lock that cannot be taken
  have hblocked : ∀ t ∈ s.threads, ∀ o k, t.prog = .ask o k →
      ∃ l k', t.prog = .ask (.acquire l) k' ∧ s.permits l = 0 := by
    intro t ht o k hprog
    by_contra! hgo
    obtain ⟨s', hs'⟩ := exists_step_of_ask programs hanswers ht hprog fun l hl => by
      subst hl
      exact hgo l k hprog
    exact hstuck s' hs'
  let waiting := s.threads.toFinset.filter fun t => ∃ o k, t.prog = .ask o k
  have hne : waiting.Nonempty := by
    unfold Done at hnot
    push Not at hnot
    obtain ⟨t, ht, o, k, hprog⟩ := hnot
    exact ⟨t, by simpa [waiting] using ⟨ht, o, k, hprog⟩⟩
  obtain ⟨t, ht, hmax⟩ := waiting.exists_max_image (wanted rank) hne
  obtain ⟨ht, o, k, hprog⟩ : t ∈ s.threads ∧ ∃ o k, t.prog = .ask o k := by simpa [waiting] using ht
  obtain ⟨l, k, hprog, hfull⟩ := hblocked t ht o k hprog
  -- someone holds it, and is not done
  obtain ⟨u, hu, hheld⟩ : ∃ u ∈ s.threads, l ∈ u.held := by
    by_contra! hno
    have hzero : (s.threads.map fun t => t.held.count l).sum = 0 :=
      List.sum_eq_zero fun n hn => by
        obtain ⟨u, hu, rfl⟩ := List.mem_map.mp hn
        exact List.count_eq_zero.mpr (hno u hu)
    have := hs.permits l
    have := hcap l
    omega
  have hnested := hs.nested u hu
  obtain ⟨o, k', hask⟩ : ∃ o k, u.prog = .ask o k := by
    obtain ⟨held, prog⟩ := u
    cases prog with
    | pure a => obtain rfl : held = [] := hnested; cases hheld
    | raise e => obtain rfl : held = [] := hnested; cases hheld
    | ask o k => exact ⟨o, k, rfl⟩
  -- so it waits for a higher one
  obtain ⟨m, k', hask, -⟩ := hblocked u hu o k' hask
  rw [hask] at hnested
  have hhigher := hnested.1 l hheld
  have hle := hmax u (by simpa [waiting] using ⟨hu, _, _, hask⟩)
  rw [wanted, wanted, hask, hprog] at hle
  simp only at hle
  omega

/-- A step replaces one program by what is left of it. -/
theorem cutExpand_of_steps (h : Steps effect programs s s') :
    Relation.CutExpand Proc.Next (s'.threads.map Thread.prog : Multiset (Threaded L Answer ε α))
      (s.threads.map Thread.prog : Multiset (Threaded L Answer ε α)) := by
  obtain ⟨n, answer, r, hstep⟩ := h
  obtain ⟨a, t, b, t', hbefore, hafter, -, hadv⟩ := step_run hstep
  have hnext : Proc.Next t'.prog t.prog := by
    generalize t.prog = p, t'.prog = q, t'.held = held, s'.shared = shared,
      s'.permits = permits at hadv
    cases hadv with
    | @acquire l k => exact ⟨.acquire l, k, (), rfl, rfl⟩
    | @release l k => exact ⟨.release l, k, (), rfl, rfl⟩
    | @own o k => exact ⟨.own o, k, answer o, rfl, rfl⟩
  refine ⟨{t'.prog}, t.prog, by simpa using hnext, ?_⟩
  rw [hbefore, hafter]
  simp only [List.map_append, List.map_cons, ← Multiset.coe_add, ← Multiset.cons_coe,
    ← Multiset.singleton_add]
  abel

/-- **No schedule goes on forever.** -/
theorem acc_steps (s : Threads L Answer ε α σ) :
    Acc (fun s' s => Steps effect programs s s') s :=
  Subrelation.accessible (fun h => cutExpand_of_steps h)
    (InvImage.accessible (fun s : Threads L Answer ε α σ =>
      (s.threads.map Thread.prog : Multiset (Threaded L Answer ε α)))
      (Proc.wellFounded_next.cutExpand.apply _))

/-- **However nested programs are scheduled, they all come to their end.** -/
theorem inevitable (hs : Ordered rank cap s) (hnested : ∀ i, (programs i).Nested rank [] [])
    (hcap : ∀ l, 0 < cap l) (hanswers : ∀ s o, ∃ r, (effect o r s).isSome) :
    Inevitable (Steps effect programs) Done s :=
  .of_acc (I := Ordered rank cap) (fun _ _ hs ⟨_, _, _, hstep⟩ => hs.step hnested hstep)
    (fun _ hs hnot => exists_step hs hcap hanswers hnot) (acc_steps s) hs

end Threads

/-! ### Rely and guarantee -/

section Safe

variable [DecidableEq L] (effect : (o : Op) → Answer o → σ → Option σ) (rely : List L → σ → σ → Prop)
  (guar : List L → (o : Op) → Answer o → σ → σ → Prop)

/-- From `s`, holding `held`, among threads that change what is shared as `rely` says: every operation
of the program does as `guar` says, and what it returns meets `Q`. -/
def Proc.Safe (Q : α → List L → σ → Prop) : Threaded L Answer ε α → List L → σ → Prop
  | .pure a, held, s => ∀ s', rely held s s' → Q a held s'
  | .raise _, _, _ => True
  | .ask (.acquire l) k, held, s => ∀ s', rely held s s' → (k ()).Safe Q (l :: held) s'
  | .ask (.release l) k, held, s => ∀ s', rely held s s' → (k ()).Safe Q (held.erase l) s'
  | .ask (.own o) k, held, s => ∀ s', rely held s s' → ∀ r s'', effect o r s' = some s'' →
      guar held o r s' s'' ∧ (k r).Safe Q held s''

/-- What two threads may do to each other: what others do adds up, and what a thread guarantees the
others can rely on, unless both hold a lock that only one can hold. -/
structure Compatible (cap : L → ℕ) : Prop where
  refl : ∀ held s, rely held s s
  trans : ∀ held s s' s'', rely held s s' → rely held s' s'' → rely held s s''
  /-- a thread relies on no less for the locks it holds -/
  fewer : ∀ held l s s', rely (l :: held) s s' → rely held s s'
  guar_rely : ∀ held held' o r s s', (∀ l ∈ held, l ∈ held' → 1 < cap l) →
    guar held o r s s' → rely held' s s'

variable {effect rely guar} {cap : L → ℕ} {Q : α → List L → σ → Prop} {p : Threaded L Answer ε α}
  {held : List L}

namespace Proc

/-- Others may have stepped in between. -/
theorem Safe.later {s s' : σ} (hc : Compatible rely guar cap) (hp : p.Safe effect rely guar Q held s)
    (hs : rely held s s') : p.Safe effect rely guar Q held s' := by
  cases p with
  | pure a => exact fun u hu => hp u (hc.trans _ _ _ _ hs hu)
  | raise e => trivial
  | ask o k =>
      cases o with
      | acquire l => exact fun u hu => hp u (hc.trans _ _ _ _ hs hu)
      | release l => exact fun u hu => hp u (hc.trans _ _ _ _ hs hu)
      | own o => exact fun u hu => hp u (hc.trans _ _ _ _ hs hu)

theorem Safe.bind {R : β → List L → σ → Prop} {f : α → Threaded L Answer ε β} {s : σ}
    (hc : Compatible rely guar cap) (hp : p.Safe effect rely guar Q held s)
    (hf : ∀ a held s, Q a held s → (f a).Safe effect rely guar R held s) :
    (p.bind f).Safe effect rely guar R held s := by
  induction p generalizing held s with
  | pure a => exact hf a held s (hp s (hc.refl _ _))
  | raise e => trivial
  | ask o k ih =>
      cases o with
      | acquire l => exact fun u hu => ih () (hp u hu)
      | release l => exact fun u hu => ih () (hp u hu)
      | own o =>
          intro u hu r v hv
          exact ⟨(hp u hu r v hv).1, ih r (hp u hu r v hv).2⟩

theorem Safe.guard {f : ε → Threaded L Answer ε α} {s : σ}
    (hp : p.Safe effect rely guar Q held s)
    (hf : ∀ e held s, (f e).Safe effect rely guar Q held s) :
    (p.guard f).Safe effect rely guar Q held s := by
  induction p generalizing held s with
  | pure a => exact hp
  | raise e => exact hf e held s
  | ask o k ih =>
      cases o with
      | acquire l => exact fun u hu => ih () (hp u hu)
      | release l => exact fun u hu => ih () (hp u hu)
      | own o =>
          intro u hu r v hv
          exact ⟨(hp u hu r v hv).1, ih r (hp u hu r v hv).2⟩

theorem Safe.mono {R : α → List L → σ → Prop} {s : σ} (hp : p.Safe effect rely guar Q held s)
    (hQ : ∀ a held s, Q a held s → R a held s) : p.Safe effect rely guar R held s := by
  induction p generalizing held s with
  | pure a => exact fun u hu => hQ a held u (hp u hu)
  | raise e => trivial
  | ask o k ih =>
      cases o with
      | acquire l => exact fun u hu => ih () (hp u hu)
      | release l => exact fun u hu => ih () (hp u hu)
      | own o =>
          intro u hu r v hv
          exact ⟨(hp u hu r v hv).1, ih r (hp u hu r v hv).2⟩

/-- What a `finally` clause that may run anywhere leaves to stand. -/
theorem Safe.ending {q : Threaded L Answer ε Unit} {s : σ} (hc : Compatible rely guar cap)
    (hp : p.Safe effect rely guar Q held s)
    (hq : ∀ held s, q.Safe effect rely guar (fun _ held' s' => held' = held ∧ rely held s s') held s)
    (hQ : ∀ a held s s', Q a held s → rely held s s' → Q a held s') :
    (p.ending q).Safe effect rely guar Q held s := by
  refine (hp.guard fun e held s =>
    (hq held s).bind (f := fun _ => raise e) hc fun _ _ _ _ => trivial).bind hc ?_
  refine fun a held s ha => (hq held s).bind (f := fun _ => pure a) hc ?_
  rintro _ _ u ⟨rfl, hu⟩ v hv
  exact hQ a _ _ _ ha (hc.trans _ _ _ _ hu hv)

/-- **`with`**: what the body returns has to stand without the lock. -/
theorem safe_withLock {l : L} {R : α → List L → σ → Prop} {s : σ} (hc : Compatible rely guar cap)
    (hp : ∀ s', rely held s s' →
      p.Safe effect rely guar (fun a held' s => held' = l :: held ∧ ∀ s', rely held s s' → R a held s')
        (l :: held) s') :
    (withLock l p).Safe effect rely guar R held s := by
  intro s' hs'
  refine Safe.bind hc ((hp s' hs').guard fun e inner u => ?_) ?_
  · exact fun _ _ => trivial
  · rintro a inner u ⟨rfl, hR⟩ v hv w hw
    rw [List.erase_cons_head] at hw
    rw [List.erase_cons_head]
    exact hR w (hc.trans _ _ _ _ (hc.fewer _ _ _ _ hv) hw)

end Proc

namespace Threads

variable {programs : ι → Threaded L Answer ε α} {rank : L → ℕ} {s s' : Threads L Answer ε α σ}

variable (guar) in
/-- A thread that holds `held` does as it guarantees, or leaves alone what is shared. -/
def Kept (held : List L) : Option ((o : LockOp L Op) × LockAnswer L Answer o) → σ → σ → Prop
  | some ⟨.own o, r⟩, s, s' => guar held o r s s'
  | _, s, s' => s' = s

variable (effect rely guar) in
/-- Every thread goes on as it guarantees. -/
def Guarded (s : Threads L Answer ε α σ) : Prop :=
  ∀ t ∈ s.threads, t.prog.Safe effect rely guar (fun _ _ _ => True) t.held s.shared

/-- A lock that two threads hold can be held twice. -/
theorem one_lt_cap (hs : Ordered rank cap s) {a b : List (Thread L Answer ε α)}
    {t u : Thread L Answer ε α} (hthreads : s.threads = a ++ t :: b) (hu : u ∈ a ∨ u ∈ b) {l : L}
    (ht : l ∈ t.held) (hu' : l ∈ u.held) : 1 < cap l := by
  have hle := held_le hs l
  have h₁ : 0 < t.held.count l := List.count_pos_iff.mpr ht
  have h₂ : 0 < u.held.count l := List.count_pos_iff.mpr hu'
  have hsum : u.held.count l ≤ (a.map fun t => t.held.count l).sum +
      (b.map fun t => t.held.count l).sum := by
    have hone : ∀ c : List (Thread L Answer ε α), u ∈ c →
        u.held.count l ≤ (c.map fun t => t.held.count l).sum := fun c hc =>
      List.single_le_sum (by simp) _ (List.mem_map_of_mem (f := fun t => t.held.count l) hc)
    obtain hu | hu := hu
    · exact (hone a hu).trans (Nat.le_add_right _ _)
    · exact (hone b hu).trans (Nat.le_add_left _ _)
  simp only [hthreads, List.map_append, List.map_cons, List.sum_append, List.sum_cons] at hle
  omega

/-- What a step of a thread does to what is shared. -/
theorem kept_of_advances {t : Thread L Answer ε α} {held' : List L} {prog' : Threaded L Answer ε α}
    {shared : σ} {permits : L → ℕ} {answer : ∀ o, Answer o} (hc : Compatible rely guar cap)
    (hsafe : t.prog.Safe effect rely guar (fun _ _ _ => True) t.held s.shared)
    (hadv : Advances effect s answer t.held t.prog shared permits held' prog') :
    prog'.Safe effect rely guar (fun _ _ _ => True) held' shared ∧
      Kept guar t.held (asks answer t) s.shared shared := by
  obtain ⟨held, prog⟩ := t
  cases hadv with
  | acquire | release => exact ⟨hsafe _ (hc.refl _ _), rfl⟩
  | own heff =>
      obtain ⟨hguar, hrest⟩ := hsafe _ (hc.refl _ _) _ _ heff
      exact ⟨hrest, hguar⟩

omit [DecidableEq L] in
/-- Another thread can rely on it. -/
theorem rely_of_kept (hc : Compatible rely guar cap) {held held' : List L}
    {r : Option ((o : LockOp L Op) × LockAnswer L Answer o)} {s s' : σ}
    (hk : Kept guar held r s s') (hone : ∀ l ∈ held, l ∈ held' → 1 < cap l) : rely held' s s' := by
  obtain _ | ⟨l | l | o, r⟩ := r
  · exact hk ▸ hc.refl _ _
  · exact hk ▸ hc.refl _ _
  · exact hk ▸ hc.refl _ _
  · exact hc.guar_rely held held' o r s s' hone hk

/-- **One step.** -/
theorem Guarded.step (hc : Compatible rely guar cap) (hs : Ordered rank cap s)
    (hg : Guarded effect rely guar s)
    (hsafe : ∀ i s, (programs i).Safe effect rely guar (fun _ _ _ => True) [] s)
    {e : ThreadEvent ι Answer} {r : Option ((o : LockOp L Op) × LockAnswer L Answer o)}
    (h : step effect programs s e = some (s', r)) :
    Guarded effect rely guar s' ∧ ∃ held, Kept guar held r s.shared s'.shared := by
  cases e with
  | start i =>
      cases h
      refine ⟨fun t ht => ?_, [], rfl⟩
      obtain ht | ht := List.mem_append.mp ht
      · exact hg t ht
      · obtain rfl := List.mem_singleton.mp ht
        exact hsafe i _
  | run n answer =>
      obtain ⟨a, t, b, t', hbefore, hafter, rfl, hadv⟩ := step_run h
      obtain ⟨hthread, hkept⟩ := kept_of_advances hc (hg t (by simp [hbefore])) hadv
      have hothers : ∀ u, u ∈ a ∨ u ∈ b →
          u.prog.Safe effect rely guar (fun _ _ _ => True) u.held s'.shared := fun u hu =>
        (hg u (by rw [hbefore]; simpa using hu.imp_right .inr)).later hc
          (rely_of_kept hc hkept fun l ht hu' => one_lt_cap hs hbefore hu ht hu')
      refine ⟨fun u hu => ?_, t.held, hkept⟩
      rw [hafter] at hu
      obtain hu | hu := List.mem_append.mp hu
      · exact hothers u (.inl hu)
      · obtain rfl | hu := List.mem_cons.mp hu
        · exact hthread
        · exact hothers u (.inr hu)

/-- **In every run** of safe programs. -/
theorem guarded {shared : σ} (hc : Compatible rely guar cap)
    (hnested : ∀ i, (programs i).Nested rank [] [])
    (hsafe : ∀ i s, (programs i).Safe effect rely guar (fun _ _ _ => True) [] s)
    {h : List (Entry (Threads L Answer ε α σ) (ThreadEvent ι Answer)
      (Option ((o : LockOp L Op) × LockAnswer L Answer o)))}
    (run : (threadMachine effect programs cap shared).Run h s) : Guarded effect rely guar s :=
  Machine.Run.invariant (I := fun _ s => Guarded effect rely guar s) (by simp [Guarded, threadMachine])
    (fun _ _ _ _ _ run ih hstep => (ih.step hc (ordered hnested run) hsafe hstep).1) run

/-- **Every operation of every run does as its program guarantees**; nothing else changes what is
shared. -/
theorem guaranteed {shared : σ} (hc : Compatible rely guar cap)
    (hnested : ∀ i, (programs i).Nested rank [] [])
    (hsafe : ∀ i s, (programs i).Safe effect rely guar (fun _ _ _ => True) [] s)
    {h : List (Entry (Threads L Answer ε α σ) (ThreadEvent ι Answer)
      (Option ((o : LockOp L Op) × LockAnswer L Answer o)))}
    (run : (threadMachine effect programs cap shared).Run h s) :
    ∀ x ∈ h, ∃ held, Kept guar held x.reply x.before.shared x.after.shared := by
  intro x hx
  obtain ⟨h₁, h₂, rfl⟩ := List.append_of_mem hx
  obtain ⟨before, hstep, -⟩ := run.split
  exact ((guarded hc hnested hsafe before).step hc (ordered hnested before) hsafe hstep).2

end Threads

end Safe

end Vemsa.Support
