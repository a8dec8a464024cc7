import Vemsa.Support.Procs

/-!
# Support — Logs

What a program asked, with the answers, up to its outcome.  A program is a finite tree, so however the
environment answers there is a log and an outcome (`ran_exec`).  The inversion lemmas say what a log of
a compound program is made of: `ran_bind`, `ran_guard`, `ran_ensuring`, `ran_embed`.
-/

namespace Vemsa.Support.Proc

variable {Op Op' : Type} {Answer : Op → Type} {Answer' : Op' → Type} {ε ε' α β : Type}

/-- An operation, and how it was answered. -/
abbrev Asked (Answer : Op → Type) := (o : Op) × Answer o

/-! ### Programs -/

/-- `try: p` and `finally: q` -/
def ensuring (p : Proc Answer ε α) (q : Proc Answer ε PUnit) : Proc Answer ε α :=
  (p.guard fun e => q >>= fun _ => raise e) >>= fun a => q >>= fun _ => pure a

/-- A program on other operations, among them the ones it asks. -/
def embed (inj : Op → Op') (read : ∀ o, Answer' (inj o) → Answer o) (f : ε → ε') :
    Proc Answer ε α → Proc Answer' ε' α
  | pure a => pure a
  | raise e => raise (f e)
  | ask o k => ask (inj o) fun r => (k (read o r)).embed inj read f

/-! ### Runs -/

/-- The program asks what the log lists, and comes to the outcome. -/
def Ran : Proc Answer ε α → List (Asked Answer) → Except ε α → Prop
  | pure a, log, out => log = [] ∧ out = .ok a
  | raise e, log, out => log = [] ∧ out = .error e
  | ask o k, log, out => ∃ r rest, log = ⟨o, r⟩ :: rest ∧ (k r).Ran rest out

/-- The run in which the `i`-th operation is answered by `answers i`. -/
def exec (answers : ℕ → ∀ o, Answer o) : ℕ → Proc Answer ε α → List (Asked Answer) × Except ε α
  | _, pure a => ([], .ok a)
  | _, raise e => ([], .error e)
  | i, ask o k =>
    let (log, out) := (k (answers i o)).exec answers (i + 1)
    (⟨o, answers i o⟩ :: log, out)

/-- **Every program terminates**, with the log and the outcome of a run. -/
theorem ran_exec (answers : ℕ → ∀ o, Answer o) (i : ℕ) (p : Proc Answer ε α) :
    p.Ran (p.exec answers i).1 (p.exec answers i).2 := by
  induction p generalizing i with
  | pure a => exact ⟨rfl, rfl⟩
  | raise e => exact ⟨rfl, rfl⟩
  | ask o k ih => exact ⟨answers i o, _, rfl, ih _ (i + 1)⟩

/-! ### Inversion -/

variable {p : Proc Answer ε α} {log : List (Asked Answer)}

theorem ran_bind {f : α → Proc Answer ε β} {out : Except ε β} (h : (p >>= f).Ran log out) :
    (∃ e, p.Ran log (.error e) ∧ out = .error e) ∨
      ∃ a first rest, log = first ++ rest ∧ p.Ran first (.ok a) ∧ (f a).Ran rest out := by
  induction p generalizing log with
  | pure a => exact .inr ⟨a, [], log, rfl, ⟨rfl, rfl⟩, h⟩
  | raise e =>
      obtain ⟨rfl, rfl⟩ := h
      exact .inl ⟨e, ⟨rfl, rfl⟩, rfl⟩
  | ask o k ih =>
      obtain ⟨r, rest, rfl, h⟩ := h
      rcases ih r h with ⟨e, hp, hout⟩ | ⟨a, first, rest, rfl, hp, hf⟩
      · exact .inl ⟨e, ⟨r, _, rfl, hp⟩, hout⟩
      · exact .inr ⟨a, ⟨o, r⟩ :: first, rest, rfl, ⟨r, first, rfl, hp⟩, hf⟩

theorem ran_guard {f : ε → Proc Answer ε α} {out : Except ε α} (h : (p.guard f).Ran log out) :
    (∃ a, p.Ran log (.ok a) ∧ out = .ok a) ∨
      ∃ e first rest, log = first ++ rest ∧ p.Ran first (.error e) ∧ (f e).Ran rest out := by
  induction p generalizing log with
  | pure a =>
      obtain ⟨rfl, rfl⟩ := h
      exact .inl ⟨a, ⟨rfl, rfl⟩, rfl⟩
  | raise e => exact .inr ⟨e, [], log, rfl, ⟨rfl, rfl⟩, h⟩
  | ask o k ih =>
      obtain ⟨r, rest, rfl, h⟩ := h
      rcases ih r h with ⟨a, hp, hout⟩ | ⟨e, first, rest, rfl, hp, hf⟩
      · exact .inl ⟨a, ⟨r, _, rfl, hp⟩, hout⟩
      · exact .inr ⟨e, ⟨o, r⟩ :: first, rest, rfl, ⟨r, first, rfl, hp⟩, hf⟩

/-- The clean-up runs once, after the program, and its exception replaces the outcome. -/
theorem ran_ensuring {q : Proc Answer ε PUnit} {out : Except ε α} (h : (p.ensuring q).Ran log out) :
    ∃ first rest out₁ out₂, log = first ++ rest ∧ p.Ran first out₁ ∧ q.Ran rest out₂ ∧
      out = out₂.bind fun _ => out₁ := by
  rcases ran_bind h with ⟨e, hguard, rfl⟩ | ⟨a, first, rest, rfl, hguard, hrest⟩
  · rcases ran_guard hguard with ⟨a, -, heq⟩ | ⟨e', first, rest, rfl, hp, hrest⟩
    · cases heq
    · rcases ran_bind hrest with ⟨e'', hq, heq⟩ | ⟨u, cleanup, nothing, rfl, hq, rfl, heq⟩
      · exact ⟨first, rest, .error e', .error e'', rfl, hp, hq, heq⟩
      · rw [List.append_nil]
        exact ⟨first, cleanup, .error e', .ok u, rfl, hp, hq, heq⟩
  · rcases ran_guard hguard with ⟨a', hp, heq⟩ | ⟨e, first', rest', rfl, hp, hq⟩
    · obtain rfl := Except.ok.inj heq
      rcases ran_bind hrest with ⟨e, hq, rfl⟩ | ⟨u, cleanup, nothing, rfl, hq, rfl, heq⟩
      · exact ⟨first, rest, .ok a, .error e, rfl, hp, hq, rfl⟩
      · rw [List.append_nil]
        exact ⟨first, cleanup, .ok a, .ok u, rfl, hp, hq, heq⟩
    · -- a handler that raises again does not return
      rcases ran_bind hq with ⟨e', -, heq⟩ | ⟨u, _, _, -, -, hraise⟩
      · cases heq
      · cases hraise.2

theorem ran_embed {inj : Op → Op'} {read : ∀ o, Answer' (inj o) → Answer o} {f : ε → ε'}
    {log : List (Asked Answer')} {out : Except ε' α} (h : (p.embed inj read f).Ran log out) :
    ∀ x ∈ log, ∃ o, x.1 = inj o := by
  induction p generalizing log with
  | pure a =>
      obtain ⟨rfl, -⟩ := h
      simp
  | raise e =>
      obtain ⟨rfl, -⟩ := h
      simp
  | ask o k ih =>
      obtain ⟨r, rest, rfl, h⟩ := h
      exact List.forall_mem_cons.mpr ⟨⟨o, rfl⟩, ih _ h⟩

end Vemsa.Support.Proc
