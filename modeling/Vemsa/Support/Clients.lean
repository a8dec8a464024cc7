import Vemsa.Support.Machine
import Vemsa.Support.Procs

/-!
# Support — Clients

A client of a machine: a program whose operations read the state of the machine, or are events of
it, while everybody else who uses the machine moves it between any two of them.  Other clients are
everybody else, so one program beside arbitrary steps is any number of them.

* `Served`: a client's program from its first operation to its outcome, with the path of the machine
  before every operation.
* `served_of_run`: every run that comes to an outcome is one.
* `Served.path`: what was served is a path of the machine, so every moment of it is one of a run.
* `Served.ask_inv`: how a program was served, operation by operation.
-/

namespace Vemsa.Support

/-- How a machine serves an operation: by an event of its own, or by none, and with an answer.  The
environment has a say in both. -/
structure Service (σ ε ρ χ : Type) {Op : Type} (Answer : Op → Type) where
  event : (o : Op) → χ → Option ε
  answer : (o : Op) → χ → σ → Option ρ → Answer o

variable {σ ε ρ χ ξ α Op : Type} {Answer : Op → Type}

/-- The program has returned, or has raised. -/
def Proc.outcome : Proc Answer ξ α → Option (Except ξ α)
  | .pure a => some (.ok a)
  | .raise e => some (.error e)
  | .ask _ _ => none

namespace Machine

variable (M : Machine σ ε ρ) (S : Service σ ε ρ χ Answer)

/-- The next operation of a program, which the machine serves. -/
def serve (s : σ) (c : χ) :
    Proc Answer ξ α → Option ((σ × Proc Answer ξ α) × Option (Entry σ ε ρ))
  | .pure _ | .raise _ => none
  | .ask o k =>
    match S.event o c with
    | none => some ((s, k (S.answer o c s none)), none)
    | some e => (M.step s e).map fun (t, r) => ((t, k (S.answer o c t (some r))), some ⟨s, e, r, t⟩)

/-- A program beside everybody else: they move the machine, or the program is served.  The reply is
the step the machine took, if it took one. -/
def client (p : Proc Answer ξ α) (s : σ) :
    Machine (σ × Proc Answer ξ α) (ε ⊕ χ) (Option (Entry σ ε ρ)) where
  init := (s, p)
  step
    | (s, p), .inl e => (M.step s e).map fun (t, r) => ((t, p), some ⟨s, e, r, t⟩)
    | (s, p), .inr c => M.serve S s c p

/-- The steps the machine took. -/
def taken (h : List (Entry (σ × Proc Answer ξ α) (ε ⊕ χ) (Option (Entry σ ε ρ)))) :
    List (Entry σ ε ρ) :=
  h.filterMap Entry.reply

/-- **A program is served**, from a state to another, along the steps that the log lists. -/
inductive Served : Proc Answer ξ α → σ → List (Entry σ ε ρ) → σ → Except ξ α → Prop where
  | pure {a : α} {s t : σ} {h : List (Entry σ ε ρ)} (rest : M.Path s h t) :
      Served (.pure a) s h t (.ok a)
  | raise {e : ξ} {s t : σ} {h : List (Entry σ ε ρ)} (rest : M.Path s h t) :
      Served (.raise e) s h t (.error e)
  | read {o : Op} {k : Answer o → Proc Answer ξ α} {s t u : σ} {h₁ h₂ : List (Entry σ ε ρ)} {c : χ}
      {r : Except ξ α} (wait : M.Path s h₁ t) (hevent : S.event o c = none)
      (rest : Served (k (S.answer o c t none)) t h₂ u r) : Served (.ask o k) s (h₁ ++ h₂) u r
  | call {o : Op} {k : Answer o → Proc Answer ξ α} {s u : σ} {h₁ h₂ : List (Entry σ ε ρ)}
      {x : Entry σ ε ρ} {c : χ} {r : Except ξ α} (wait : M.Path s h₁ x.before)
      (hevent : S.event o c = some x.event) (hstep : M.step x.before x.event = some (x.after, x.reply))
      (rest : Served (k (S.answer o c x.after (some x.reply))) x.after h₂ u r) :
      Served (.ask o k) s (h₁ ++ x :: h₂) u r

/-- At some moment of a path. -/
def Sometime (s : σ) (h : List (Entry σ ε ρ)) (u : σ) (X : σ → Prop) : Prop :=
  ∃ h₁ t h₂, h = h₁ ++ h₂ ∧ M.Path s h₁ t ∧ M.Path t h₂ u ∧ X t

variable {M S} {p q : Proc Answer ξ α} {s t u : σ} {h : List (Entry σ ε ρ)} {r : Except ξ α}

/-- What happens before the first operation of a program is part of how it is served. -/
theorem Served.after {h₀ : List (Entry σ ε ρ)} (wait : M.Path s h₀ t) (served : M.Served S p t h u r) :
    M.Served S p s (h₀ ++ h) u r := by
  cases served with
  | pure rest => exact .pure (wait.append rest)
  | raise rest => exact .raise (wait.append rest)
  | read wait' hevent rest =>
      rw [← List.append_assoc]
      exact .read (wait.append wait') hevent rest
  | call wait' hevent hstep rest =>
      rw [← List.append_assoc]
      exact .call (wait.append wait') hevent hstep rest

/-- **What was served is a path of the machine.** -/
theorem Served.path (served : M.Served S p s h t r) : M.Path s h t := by
  induction served with
  | pure rest | raise rest => exact rest
  | read wait _ _ ih => exact wait.append ih
  | call wait _ hstep _ ih =>
      refine wait.append ?_
      rw [← List.singleton_append]
      exact (Path.one hstep).append ih

/-- The first operation of a program, and when it was served. -/
theorem Served.ask_inv {o : Op} {k : Answer o → Proc Answer ξ α}
    (served : M.Served S (.ask o k) s h u r) :
    (∃ c h₁ v h₂, h = h₁ ++ h₂ ∧ M.Path s h₁ v ∧ S.event o c = none ∧
      M.Served S (k (S.answer o c v none)) v h₂ u r) ∨
    ∃ c h₁ x h₂, h = h₁ ++ x :: h₂ ∧ M.Path s h₁ x.before ∧ S.event o c = some x.event ∧
      M.step x.before x.event = some (x.after, x.reply) ∧
      M.Served S (k (S.answer o c x.after (some x.reply))) x.after h₂ u r := by
  cases served with
  | read wait hevent rest => exact .inl ⟨_, _, _, _, rfl, wait, hevent, rest⟩
  | call wait hevent hstep rest => exact .inr ⟨_, _, _, _, rfl, wait, hevent, hstep, rest⟩

theorem Served.pure_inv {a : α} (served : M.Served S (.pure a) s h u r) :
    r = .ok a ∧ M.Path s h u := by
  cases served with
  | pure rest => exact ⟨rfl, rest⟩

theorem Served.raise_inv {e : ξ} (served : M.Served S (.raise e : Proc Answer ξ α) s h u r) :
    r = .error e ∧ M.Path s h u := by
  cases served with
  | raise rest => exact ⟨rfl, rest⟩

/-- What a step of a program beside everybody else comes to. -/
theorem served_of_step {x : Entry (σ × Proc Answer ξ α) (ε ⊕ χ) (Option (Entry σ ε ρ))}
    (hstep : (M.client S p s).step x.before x.event = some (x.after, x.reply))
    (served : M.Served S x.after.2 x.after.1 h u r) :
    M.Served S x.before.2 x.before.1 (x.reply.toList ++ h) u r := by
  obtain ⟨⟨s₁, p₁⟩, e, reply, ⟨s₂, p₂⟩⟩ := x
  cases e with
  | inl e =>
      obtain ⟨⟨t, r'⟩, hs, heq⟩ := Option.map_eq_some_iff.mp hstep
      cases heq
      exact .after (.one hs) served
  | inr c =>
      cases p₁ with
      | pure a => cases hstep
      | raise e => cases hstep
      | ask o k =>
          simp only [client, serve] at hstep
          split at hstep
          case h_1 hevent =>
            cases hstep
            change M.Served S _ _ ([] ++ h) _ _
            exact .read (.nil _) hevent served
          case h_2 e hevent =>
            obtain ⟨⟨t, r'⟩, hs, heq⟩ := Option.map_eq_some_iff.mp hstep
            cases heq
            change M.Served S _ _ ([] ++ ⟨s₁, e, r', t⟩ :: h) _ _
            exact .call (.nil _) hevent hs served

/-- **Every run of a program that comes to an outcome** is served along the steps that were taken. -/
theorem served_of_run {h : List (Entry (σ × Proc Answer ξ α) (ε ⊕ χ) (Option (Entry σ ε ρ)))}
    (run : (M.client S p s).Run h (t, q)) (hq : q.outcome = some r) :
    M.Served S p s (taken h) t r := by
  -- from any point of the run, the rest of it is served along the rest of the steps
  suffices hpath : ∀ (h : List (Entry (σ × Proc Answer ξ α) (ε ⊕ χ) (Option (Entry σ ε ρ)))) u,
      (M.client S p s).Path u h (t, q) → M.Served S u.2 u.1 (taken h) t r from hpath h (s, p) run
  intro h
  induction h with
  | nil =>
      intro u path
      generalize hk : ([] : List (Entry (σ × Proc Answer ξ α) (ε ⊕ χ) (Option (Entry σ ε ρ)))) = k
        at path
      cases path with
      | nil =>
          cases q with
          | pure a =>
              obtain rfl := Option.some.inj hq
              exact .pure (.nil _)
          | raise e =>
              obtain rfl := Option.some.inj hq
              exact .raise (.nil _)
          | ask o k => cases hq
      | snoc path hs => simp at hk
  | cons x h ih =>
      intro u path
      obtain ⟨rfl, hstep, rest⟩ := path.cons_inv
      have hserved := served_of_step hstep (ih _ rest)
      have htaken : taken (x :: h) = x.reply.toList ++ taken h := by
        cases hr : x.reply <;> simp [taken, hr]
      rw [htaken]
      exact hserved

/-- A run and, from where it ends, a run of a client, found by evaluation. -/
theorem client_of_exec (M : Machine σ ε ρ) (S : Service σ ε ρ χ Answer) (p : Proc Answer ξ α)
    (es : List ε) (fs : List (ε ⊕ χ)) (ok : Except ξ α → Bool)
    (hx : ((M.exec es M.init).any fun x => ((M.client S p x.2).exec fs (x.2, p)).any fun y =>
      y.2.2.outcome.any ok) = true) :
    ∃ h₀ s₀ g s q r, M.Run h₀ s₀ ∧ (M.client S p s₀).Run g (s, q) ∧ q.outcome = some r ∧ ok r = true := by
  obtain ⟨⟨h₀, s₀⟩, hexec, hx⟩ := (Option.any_eq_true _ _).mp hx
  obtain ⟨⟨g, s, q⟩, hexec', hx⟩ := (Option.any_eq_true _ _).mp hx
  obtain ⟨r, hr, hok⟩ := (Option.any_eq_true _ _).mp hx
  exact ⟨h₀, s₀, g, s, q, r, Path.of_exec hexec, Path.of_exec hexec', hr, hok⟩

end Machine

end Vemsa.Support
