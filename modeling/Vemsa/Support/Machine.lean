import Mathlib

/-!
# Support — Machine

A machine answers events: from a state, an event is refused or leads to a state with a reply.
A *path* is a sequence of accepted events, logged step by step with the state before and the
state after, so that a statement about a run can speak of every moment of it.

* `Path.append_iff`: a path splits at every point of its log.
* `Run.invariant`: what holds at the start and survives a step of a run holds after every run.
* `Run.refines`: if each step of `M` is a path of `N` between the abstracted states, every run
  of `M` is, abstracted, a run of `N`.
-/

namespace Vemsa.Support

/-- One logged step: the state it left, the event, the reply, and the state it reached. -/
structure Entry (σ ε ρ : Type*) where
  before : σ
  event : ε
  reply : ρ
  after : σ

/-- A deterministic machine; what the environment chooses is part of the event. -/
structure Machine (σ ε ρ : Type*) where
  init : σ
  step : σ → ε → Option (σ × ρ)

namespace Machine

variable {σ ε ρ σ' ε' ρ' : Type*} (M : Machine σ ε ρ) (N : Machine σ' ε' ρ')

/-- `M` goes from one state to another by the steps the log lists. -/
inductive Path : σ → List (Entry σ ε ρ) → σ → Prop where
  | nil (s : σ) : Path s [] s
  | snoc {s t u : σ} {h : List (Entry σ ε ρ)} {e : ε} {r : ρ}
      (p : Path s h t) (hs : M.step t e = some (u, r)) : Path s (h ++ [⟨t, e, r, u⟩]) u

/-- A path from the initial state. -/
abbrev Run (h : List (Entry σ ε ρ)) (s : σ) : Prop := M.Path M.init h s

/-- The events in order, each answered by `step`; `none` once one is refused. -/
def exec : List ε → σ → Option (List (Entry σ ε ρ) × σ)
  | [], s => some ([], s)
  | e :: es, s =>
    match M.step s e with
    | none => none
    | some (t, r) =>
      match exec es t with
      | none => none
      | some (h, u) => some (⟨s, e, r, t⟩ :: h, u)

variable {M N}

/-! ### Paths -/

theorem Path.one {s t : σ} {e : ε} {r : ρ} (hs : M.step s e = some (t, r)) :
    M.Path s [⟨s, e, r, t⟩] t :=
  .snoc (.nil s) hs

theorem Path.append {s t u : σ} {h₁ h₂ : List (Entry σ ε ρ)} (p : M.Path s h₁ t)
    (q : M.Path t h₂ u) : M.Path s (h₁ ++ h₂) u := by
  induction q with
  | nil => simpa using p
  | snoc _ hs ih =>
      rw [← List.append_assoc]
      exact .snoc ih hs

/-- The last step of a path with a nonempty log. -/
theorem Path.snoc_inv {s u : σ} {h : List (Entry σ ε ρ)} {x : Entry σ ε ρ}
    (p : M.Path s (h ++ [x]) u) :
    M.Path s h x.before ∧ M.step x.before x.event = some (x.after, x.reply) ∧ u = x.after := by
  generalize hk : h ++ [x] = k at p
  cases p with
  | nil => simp at hk
  | snoc p hs =>
      obtain ⟨rfl, hx⟩ := List.append_inj' hk rfl
      obtain rfl := List.singleton_inj.mp hx
      exact ⟨p, hs, rfl⟩

/-- **A path splits at every point of its log.** -/
theorem Path.append_iff {s u : σ} {h₁ h₂ : List (Entry σ ε ρ)} :
    M.Path s (h₁ ++ h₂) u ↔ ∃ t, M.Path s h₁ t ∧ M.Path t h₂ u := by
  refine ⟨fun p => ?_, fun ⟨t, p, q⟩ => p.append q⟩
  induction h₂ using List.reverseRecOn generalizing u with
  | nil => exact ⟨u, by simpa using p, .nil u⟩
  | append_singleton h x ih =>
      rw [← List.append_assoc] at p
      obtain ⟨q, hs, rfl⟩ := p.snoc_inv
      obtain ⟨t, p₁, p₂⟩ := ih q
      exact ⟨t, p₁, .snoc p₂ hs⟩

/-- Around a logged step: the path up to it, the step, and the path after it. -/
theorem Path.split {s u : σ} {h₁ h₂ : List (Entry σ ε ρ)} {x : Entry σ ε ρ}
    (p : M.Path s (h₁ ++ x :: h₂) u) :
    M.Path s h₁ x.before ∧ M.step x.before x.event = some (x.after, x.reply) ∧
      M.Path x.after h₂ u := by
  rw [← List.singleton_append, ← List.append_assoc] at p
  obtain ⟨t, p₁, p₂⟩ := Path.append_iff.mp p
  obtain ⟨q, hs, rfl⟩ := p₁.snoc_inv
  exact ⟨q, hs, p₂⟩

/-- The first step of a path with a nonempty log. -/
theorem Path.cons_inv {s u : σ} {h : List (Entry σ ε ρ)} {x : Entry σ ε ρ} (p : M.Path s (x :: h) u) :
    s = x.before ∧ M.step x.before x.event = some (x.after, x.reply) ∧ M.Path x.after h u := by
  rw [← List.nil_append (x :: h)] at p
  obtain ⟨q, hs, rest⟩ := p.split
  refine ⟨?_, hs, rest⟩
  generalize hk : ([] : List (Entry σ ε ρ)) = k at q
  cases q with
  | nil => rfl
  | snoc q hs => simp at hk

theorem Path.step_of_mem {s u : σ} {h : List (Entry σ ε ρ)} {x : Entry σ ε ρ}
    (p : M.Path s h u) (hx : x ∈ h) : M.step x.before x.event = some (x.after, x.reply) := by
  obtain ⟨h₁, h₂, rfl⟩ := List.append_of_mem hx
  exact p.split.2.1

/-- A property every step keeps is kept along a path. -/
theorem Path.preserves {I : σ → Prop} {s u : σ} {h : List (Entry σ ε ρ)} (p : M.Path s h u)
    (hI : ∀ t e t' r, M.step t e = some (t', r) → I t → I t') (hs : I s) : I u := by
  induction p with
  | nil => exact hs
  | snoc _ hstep ih => exact hI _ _ _ _ hstep ih

/-- What the executor answers is a path. -/
theorem Path.of_exec {es : List ε} {s u : σ} {h : List (Entry σ ε ρ)}
    (hx : M.exec es s = some (h, u)) : M.Path s h u := by
  induction es generalizing s h with
  | nil =>
      obtain ⟨rfl, rfl⟩ : [] = h ∧ s = u := by simpa [exec] using hx
      exact .nil s
  | cons e es ih =>
      simp only [exec] at hx
      split at hx
      · cases hx
      · rename_i t r hst
        split at hx
        · cases hx
        · rename_i h' u' hex
          simp only [Option.some.injEq, Prod.mk.injEq] at hx
          obtain ⟨rfl, rfl⟩ := hx
          exact (Path.one hst).append (ih hex)

/-- A run found by evaluation, with whatever evaluation shows of it. -/
theorem Run.of_exec (M : Machine σ ε ρ) (es : List ε) (p : List (Entry σ ε ρ) → σ → Bool)
    (hx : ((M.exec es M.init).any fun x => p x.1 x.2) = true) :
    ∃ h s, M.Run h s ∧ p h s = true := by
  cases he : M.exec es M.init with
  | none => rw [he] at hx; cases hx
  | some x =>
      rw [he] at hx
      exact ⟨x.1, x.2, Path.of_exec he, hx⟩

/-- The log of an evaluation lists the events it was given. -/
theorem events_of_exec {es : List ε} {s u : σ} {h : List (Entry σ ε ρ)}
    (hx : M.exec es s = some (h, u)) : h.map Entry.event = es := by
  induction es generalizing s h with
  | nil =>
      obtain ⟨rfl, -⟩ : [] = h ∧ s = u := by simpa [exec] using hx
      rfl
  | cons e es ih =>
      simp only [exec] at hx
      split at hx
      · cases hx
      · split at hx
        · cases hx
        · rename_i h' u' hex
          simp only [Option.some.injEq, Prod.mk.injEq] at hx
          obtain ⟨rfl, rfl⟩ := hx
          rw [List.map_cons, ih hex]

/-- A run found by evaluation, cut at one of its events. -/
theorem Run.of_exec_at (M : Machine σ ε ρ) (es₁ : List ε) (e : ε) (es₂ : List ε) (p : σ → Bool)
    (hx : ((M.exec (es₁ ++ e :: es₂) M.init).any fun x => p x.2) = true) :
    ∃ h₁ x h₂ s, M.Run (h₁ ++ x :: h₂) s ∧ x.event = e ∧ p s = true := by
  cases he : M.exec (es₁ ++ e :: es₂) M.init with
  | none => rw [he] at hx; cases hx
  | some y =>
      rw [he] at hx
      obtain ⟨h₁, h', hh, -, hrest⟩ := List.map_eq_append_iff.mp (events_of_exec he)
      obtain ⟨x, h₂, rfl, hevent, -⟩ := List.map_eq_cons_iff.mp hrest
      exact ⟨h₁, x, h₂, y.2, hh ▸ Path.of_exec he, hevent, hx⟩

/-! ### Invariants and refinement -/

/-- **Invariants.**  What holds of the empty log and the initial state, and survives each step
a run can take, holds after every run. -/
theorem Run.invariant {I : List (Entry σ ε ρ) → σ → Prop} (h₀ : I [] M.init)
    (hI : ∀ h s e s' r, M.Run h s → I h s → M.step s e = some (s', r) →
      I (h ++ [⟨s, e, r, s'⟩]) s') :
    ∀ {h s}, M.Run h s → I h s := by
  intro h s p
  induction p with
  | nil => exact h₀
  | snoc p hs ih => exact hI _ _ _ _ _ p ih hs

/-- **Refinement.**  When every step a run of `M` takes is, abstracted by `f`, the path of `N`
that `tr` reads off its log entry, a run of `M` is a run of `N` over the translated log. -/
theorem Run.refines {f : σ → σ'} {tr : Entry σ ε ρ → List (Entry σ' ε' ρ')}
    (h₀ : f M.init = N.init)
    (hstep : ∀ h s e s' r, M.Run h s → M.step s e = some (s', r) →
      N.Path (f s) (tr ⟨s, e, r, s'⟩) (f s')) :
    ∀ {h s}, M.Run h s → N.Run (h.flatMap tr) (f s) := by
  refine Run.invariant (I := fun h s => N.Run (h.flatMap tr) (f s)) ?_ fun h s e s' r p ih hs => ?_
  · simpa [h₀] using Path.nil (M := N) N.init
  · rw [List.flatMap_append, List.flatMap_singleton]
    exact ih.append (hstep h s e s' r p hs)

end Machine

end Vemsa.Support
