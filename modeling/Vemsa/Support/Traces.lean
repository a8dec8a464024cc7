import Vemsa.Support.Logs

/-!
# Support — Traces

Pre- and postconditions of a program that speak of everything it asked so far.  `Traced given Q E p h`
says of the program `p`, started after the log `h`: however it is answered, as long as the answers are
`given`, what it returns meets `Q` with the log by then, and what it raises meets `E`.

* `Traced.bind`, `Traced.guard`: the rules.
* `Traced.ran`: what is traced holds of every run.
-/

namespace Vemsa.Support.Proc

variable {Op : Type} {Answer : Op → Type} {ε α β : Type}

/-- `Q` of what is returned, `E` of what is raised. -/
def Post (Q : α → List (Asked Answer) → Prop) (E : ε → List (Asked Answer) → Prop) :
    Except ε α → List (Asked Answer) → Prop
  | .ok a, h => Q a h
  | .error e, h => E e h

variable (given : ∀ o, Answer o → Prop) in
def Traced (Q : α → List (Asked Answer) → Prop) (E : ε → List (Asked Answer) → Prop) :
    Proc Answer ε α → List (Asked Answer) → Prop
  | pure a, h => Q a h
  | raise e, h => E e h
  | ask o k, h => ∀ r, given o r → (k r).Traced Q E (h ++ [⟨o, r⟩])

variable {given : ∀ o, Answer o → Prop} {p : Proc Answer ε α} {h : List (Asked Answer)}
  {Q Q' : α → List (Asked Answer) → Prop} {E E' : ε → List (Asked Answer) → Prop}

theorem Traced.mono (hp : p.Traced given Q E h) (hQ : ∀ a h, Q a h → Q' a h)
    (hE : ∀ e h, E e h → E' e h) : p.Traced given Q' E' h := by
  induction p generalizing h with
  | pure a => exact hQ a h hp
  | raise e => exact hE e h hp
  | ask o k ih => exact fun r hr => ih r (hp r hr)

/-- **Sequencing.** -/
theorem Traced.bind {R : β → List (Asked Answer) → Prop} {f : α → Proc Answer ε β}
    (hp : p.Traced given Q E h) (hf : ∀ a h, Q a h → (f a).Traced given R E h) :
    (p >>= f).Traced given R E h := by
  induction p generalizing h with
  | pure a => exact hf a h hp
  | raise e => exact hp
  | ask o k ih => exact fun r hr => ih r (hp r hr)

/-- **`try` and `except`.** -/
theorem Traced.guard {f : ε → Proc Answer ε α} (hp : p.Traced given Q E h)
    (hf : ∀ e h, E e h → (f e).Traced given Q E' h) : (p.guard f).Traced given Q E' h := by
  induction p generalizing h with
  | pure a => exact hp
  | raise e => exact hf e h hp
  | ask o k ih => exact fun r hr => ih r (hp r hr)

/-- **What is traced holds of every run**, whose answers are given. -/
theorem Traced.ran {log : List (Asked Answer)} {out : Except ε α} (hp : p.Traced given Q E h)
    (hran : p.Ran log out) (hgiven : ∀ x ∈ log, given x.1 x.2) : Post Q E out (h ++ log) := by
  induction p generalizing h log with
  | pure a =>
      obtain ⟨rfl, rfl⟩ := hran
      rw [List.append_nil]
      exact hp
  | raise e =>
      obtain ⟨rfl, rfl⟩ := hran
      rw [List.append_nil]
      exact hp
  | ask o k ih =>
      obtain ⟨r, rest, rfl, hrest⟩ := hran
      obtain ⟨hr, hgiven⟩ := List.forall_mem_cons.mp hgiven
      have hpost := ih r (hp r hr) hrest hgiven
      rwa [List.append_assoc] at hpost

/-- Answers that are all given are given in the run they make. -/
theorem exec_given {answers : ℕ → ∀ o, Answer o} (hgiven : ∀ i o, given o (answers i o)) (i : ℕ)
    (p : Proc Answer ε α) : ∀ x ∈ (p.exec answers i).1, given x.1 x.2 := by
  induction p generalizing i with
  | pure a => nofun
  | raise e => nofun
  | ask o k ih => exact List.forall_mem_cons.mpr ⟨hgiven i o, ih _ (i + 1)⟩

end Vemsa.Support.Proc
