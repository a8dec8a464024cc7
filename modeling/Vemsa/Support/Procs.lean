import Vemsa.Support.Machine

/-!
# Support — Procs

Programs that ask: a program performs an operation, the environment answers, and the program goes on
from the answer, until it returns or raises.  A loop runs one such program after the other
(`loopMachine`), and a run of it is a finite sequence of answers.

* `Proc.Spec`: pre- and postconditions of a program, with the answers that are *given*, and those
  that are *fine*: a fine answer keeps the program to its specification, any other makes it raise.
* `Proc.Spec.bind`, `Proc.Spec.guard`, `Proc.Spec.forM`: the rules.
* `loop_alive`: where every round of a loop meets its specification, the loop goes on exactly as
  long as all answers are fine.
-/

namespace Vemsa.Support

/-- A program that asks operations `o`, each answered in `Answer o`, and raises `ε`. -/
inductive Proc {Op : Type} (Answer : Op → Type) (ε α : Type) where
  | pure (a : α)
  | raise (e : ε)
  | ask (o : Op) (k : Answer o → Proc Answer ε α)

namespace Proc

variable {Op : Type} {Answer : Op → Type} {ε α β σ : Type}

def bind : Proc Answer ε α → (α → Proc Answer ε β) → Proc Answer ε β
  | pure a, f => f a
  | raise e, _ => raise e
  | ask o k, f => ask o fun r => (k r).bind f

/-- `try: p` with the handler `f`; a handler that does not take the exception raises it again. -/
def guard : Proc Answer ε α → (ε → Proc Answer ε α) → Proc Answer ε α
  | pure a, _ => pure a
  | raise e, f => f e
  | ask o k, f => ask o fun r => (k r).guard f

instance : Monad (Proc Answer ε) where
  pure := pure
  bind := bind

/-- An operation that always answers. -/
def read (o : Op) : Proc Answer ε (Answer o) := ask o pure

/-- What an operation raised is raised. -/
def ofExcept : Except ε α → Proc Answer ε α
  | .ok a => pure a
  | .error e => raise e

/-! ### Specifications -/

variable (given fine : ∀ o, Answer o → Prop)

/-- What the program returns meets `Q`, what it raises meets `E`; and at an answer that is not fine it
raises something that meets `F`. -/
def Spec (Q : α → Prop) (E F : ε → Prop) : Proc Answer ε α → Prop
  | pure a => Q a
  | raise e => E e
  | ask o k => ∀ r, given o r → (fine o r → (k r).Spec Q E F) ∧
      (¬ fine o r → ∃ e, k r = raise e ∧ F e)

variable {given fine} {Q : α → Prop} {E F : ε → Prop} {p : Proc Answer ε α}

theorem Spec.mono {Q' : α → Prop} {E' F' : ε → Prop} (h : p.Spec given fine Q E F)
    (hQ : ∀ a, Q a → Q' a) (hE : ∀ e, E e → E' e)
    (hF : ∀ e, F e → F' e) : p.Spec given fine Q' E' F' := by
  induction p with
  | pure a => exact hQ a h
  | raise e => exact hE e h
  | ask o k ih =>
      intro r hr
      refine ⟨fun hfine => ih r ((h r hr).1 hfine), fun hfine => ?_⟩
      obtain ⟨e, hk, he⟩ := (h r hr).2 hfine
      exact ⟨e, hk, hF e he⟩

/-- **Sequencing.** -/
theorem Spec.bind {R : β → Prop} {f : α → Proc Answer ε β}
    (h : p.Spec given fine Q E F)
    (hf : ∀ a, Q a → (f a).Spec given fine R E F) :
    (p >>= f).Spec given fine R E F := by
  induction p with
  | pure a => exact hf a h
  | raise e => exact h
  | ask o k ih =>
      intro r hr
      refine ⟨fun hfine => ih r ((h r hr).1 hfine), fun hfine => ?_⟩
      obtain ⟨e, hk, he⟩ := (h r hr).2 hfine
      exact ⟨e, congrArg (fun q => Proc.bind q f) hk, he⟩

/-- **`try` and `except`.**  The handler passes on what is fatal. -/
theorem Spec.guard {E' : ε → Prop} {f : ε → Proc Answer ε α}
    (h : p.Spec given fine Q E F)
    (hf : ∀ e, E e → (f e).Spec given fine Q E' F)
    (hF : ∀ e, F e → f e = raise e) :
    (p.guard f).Spec given fine Q E' F := by
  induction p with
  | pure a => exact h
  | raise e => exact hf e h
  | ask o k ih =>
      intro r hr
      refine ⟨fun hfine => ih r ((h r hr).1 hfine), fun hfine => ?_⟩
      obtain ⟨e, hk, he⟩ := (h r hr).2 hfine
      exact ⟨e, (congrArg (fun q => Proc.guard q f) hk).trans (hF e he), he⟩

/-- An operation that always answers, with an answer that is always fine. -/
theorem Spec.read {o : Op} {Q : Answer o → Prop} (h : ∀ r, given o r → fine o r ∧ Q r) :
    (Proc.read (ε := ε) o).Spec given fine Q E F :=
  fun r hr => ⟨fun _ => (h r hr).2, fun hfine => absurd (h r hr).1 hfine⟩

theorem Spec.forM {f : β → Proc Answer ε PUnit} {l : List β}
    (h : ∀ b ∈ l, (f b).Spec given fine (fun _ => True) E F) :
    (l.forM f).Spec given fine (fun _ => True) E F := by
  induction l with
  | nil => trivial
  | cons b l ih =>
      obtain ⟨hb, hl⟩ := List.forall_mem_cons.mp h
      exact hb.bind fun _ _ => ih hl

/-- Where every answer is fine, anything can happen. -/
theorem Spec.any (h : ∀ o r, fine o r) :
    p.Spec given fine (fun _ => True) (fun _ => True) F := by
  induction p with
  | pure a => trivial
  | raise e => trivial
  | ask o k ih => exact fun r _ => ⟨fun _ => ih r, fun hfine => absurd (h o r) hfine⟩

/-! ### Loops -/

/-- The loop has come to an end: it returned, or it raised. -/
def Ended (p : Proc Answer ε (Option σ)) : Prop := p = pure none ∨ ∃ e, p = raise e

/-- A loop that goes from round to round; the environment answers whatever is asked. -/
def loopMachine (body : σ → Proc Answer ε (Option σ)) (start : σ) :
    Machine (Proc Answer ε (Option σ)) (∀ o, Answer o) Unit where
  init := body start
  step p answer :=
    match p with
    | pure (some s) => some (body s, ())
    | pure none => none
    | raise _ => none
    | ask o k => some (k (answer o), ())

/-- The answer that a step of a loop takes, if it takes one. -/
def Answered (ok : ∀ o, Answer o → Prop)
    (x : Entry (Proc Answer ε (Option σ)) (∀ o, Answer o) Unit) : Prop :=
  ∀ o k, x.before = ask o k → ok o (x.event o)

variable (given fine) in
/-- A body whose rounds meet the specification `loop_alive` asks for. -/
def Rounds (p : Proc Answer ε (Option σ)) : Prop :=
  p.Spec given fine (fun next => next.isSome = true) (fun _ => False) fun _ => True

/-- **The invariant**: all answers were fine and the rest of the round meets its specification, or
one was not and the loop has raised. -/
theorem loop_standing {body : σ → Proc Answer ε (Option σ)} {start : σ}
    (hbody : ∀ s, (body s).Rounds given fine)
    {h : List (Entry (Proc Answer ε (Option σ)) (∀ o, Answer o) Unit)}
    {p : Proc Answer ε (Option σ)} (run : (loopMachine body start).Run h p) :
    (∀ x ∈ h, Answered given x) → ((∀ x ∈ h, Answered fine x) ∧ p.Rounds given fine) ∨
      (¬ (∀ x ∈ h, Answered fine x) ∧ ∃ e, p = raise e) := by
  induction run with
  | nil => exact fun _ => .inl ⟨by simp, hbody start⟩
  | @snoc p p' h answer r _ hstep ih =>
      intro hgiven
      obtain ⟨hold, hlast⟩ := List.forall_mem_append.mp hgiven
      rw [List.forall_mem_singleton] at hlast
      simp only [List.forall_mem_append, List.forall_mem_singleton]
      cases p with
      | raise e => cases hstep
      | pure next =>
          cases next with
          | none => cases hstep
          | some s =>
              -- the next round starts, and nothing was asked
              obtain ⟨rfl, -⟩ := Prod.mk.inj (Option.some.inj hstep)
              rcases ih hold with ⟨hfine, -⟩ | ⟨-, e, he⟩
              · exact .inl ⟨⟨hfine, fun o k h => by cases h⟩, hbody s⟩
              · cases he
      | ask o k =>
          obtain ⟨rfl, -⟩ := Prod.mk.inj (Option.some.inj hstep)
          rcases ih hold with ⟨hfine, hspec⟩ | ⟨-, e, he⟩
          · obtain ⟨hgo, hstop⟩ := hspec (answer o) (hlast o k rfl)
            by_cases hok : fine o (answer o)
            · refine .inl ⟨⟨hfine, fun o' k' h => ?_⟩, hgo hok⟩
              cases h
              exact hok
            · obtain ⟨e, he, -⟩ := hstop hok
              exact .inr ⟨fun h => hok (h.2 o k rfl), e, he⟩
          · cases he

/-- **A loop whose rounds meet their specification** goes on as long as all answers are fine, and
no longer. -/
theorem loop_alive {body : σ → Proc Answer ε (Option σ)} {start : σ}
    (hbody : ∀ s, (body s).Spec given fine (fun next => next.isSome = true) (fun _ => False)
      fun _ => True)
    {h : List (Entry (Proc Answer ε (Option σ)) (∀ o, Answer o) Unit)}
    {p : Proc Answer ε (Option σ)} (run : (loopMachine body start).Run h p)
    (hgiven : ∀ x ∈ h, Answered given x) : ¬ Ended p ↔ ∀ x ∈ h, Answered fine x := by
  rcases loop_standing hbody run hgiven with ⟨hfine, hspec⟩ | ⟨hfine, e, rfl⟩
  · refine iff_of_true ?_ hfine
    rintro (rfl | ⟨e, rfl⟩)
    · exact Bool.false_ne_true hspec
    · exact hspec
  · exact iff_of_false (fun h => h (.inr ⟨e, rfl⟩)) hfine

end Proc

end Vemsa.Support
