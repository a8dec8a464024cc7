import Mathlib

/-!
# Support — Runs

A list read as runs: `sep` marks the separators, and a *token* is a maximal run of anything
else (`tokens`).  A pass over a text rewrites its runs one by one (`rewriteRuns`), drops single
characters, or trims the ends (`strip`).

A token is *marked* when it contains a `q` character.  `marked` counts the marked tokens
left to right, remembering only whether the run being read is marked already.  So a run can be
replaced, anywhere in a list, by any run with the same effect on that count
(`marked_append_run`): this is the one fact behind every "this pass keeps the number of tokens".

* `marked_rewriteRuns`: rewriting runs that are not separators.
* `marked_rewriteSeps`: rewriting runs of separators.
* `marked_filter`, `marked_strip`: dropping unmarked characters, trimming separators.
* `marked_map_runs`: a map that splits at separators, applied run by run or to the whole.
* `countP_tokens`: `marked` counts the tokens that hold a mark.
-/

namespace Vemsa.Support

variable {α : Type*}

/-- `l` without its leading and trailing run of `sep`. -/
def strip (sep : α → Bool) (l : List α) : List α := (l.dropWhile sep).rdropWhile sep

/-- The maximal runs of non-separators; `run` is the run being read. -/
def tokensFrom (sep : α → Bool) (run : List α) : List α → List (List α)
  | [] => if run.isEmpty then [] else [run]
  | c :: cs =>
    if sep c then (if run.isEmpty then [] else [run]) ++ tokensFrom sep [] cs
    else tokensFrom sep (run ++ [c]) cs

def tokens (sep : α → Bool) (l : List α) : List (List α) := tokensFrom sep [] l

/-- What a finished run of `p` becomes; an empty run is no run. -/
def flush (f : List α → List α) (run : List α) : List α := if run.isEmpty then [] else f run

/-- Every maximal run of `p` replaced by its image under `f`; `run` is the run being read. -/
def rewriteFrom (p : α → Bool) (f : List α → List α) (run : List α) : List α → List α
  | [] => flush f run
  | c :: cs =>
    if p c then rewriteFrom p f (run ++ [c]) cs
    else flush f run ++ c :: rewriteFrom p f [] cs

def rewriteRuns (p : α → Bool) (f : List α → List α) (l : List α) : List α := rewriteFrom p f [] l

@[simp]
theorem flush_nil (f : List α → List α) : flush f [] = [] := rfl

/-! ### Tokens -/

section Tokens

variable {sep : α → Bool}

theorem tokensFrom_append_sep {c : α} (hc : sep c = true) (run a b : List α) :
    tokensFrom sep run (a ++ c :: b) = tokensFrom sep run a ++ tokens sep b := by
  induction a generalizing run with
  | nil => simp [tokensFrom, tokens, hc]
  | cons d a ih =>
      by_cases hd : sep d
      · simp only [List.cons_append, tokensFrom, hd, if_true, ih, List.append_assoc]
      · simp only [List.cons_append, tokensFrom, hd, if_false, Bool.false_eq_true, ih]

/-- A separator ends the token before it. -/
theorem tokens_append_sep {c : α} (hc : sep c = true) (a b : List α) :
    tokens sep (a ++ c :: b) = tokens sep a ++ tokens sep b :=
  tokensFrom_append_sep hc [] a b

theorem tokensFrom_eq_nil_iff {run l : List α} :
    tokensFrom sep run l = [] ↔ run = [] ∧ ∀ c ∈ l, sep c = true := by
  induction l generalizing run with
  | nil => cases run <;> simp [tokensFrom]
  | cons c l ih =>
      by_cases hc : sep c
      · rw [tokensFrom, if_pos hc, List.append_eq_nil_iff, ih, List.forall_mem_cons]
        cases run <;> simp [hc]
      · rw [tokensFrom, if_neg hc, ih]
        simp [hc]

/-- Only separators hold no token. -/
theorem tokens_eq_nil_iff {l : List α} : tokens sep l = [] ↔ ∀ c ∈ l, sep c = true := by
  rw [tokens, tokensFrom_eq_nil_iff, and_iff_right rfl]

theorem strip_eq_nil_iff {l : List α} : strip sep l = [] ↔ ∀ c ∈ l, sep c = true := by
  rw [strip, List.rdropWhile_eq_nil_iff]
  refine ⟨fun h c hc => ?_, fun h c hc => h c ((List.dropWhile_suffix sep).subset hc)⟩
  rw [← List.takeWhile_append_dropWhile (p := sep) (l := l), List.mem_append] at hc
  exact hc.elim (fun hc => List.mem_takeWhile_imp hc) (h c)

end Tokens

/-! ### Functions that split at separators

A function into lists that sends a text, cut at a separator, to the parts' images in a row.
`tokens` is one; composing it with a pass that leaves separators apart is another. -/

section Splitting

variable {β : Type*} {sep : α → Bool}

/-- `T` reads the two sides of a separator independently. -/
structure SplitsAt (sep : α → Bool) (T : List α → List β) : Prop where
  nil : T [] = []
  append_sep : ∀ a c b, sep c = true → T (a ++ c :: b) = T a ++ T b

theorem splitsAt_tokens (sep : α → Bool) : SplitsAt sep (tokens sep) :=
  ⟨rfl, fun a _ b hc => tokens_append_sep hc a b⟩

namespace SplitsAt

variable {T : List α → List β}

theorem cons_sep (hT : SplitsAt sep T) {c : α} (hc : sep c = true) (b : List α) :
    T (c :: b) = T b := by
  simpa [hT.nil] using hT.append_sep [] c b hc

theorem concat_sep (hT : SplitsAt sep T) {c : α} (hc : sep c = true) (a : List α) :
    T (a ++ [c]) = T a := by
  simpa [hT.nil] using hT.append_sep a c [] hc

theorem dropWhile (hT : SplitsAt sep T) (l : List α) : T (l.dropWhile sep) = T l := by
  induction l with
  | nil => rfl
  | cons c l ih =>
      by_cases hc : sep c
      · rw [List.dropWhile_cons_of_pos hc, ih, hT.cons_sep hc]
      · rw [List.dropWhile_cons_of_neg hc]

theorem rdropWhile (hT : SplitsAt sep T) (l : List α) : T (l.rdropWhile sep) = T l := by
  induction l using List.reverseRecOn with
  | nil => simp
  | append_singleton l c ih =>
      by_cases hc : sep c
      · rw [List.rdropWhile_concat_pos _ _ _ hc, ih, hT.concat_sep hc]
      · rw [List.rdropWhile_concat_neg _ _ _ hc]

/-- Trimming separators does not matter. -/
theorem strip (hT : SplitsAt sep T) (l : List α) : T (strip sep l) = T l := by
  rw [Support.strip, hT.rdropWhile, hT.dropWhile]

/-- Texts joined by a separator are read one after the other. -/
theorem intersperse (hT : SplitsAt sep T) {c : α} (hc : sep c = true) (ls : List (List α)) :
    T ((ls.intersperse [c]).flatten) = ls.flatMap T := by
  induction ls with
  | nil => simpa using hT.nil
  | cons l ls ih =>
      cases ls with
      | nil => simp
      | cons l' ls =>
          rw [List.intersperse_cons_cons, List.flatten_cons, List.flatten_cons,
            List.singleton_append, hT.append_sep _ _ _ hc, ih]
          rfl

/-- A pass that keeps separators apart, then a function that splits at them. -/
theorem comp (hT : SplitsAt sep T) {g : List α → List α} (h₀ : g [] = [])
    (hg : ∀ a c b, sep c = true → g (a ++ c :: b) = g a ++ g [c] ++ g b)
    (hc : ∀ c, sep c = true → g [c] ≠ [] ∧ ∀ d ∈ g [c], sep d = true) :
    SplitsAt sep (fun l => T (g l)) := by
  refine ⟨by rw [h₀, hT.nil], fun a c b hsep => ?_⟩
  obtain ⟨hne, hall⟩ := hc c hsep
  rw [hg a c b hsep]
  -- the separator's image is a nonempty run of separators: one of them splits, the rest are idle
  obtain ⟨d, w, hw⟩ := List.exists_cons_of_ne_nil hne
  rw [hw] at hall ⊢
  have idle : ∀ {w : List α}, (∀ d ∈ w, sep d = true) → ∀ x, T (w ++ x) = T x := by
    intro w h x
    induction w with
    | nil => rfl
    | cons e w ih =>
        rw [List.cons_append, hT.cons_sep (h e List.mem_cons_self),
          ih fun e' he' => h e' (List.mem_cons_of_mem e he')]
  rw [List.append_assoc, List.cons_append, hT.append_sep _ _ _ (hall d List.mem_cons_self),
    idle fun e he => hall e (List.mem_cons_of_mem d he)]

/-- Dropping characters other than separators keeps the splitting. -/
theorem comp_filter (hT : SplitsAt sep T) {keep : α → Bool}
    (hk : ∀ c, sep c = true → keep c = true) : SplitsAt sep (fun l => T (l.filter keep)) := by
  refine hT.comp (by simp) (fun a c b _ => ?_) fun c hc => ?_
  · rw [List.filter_append, ← List.singleton_append, List.filter_append, List.append_assoc]
  · simp [hk c hc, hc]

end SplitsAt

end Splitting

/-! ### Counting marked tokens -/

section Marked

variable {sep q : α → Bool}

/-- The tokens holding a `q` character, counted from the left; `seen` says whether the run
being read has been counted. -/
def marked (sep q : α → Bool) (seen : Bool) : List α → ℕ
  | [] => 0
  | c :: cs =>
    if sep c then marked sep q false cs
    else if q c then (if seen then 0 else 1) + marked sep q true cs
    else marked sep q seen cs

/-- **A run acts on the count only through whether it is marked.** -/
theorem marked_append_run {u : List α} (hu : ∀ c ∈ u, sep c = false) (seen : Bool) (t : List α) :
    marked sep q seen (u ++ t) =
      (if !seen && u.any q then 1 else 0) + marked sep q (seen || u.any q) t := by
  induction u generalizing seen with
  | nil => simp
  | cons c u ih =>
      have hc : sep c = false := hu c List.mem_cons_self
      have hu' : ∀ d ∈ u, sep d = false := fun d hd => hu d (List.mem_cons_of_mem c hd)
      by_cases hm : q c
      · cases seen <;> simp [marked, hc, hm, ih hu']
      · cases seen <;> simp [marked, hc, hm, ih hu']

theorem marked_append_sep {c : α} (hc : sep c = true) (seen : Bool) (a b : List α) :
    marked sep q seen (a ++ c :: b) =
      marked sep q seen a + marked sep q false b := by
  induction a generalizing seen with
  | nil => simp [marked, hc]
  | cons d a ih =>
      simp only [List.cons_append, marked]
      split
      · exact ih false
      · split
        · rw [ih true, Nat.add_assoc]
        · exact ih seen

/-- A nonempty run of separators only ends the run before it. -/
theorem marked_seps {w : List α} (hw : ∀ c ∈ w, sep c = true) (hne : w ≠ []) (seen : Bool)
    (t : List α) : marked sep q seen (w ++ t) = marked sep q false t := by
  induction w generalizing seen with
  | nil => exact absurd rfl hne
  | cons c w ih =>
      have hc : sep c = true := hw c List.mem_cons_self
      simp only [List.cons_append, marked, hc, if_true]
      cases w with
      | nil => rfl
      | cons d w => exact ih (fun e he => hw e (List.mem_cons_of_mem c he)) (by simp) false

/-- `marked` counts the tokens that hold a mark. -/
theorem countP_tokensFrom (run l : List α) (hr : ∀ c ∈ run, sep c = false) :
    (tokensFrom sep run l).countP (fun t => t.any q) =
      (if run.any q then 1 else 0) + marked sep q (run.any q) l := by
  induction l generalizing run with
  | nil => cases run <;> simp [tokensFrom, marked]
  | cons c l ih =>
      by_cases hc : sep c
      · rw [tokensFrom, if_pos hc, List.countP_append, ih [] (by simp)]
        cases run <;> simp [marked, hc]
      · have hr' : ∀ d ∈ run ++ [c], sep d = false := by
          intro d hd
          rcases List.mem_append.mp hd with hd | hd
          · exact hr d hd
          · simpa [List.mem_singleton.mp hd] using hc
        rw [tokensFrom, if_neg hc, ih _ hr']
        by_cases hm : q c <;> cases ha : run.any q <;> simp [marked, hc, hm, ha]

theorem countP_tokens (l : List α) :
    (tokens sep l).countP (fun t => t.any q) = marked sep q false l := by
  simpa [tokens] using countP_tokensFrom [] l (by simp)

/-- When every character that is not a separator is a mark, every token is marked. -/
theorem length_tokens {l : List α} (hl : ∀ c ∈ l, sep c = false → q c = true) :
    (tokens sep l).length = marked sep q false l := by
  rw [← countP_tokens, eq_comm, List.countP_eq_length]
  suffices h : ∀ run, (∀ c ∈ run, q c = true) → ∀ t ∈ tokensFrom sep run l, t.any q = true by
    exact h [] (by simp)
  induction l with
  | nil =>
      intro run hr t ht
      cases run with
      | nil => simp [tokensFrom] at ht
      | cons d run =>
          obtain rfl : t = d :: run := by simpa [tokensFrom] using ht
          simp [hr d List.mem_cons_self]
  | cons c l ih =>
      intro run hr t ht
      have hl' : ∀ d ∈ l, sep d = false → q d = true :=
        fun d hd => hl d (List.mem_cons_of_mem c hd)
      by_cases hc : sep c
      · rw [tokensFrom, if_pos hc, List.mem_append] at ht
        rcases ht with ht | ht
        · cases run with
          | nil => simp at ht
          | cons d run =>
              obtain rfl : t = d :: run := by simpa using ht
              simp [hr d List.mem_cons_self]
        · exact ih hl' [] (by simp) t ht
      · rw [tokensFrom, if_neg hc] at ht
        refine ih hl' (run ++ [c]) (fun d hd => ?_) t ht
        rcases List.mem_append.mp hd with hd | hd
        · exact hr d hd
        · rw [List.mem_singleton.mp hd]
          exact hl c List.mem_cons_self (by simpa using hc)

/-! ### Passes that keep the count -/

/-- Dropping characters that are neither separators nor marks. -/
theorem marked_filter {keep : α → Bool} (hk : ∀ c, keep c = (sep c || q c)) (seen : Bool)
    (l : List α) : marked sep q seen (l.filter keep) = marked sep q seen l := by
  induction l generalizing seen with
  | nil => rfl
  | cons c l ih =>
      by_cases hc : sep c
      · simp [hk, hc, marked, ih]
      · by_cases hm : q c <;> simp [hk, hc, hm, marked, ih]

/-- **Rewriting runs that hold no separator**, each to a run that is marked when it is. -/
theorem marked_rewriteRuns {p : α → Bool} {f : List α → List α}
    (hp : ∀ c, p c = true → sep c = false)
    (hf : ∀ u, u ≠ [] → (∀ c ∈ u, p c = true) →
      (∀ c ∈ f u, sep c = false) ∧ (f u).any q = u.any q)
    (seen : Bool) (l : List α) :
    marked sep q seen (rewriteRuns p f l) = marked sep q seen l := by
  have flushed : ∀ run : List α, (∀ c ∈ run, p c = true) →
      (∀ c ∈ flush f run, sep c = false) ∧ (flush f run).any q = run.any q := by
    intro run hr
    cases run with
    | nil => simp
    | cons d run => exact hf (d :: run) (by simp) hr
  suffices h : ∀ run, (∀ c ∈ run, p c = true) → ∀ seen,
      marked sep q seen (rewriteFrom p f run l) = marked sep q seen (run ++ l) by
    simpa [rewriteRuns] using h [] (by simp) seen
  induction l with
  | nil =>
      intro run hr seen
      obtain ⟨h₁, h₂⟩ := flushed run hr
      have h := marked_append_run (q := q) h₁ seen []
      have h' := marked_append_run (q := q) (fun c hc => hp c (hr c hc)) seen []
      rw [List.append_nil] at h h'
      rw [rewriteFrom, h, List.append_nil, h', h₂]
  | cons c l ih =>
      intro run hr seen
      by_cases hc : p c
      · rw [rewriteFrom, if_pos hc, ih (run ++ [c]), List.append_assoc, List.singleton_append]
        intro d hd
        rcases List.mem_append.mp hd with hd | hd
        · exact hr d hd
        · exact List.mem_singleton.mp hd ▸ hc
      · obtain ⟨h₁, h₂⟩ := flushed run hr
        rw [rewriteFrom, if_neg hc, marked_append_run h₁, h₂,
          marked_append_run fun c hc => hp c (hr c hc)]
        simp only [marked]
        rw [ih [] (by simp), ih [] (by simp), ih [] (by simp), List.nil_append]

/-- Rewriting each run of separators to a nonempty run of separators. -/
theorem marked_rewriteSeps {f : List α → List α}
    (hf : ∀ u, u ≠ [] → f u ≠ [] ∧ ∀ c ∈ f u, sep c = true) (l : List α) :
    marked sep q false (rewriteRuns sep f l) = marked sep q false l := by
  suffices h : ∀ run, (∀ c ∈ run, sep c = true) → ∀ seen,
      marked sep q seen (rewriteFrom sep f run l) = marked sep q seen (run ++ l) by
    simpa [rewriteRuns] using h [] (by simp) false
  induction l with
  | nil =>
      intro run hr seen
      cases run with
      | nil => simp [rewriteFrom]
      | cons d run =>
          obtain ⟨h₁, h₂⟩ := hf (d :: run) (by simp)
          have h := marked_seps (q := q) h₂ h₁ seen []
          have h' := marked_seps (q := q) hr (by simp) seen []
          rw [List.append_nil] at h h'
          rw [rewriteFrom, flush, List.isEmpty_cons, if_neg Bool.false_ne_true, h,
            List.append_nil, h']
  | cons c l ih =>
      intro run hr seen
      by_cases hc : sep c
      · rw [rewriteFrom, if_pos hc, ih (run ++ [c]), List.append_assoc, List.singleton_append]
        intro d hd
        rcases List.mem_append.mp hd with hd | hd
        · exact hr d hd
        · exact List.mem_singleton.mp hd ▸ hc
      · have tail : ∀ seen, marked sep q seen (c :: rewriteFrom sep f [] l) =
            marked sep q seen (c :: l) := fun seen => by
          simp only [marked]
          rw [ih [] (by simp), ih [] (by simp), ih [] (by simp), List.nil_append]
        rw [rewriteFrom, if_neg hc]
        cases run with
        | nil => simpa using tail seen
        | cons d run =>
            obtain ⟨h₁, h₂⟩ := hf (d :: run) (by simp)
            rw [flush, List.isEmpty_cons, if_neg Bool.false_ne_true, marked_seps h₂ h₁, tail,
              marked_seps hr (by simp)]

theorem marked_concat_sep {c : α} (hc : sep c = true) (seen : Bool) (a : List α) :
    marked sep q seen (a ++ [c]) = marked sep q seen a := by
  simpa [marked] using marked_append_sep (q := q) hc seen a []

/-- Trimming separators. -/
theorem marked_strip (l : List α) :
    marked sep q false (strip sep l) = marked sep q false l := by
  have drop : ∀ l : List α, marked sep q false (l.dropWhile sep) = marked sep q false l := by
    intro l
    induction l with
    | nil => rfl
    | cons c l ih =>
        by_cases hc : sep c
        · rw [List.dropWhile_cons_of_pos hc, ih]; simp [marked, hc]
        · rw [List.dropWhile_cons_of_neg hc]
  have rdrop : ∀ l : List α,
      marked sep q false (l.rdropWhile sep) = marked sep q false l := by
    intro l
    induction l using List.reverseRecOn with
    | nil => simp
    | append_singleton l c ih =>
        by_cases hc : sep c
        · rw [List.rdropWhile_concat_pos _ _ _ hc, ih, marked_concat_sep hc]
        · rw [List.rdropWhile_concat_neg _ _ _ hc]
  rw [strip, rdrop, drop]

/-- **Run by run or all at once.**  A map that keeps the two sides of a separator apart and
sends a separator to separators has as many marked tokens on the whole text as when it is
applied to each run of non-separators. -/
theorem marked_map_runs {g : List α → List α} (h₀ : g [] = [])
    (hg : ∀ a c b, sep c = true → g (a ++ c :: b) = g a ++ g [c] ++ g b)
    (hc : ∀ c, sep c = true → g [c] ≠ [] ∧ ∀ d ∈ g [c], sep d = true) (l : List α) :
    marked sep q false (rewriteRuns (fun c => !sep c) g l) = marked sep q false (g l) := by
  have flushed : ∀ run, flush g run = g run := by
    intro run
    cases run with
    | nil => rw [flush_nil, h₀]
    | cons d run => rfl
  suffices h : ∀ run, marked sep q false (rewriteFrom (fun c => !sep c) g run l) =
      marked sep q false (g (run ++ l)) by
    simpa [rewriteRuns] using h []
  induction l with
  | nil => intro run; rw [rewriteFrom, flushed, List.append_nil]
  | cons c l ih =>
      intro run
      by_cases hsep : sep c
      · obtain ⟨hne, hall⟩ := hc c hsep
        obtain ⟨d, w, hw⟩ := List.exists_cons_of_ne_nil hne
        rw [rewriteFrom, if_neg (by simp [hsep]), flushed, marked_append_sep hsep, ih [],
          List.nil_append, hg run c l hsep, hw, List.append_assoc, List.cons_append,
          marked_append_sep (hall d (by simp [hw]))]
        rw [hw] at hall
        cases w with
        | nil => rfl
        | cons e w =>
            rw [marked_seps (fun x hx => hall x (List.mem_cons_of_mem d hx)) (by simp)]
      · rw [rewriteFrom, if_pos (by simp [hsep]), ih (run ++ [c]), List.append_assoc,
          List.singleton_append]

end Marked

end Vemsa.Support
