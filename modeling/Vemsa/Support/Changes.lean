import Mathlib

/-!
# Support — Changes

Where a list changes: `starts l` gives, for every maximal run of equal items, its place and its item.
The items are the list with consecutive repeats removed (`map_snd_starts`), the places after the
first are those of its changes (`changes`).

`starts_moved`: of two runs in a row, the border between them is the only start that depends on how
many items each of them has.
-/

namespace Vemsa.Support

variable {α : Type*} [DecidableEq α]

/-- The starts of runs from `place` on, where the item before is `previous`. -/
def startsFrom (previous : Option α) (place : ℕ) : List α → List (ℕ × α)
  | [] => []
  | a :: l =>
    if previous = some a then startsFrom previous (place + 1) l
    else (place, a) :: startsFrom (some a) (place + 1) l

/-- Place and item of each run. -/
def starts (l : List α) : List (ℕ × α) := startsFrom none 0 l

/-- The places where an item differs from the one before it. -/
def changes (l : List α) : List ℕ := (starts l).tail.map Prod.fst

theorem startsFrom_append (previous : Option α) (place : ℕ) (l l' : List α) :
    startsFrom previous place (l ++ l') =
      startsFrom previous place l ++ startsFrom (l.getLast?.or previous) (place + l.length) l' := by
  induction l generalizing previous place with
  | nil => rfl
  | cons a l ih =>
      have hlast : l.getLast?.or (some a) = (a :: l).getLast?.or previous := by
        cases l with
        | nil => rfl
        | cons b l =>
            rw [List.getLast?_cons_cons, Option.or_of_isSome (by simp), Option.or_of_isSome (by simp)]
      have hplace : place + 1 + l.length = place + (a :: l).length := by
        rw [List.length_cons]
        omega
      rw [List.cons_append, startsFrom, startsFrom]
      split
      · rename_i heq
        rw [heq] at hlast
        rw [ih, heq, hlast, hplace]
      · rw [ih, hlast, hplace, List.cons_append]

/-- A run goes on. -/
theorem startsFrom_replicate (a : α) (place n : ℕ) :
    startsFrom (some a) place (List.replicate n a) = [] := by
  induction n generalizing place with
  | zero => rfl
  | succ n ih => rw [List.replicate_succ, startsFrom, if_pos rfl, ih]

/-- A run of its own is one start, unless it goes on. -/
theorem startsFrom_replicate_succ (previous : Option α) (a : α) (place n : ℕ) :
    startsFrom previous place (List.replicate (n + 1) a) = startsFrom previous place [a] := by
  rw [List.replicate_succ, startsFrom, startsFrom]
  split
  · rename_i heq
    rw [heq, startsFrom_replicate, startsFrom]
  · rw [startsFrom_replicate, startsFrom]

theorem map_snd_startsFrom (a : α) (place : ℕ) (l : List α) :
    a :: (startsFrom (some a) place l).map Prod.snd = l.destutter' (· ≠ ·) a := by
  induction l generalizing a place with
  | nil => rfl
  | cons b l ih =>
      rw [startsFrom]
      by_cases hab : a = b
      · rw [if_pos (by rw [hab]), ih, List.destutter'_cons_neg _ (by simpa using hab)]
      · rw [if_neg (by simpa using hab), List.map_cons, ih, List.destutter'_cons_pos _ hab]

/-- The items are the list with consecutive repeats removed. -/
theorem map_snd_starts (l : List α) : (starts l).map Prod.snd = l.destutter (· ≠ ·) := by
  cases l with
  | nil => rfl
  | cons a l =>
      rw [starts, startsFrom, if_neg (by simp), List.map_cons, map_snd_startsFrom]
      rfl

/-- Two runs in a row, of different items: however their items are divided between them, the other
starts are the same. -/
theorem starts_border (before after : List α) {a b : α} (hab : a ≠ b) (n : ℕ) :
    ∃ front back, ∀ i, 0 < i → i < n →
      starts (before ++ List.replicate i a ++ List.replicate (n - i) b ++ after) =
        front ++ (before.length + i, b) :: back := by
  refine ⟨starts before ++ startsFrom before.getLast? before.length [a],
    startsFrom (some b) (before.length + n) after, fun i hi hn => ?_⟩
  obtain ⟨k, rfl⟩ := Nat.exists_eq_succ_of_ne_zero hi.ne'
  obtain ⟨m, hm⟩ := Nat.exists_eq_succ_of_ne_zero (Nat.sub_pos_of_lt hn).ne'
  rw [hm, Nat.succ_eq_add_one, Nat.succ_eq_add_one, starts, startsFrom_append, startsFrom_append,
    startsFrom_append, Nat.zero_add, startsFrom_replicate_succ, startsFrom_replicate_succ]
  have hlast₁ : (before ++ List.replicate (k + 1) a).getLast? = some a := by
    simp [List.getLast?_replicate]
  have hlast₂ : (before ++ List.replicate (k + 1) a ++ List.replicate (m + 1) b).getLast? = some b := by
    simp [List.getLast?_replicate]
  rw [hlast₁, hlast₂, Option.some_or, Option.some_or, Option.or_none]
  simp only [List.length_append, List.length_replicate, startsFrom, Option.some.injEq, if_neg hab]
  have hplace : 0 + (before.length + (k + 1) + (m + 1)) = before.length + n := by omega
  simp only [hplace, List.append_assoc, List.singleton_append, Nat.zero_add, starts]

/-! ### Runs inside a list -/

omit [DecidableEq α] in
/-- A stretch of one item. -/
theorem eq_append_replicate {l : List α} {a : α} {i k : ℕ} (hik : i ≤ k)
    (h : ∀ j, i ≤ j → j < k → l[j]? = some a) :
    l = l.take i ++ List.replicate (k - i) a ++ l.drop k := by
  have hmid : (l.drop i).take (k - i) = List.replicate (k - i) a := by
    refine List.ext_getElem? fun j => ?_
    by_cases hj : j < k - i
    · rw [List.getElem?_take_of_lt hj, List.getElem?_drop, h _ (by omega) (by omega),
        List.getElem?_replicate_of_lt hj]
    · rw [List.getElem?_take_eq_none (by omega), List.getElem?_eq_none (by simpa using hj)]
  have hdrop : (l.drop i).drop (k - i) = l.drop k := by
    rw [List.drop_drop, Nat.add_sub_cancel' hik]
  rw [← hmid, ← hdrop, List.append_assoc, List.take_append_drop, List.take_append_drop]

/-- **A border moves alone.**  The lists agree outside of two runs in a row, which meet at `p` in the
one and at `p'` in the other. -/
theorem starts_moved (l l' : List α) {a b : α} (hab : a ≠ b) (lo p p' hi : ℕ)
    (hp : lo < p ∧ p < hi) (hp' : lo < p' ∧ p' < hi)
    (houtside : ∀ j, j < lo ∨ hi ≤ j → l'[j]? = l[j]?)
    (ha : ∀ j, lo ≤ j → j < p → l[j]? = some a) (hb : ∀ j, p ≤ j → j < hi → l[j]? = some b)
    (ha' : ∀ j, lo ≤ j → j < p' → l'[j]? = some a) (hb' : ∀ j, p' ≤ j → j < hi → l'[j]? = some b) :
    ∃ front back, starts l = front ++ (p, b) :: back ∧ starts l' = front ++ (p', b) :: back := by
  have hsplit {k : List α} {q : ℕ} (hq : lo < q ∧ q < hi) (hka : ∀ j, lo ≤ j → j < q → k[j]? = some a)
      (hkb : ∀ j, q ≤ j → j < hi → k[j]? = some b) :
      k = k.take lo ++ List.replicate (q - lo) a ++ List.replicate (hi - lo - (q - lo)) b ++
        k.drop hi := by
    have hlater := eq_append_replicate hq.2.le hkb
    have hdrop : k.drop q = List.replicate (hi - q) b ++ k.drop hi := by
      rw [List.append_assoc] at hlater
      exact (List.append_cancel_left (hlater.symm.trans (List.take_append_drop q k).symm)).symm
    rw [show hi - lo - (q - lo) = hi - q by omega, List.append_assoc, ← hdrop]
    exact eq_append_replicate hq.1.le hka
  have hlen : (l.take lo).length = lo := by
    have : lo < l.length := (List.getElem?_eq_some_iff.mp (ha lo le_rfl hp.1)).1
    rw [List.length_take]
    omega
  have htake : l'.take lo = l.take lo := List.ext_getElem? fun j => by
    by_cases hj : j < lo
    · rw [List.getElem?_take_of_lt hj, List.getElem?_take_of_lt hj, houtside j (.inl hj)]
    · rw [List.getElem?_take_eq_none (by omega), List.getElem?_take_eq_none (by omega)]
  have hdrop : l'.drop hi = l.drop hi := List.ext_getElem? fun j => by
    rw [List.getElem?_drop, List.getElem?_drop, houtside _ (.inr (Nat.le_add_right _ _))]
  obtain ⟨front, back, hborder⟩ := starts_border (l.take lo) (l.drop hi) hab (hi - lo)
  refine ⟨front, back, ?_, ?_⟩
  · rw [hsplit hp ha hb, hborder (p - lo) (by omega) (by omega), hlen, Nat.add_sub_cancel' hp.1.le]
  · rw [hsplit hp' ha' hb', htake, hdrop, hborder (p' - lo) (by omega) (by omega), hlen,
      Nat.add_sub_cancel' hp'.1.le]

/-- One item of a list is exchanged for another that is related to no fewer. -/
theorem forall₂_exchange {β γ : Type*} {R : β → γ → Prop} {l : List β} {front back : List γ}
    {c c' : γ} (h : List.Forall₂ R l (front ++ c :: back)) (hc : ∀ b, R b c → R b c') :
    List.Forall₂ R l (front ++ c' :: back) := by
  induction front generalizing l with
  | nil =>
      cases h with
      | cons hb hrest => exact .cons (hc _ hb) hrest
  | cons d front ih =>
      cases h with
      | cons hb hrest => exact .cons hb (ih hrest)

end Vemsa.Support
