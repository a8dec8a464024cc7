import Mathlib

/-!
# Support — Search

Looking a thing up from the left: `bisect_right` in an ordered list, `str.find` in a text.

* `drop_bisectRight`, `takeWhile_eq_filter`: in an ordered list the two ends of a window are
  filters.
* `findFrom_some`, `findFrom_none`: what is found is the leftmost place.
* `InOrder`: parts that stand in a text one after the other.  The leftmost place for the first
  leaves the most text for the others (`InOrder.leftmost`).
-/

namespace Vemsa.Support

/-! ### Ordered lists -/

section Bisect

variable {α τ : Type*} [LinearOrder τ]

/-- The loop of `bisect_right(a, x, lo, hi)`. -/
def bisectFrom (a : List τ) (x : τ) (lo hi : ℕ) : ℕ :=
  if lo < hi then
    if (a[(lo + hi) / 2]?).any fun y => x < y then bisectFrom a x lo ((lo + hi) / 2)
    else bisectFrom a x ((lo + hi) / 2 + 1) hi
  else lo
termination_by hi - lo

/-- `bisect_right(a, x)` -/
def bisectRight (a : List τ) (x : τ) : ℕ := bisectFrom a x 0 a.length

/-- Below `lo` no item is greater than `x`, from `hi` on every item is. -/
def Splits (a : List τ) (x : τ) (lo hi : ℕ) : Prop :=
  ∀ i y, a[i]? = some y → (i < lo → y ≤ x) ∧ (hi ≤ i → x < y)

theorem splits_bisectFrom {a : List τ} (ha : a.Pairwise (· ≤ ·)) {x : τ} {lo hi : ℕ}
    (hle : lo ≤ hi) (hhi : hi ≤ a.length) (h : Splits a x lo hi) :
    Splits a x (bisectFrom a x lo hi) (bisectFrom a x lo hi) := by
  have hmono {i j : ℕ} {y z : τ} (hi : a[i]? = some y) (hj : a[j]? = some z) (hij : i ≤ j) :
      y ≤ z := by
    obtain ⟨hi', rfl⟩ := List.getElem?_eq_some_iff.mp hi
    obtain ⟨hj', rfl⟩ := List.getElem?_eq_some_iff.mp hj
    exact ha.rel_get_of_le (a := ⟨i, hi'⟩) (b := ⟨j, hj'⟩) hij
  induction lo, hi using bisectFrom.induct a x with
  | case1 lo hi hlt hany ih =>
      rw [bisectFrom, if_pos hlt, if_pos hany]
      obtain ⟨m, hm, hxm⟩ := (Option.any_eq_true _ _).mp hany
      refine ih (by omega) (by omega) fun i y hy => ⟨(h i y hy).1, fun hge => ?_⟩
      exact (of_decide_eq_true hxm).trans_le (hmono hm hy hge)
  | case2 lo hi hlt hany ih =>
      rw [bisectFrom, if_pos hlt, if_neg hany]
      have hm : a[(lo + hi) / 2]? = some a[(lo + hi) / 2] := List.getElem?_eq_getElem (by omega)
      refine ih (by omega) hhi fun i y hy => ⟨fun hlt => ?_, (h i y hy).2⟩
      refine (hmono hy hm (Nat.le_of_lt_succ hlt)).trans (not_lt.mp fun hx => hany ?_)
      exact (Option.any_eq_true _ _).mpr ⟨_, hm, decide_eq_true hx⟩
  | case3 lo hi hlt =>
      rw [bisectFrom, if_neg hlt]
      exact le_antisymm hle (not_lt.mp hlt) ▸ h

theorem drop_eq_filter {p : α → Bool} {l : List α} {k : ℕ}
    (h : ∀ i y, l[i]? = some y → (i < k → p y = false) ∧ (k ≤ i → p y = true)) :
    l.drop k = l.filter p := by
  induction l generalizing k with
  | nil => simp
  | cons a l ih =>
      cases k with
      | zero =>
          rw [List.drop_zero]
          refine (List.filter_eq_self.mpr fun b hb => ?_).symm
          obtain ⟨i, hi⟩ := List.mem_iff_getElem?.mp hb
          exact (h i b hi).2 (Nat.zero_le i)
      | succ k =>
          have ha : p a = false := (h 0 a rfl).1 (Nat.succ_pos k)
          rw [List.drop_succ_cons, List.filter_cons_of_neg (by simp [ha])]
          refine ih fun i y hy => ?_
          simpa using h (i + 1) y hy

/-- **From the place found by bisection on** stand the items whose key is greater. -/
theorem drop_bisectRight {l : List α} {key : α → τ} (hl : (l.map key).Pairwise (· ≤ ·)) (x : τ) :
    l.drop (bisectRight (l.map key) x) = l.filter fun a => x < key a := by
  have h := splits_bisectFrom (x := x) hl (Nat.zero_le _) le_rfl fun i y hy =>
    ⟨fun hlt => absurd hlt (Nat.not_lt_zero i), fun hge =>
      absurd (List.getElem?_eq_none hge) (by simp [hy])⟩
  refine drop_eq_filter fun i a ha => ?_
  have hi := h i (key a) (by rw [List.getElem?_map, ha]; rfl)
  exact ⟨fun hlt => decide_eq_false (not_lt.mpr (hi.1 hlt)), fun hge => decide_eq_true (hi.2 hge)⟩

theorem takeWhile_eq_filter {p : α → Bool} {l : List α}
    (hl : l.Pairwise fun a b => p b = true → p a = true) : l.takeWhile p = l.filter p := by
  induction l with
  | nil => rfl
  | cons a l ih =>
      by_cases ha : p a = true
      · rw [List.takeWhile_cons_of_pos ha, List.filter_cons_of_pos ha, ih hl.of_cons]
      · rw [List.takeWhile_cons_of_neg ha, List.filter_cons_of_neg ha]
        refine (List.filter_eq_nil_iff.mpr fun b hb hpb => ha ?_).symm
        exact List.rel_of_pairwise_cons hl hb hpb

end Bisect

/-! ### Texts -/

section Find

variable {α : Type*}

/-- The parts stand in the text one after the other. -/
inductive InOrder : List (List α) → List α → Prop
  | nil (text) : InOrder [] text
  | cons (before) {part parts after} : InOrder parts after →
      InOrder (part :: parts) (before ++ part ++ after)

theorem InOrder.of_suffix {parts : List (List α)} {after text : List α} (h : InOrder parts after)
    (hsuffix : after <:+ text) : InOrder parts text := by
  obtain ⟨front, rfl⟩ := hsuffix
  cases h with
  | nil => exact .nil _
  | cons before h =>
      rw [← List.append_assoc, ← List.append_assoc]
      exact .cons (front ++ before) h

/-- **The leftmost place** for the first part leaves the others the most text. -/
theorem InOrder.leftmost {part before after : List α} {parts : List (List α)}
    (h : InOrder (part :: parts) (before ++ part ++ after))
    (hleft : ∀ before' after', before ++ part ++ after = before' ++ part ++ after' →
      before.length ≤ before'.length) : InOrder parts after := by
  generalize htext : before ++ part ++ after = text at h hleft
  cases h with
  | @cons before' _ _ after' h =>
      refine h.of_suffix ?_
      have hlen := congrArg List.length htext
      have hle := hleft before' after' rfl
      simp only [List.length_append] at hlen
      have hafter : after <:+ before' ++ part ++ after' := htext ▸ List.suffix_append _ _
      exact List.suffix_of_suffix_length_le (List.suffix_append _ _) hafter (by omega)

variable [DecidableEq α]

/-- The first place from `place` on where `sub` stands; the text is what follows there. -/
def findFrom (sub : List α) (place : ℕ) : List α → Option ℕ
  | [] => if sub = [] then some place else none
  | c :: text => if sub.isPrefixOf (c :: text) then some place else findFrom sub (place + 1) text

/-- `text.find(sub, cursor)` -/
def pyFind (text sub : List α) (cursor : ℕ) : Option ℕ := findFrom sub cursor (text.drop cursor)

/-- **What is found** is the leftmost place. -/
theorem findFrom_some {sub text : List α} {place found : ℕ} (h : findFrom sub place text = some found) :
    ∃ before after, text = before ++ sub ++ after ∧ found = place + before.length ∧
      ∀ before' after', text = before' ++ sub ++ after' → before.length ≤ before'.length := by
  induction text generalizing place with
  | nil =>
      rw [findFrom] at h
      split at h
      · rename_i hsub
        exact ⟨[], [], by simp [hsub], (Option.some.inj h).symm, fun _ _ _ => Nat.zero_le _⟩
      · cases h
  | cons c text ih =>
      rw [findFrom] at h
      split at h
      · rename_i hprefix
        obtain ⟨after, hafter⟩ := List.isPrefixOf_iff_prefix.mp hprefix
        exact ⟨[], after, hafter.symm, (Option.some.inj h).symm, fun _ _ _ => Nat.zero_le _⟩
      · rename_i hprefix
        obtain ⟨before, after, htext, hfound, hleft⟩ := ih h
        refine ⟨c :: before, after, by rw [htext]; rfl, ?_, fun before' after' heq => ?_⟩
        · rw [hfound, List.length_cons]
          omega
        · cases before' with
          | nil => exact absurd (List.isPrefixOf_iff_prefix.mpr ⟨after', heq.symm⟩) hprefix
          | cons d before' =>
              have h := hleft before' after' (List.cons.inj heq).2
              exact Nat.succ_le_succ h

theorem findFrom_none {sub text : List α} {place : ℕ} (h : findFrom sub place text = none)
    (before after : List α) : text ≠ before ++ sub ++ after := by
  induction text generalizing place before with
  | nil =>
      intro heq
      rw [findFrom] at h
      simp_all
  | cons c text ih =>
      rw [findFrom] at h
      split at h
      · cases h
      · rename_i hprefix
        intro heq
        cases before with
        | nil => exact hprefix (List.isPrefixOf_iff_prefix.mpr ⟨after, heq.symm⟩)
        | cons d before => exact ih h before (List.cons.inj heq).2

end Find

end Vemsa.Support
