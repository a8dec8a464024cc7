import Mathlib

/-!
# Support — Blocks

A list cut into blocks of given lengths (`List.splitLengths`).

* `splitLengths_flatten`: blocks laid end to end are cut apart again by their lengths.
* `getElem_splitLengths`: the `k`-th block is a slice of the list.
* `block_between_iff`: a slice of a list sorted by a key lies between two bounds exactly when
  two counts over the whole list say so.
-/

namespace Vemsa.Support

variable {α β : Type*}

/-! ### Cutting by lengths -/

theorem splitLengths_flatten (blocks : List (List α)) :
    (blocks.map List.length).splitLengths blocks.flatten = blocks := by
  induction blocks with
  | nil => rfl
  | cons b blocks ih =>
      rw [List.map_cons, List.flatten_cons, List.splitLengths_cons, List.take_left',
        List.drop_left', ih] <;> rfl

theorem getElem_splitLengths (sz : List ℕ) (l : List α) (k : ℕ)
    (hk : k < (sz.splitLengths l).length) (hk' : k < sz.length) :
    (sz.splitLengths l)[k] = (l.drop (sz.take k).sum).take sz[k] := by
  induction sz generalizing l k with
  | nil => simp at hk
  | cons n sz ih =>
      cases k with
      | zero => simp
      | succ k =>
          have hlt : k < sz.length := Nat.lt_of_succ_lt_succ hk'
          simp [ih (l.drop n) k (by simpa using hlt) hlt, List.drop_drop]

theorem getElem_mem_zip {l : List α} {l' : List β} {k : ℕ} (h : k < l.length)
    (h' : k < l'.length) : (l[k], l'[k]) ∈ l.zip l' := by
  rw [← List.getElem_zip (h := by rw [List.length_zip]; omega)]
  exact List.getElem_mem _

theorem sum_take_le (sz : List ℕ) (k : ℕ) : (sz.take k).sum ≤ sz.sum := by
  rw [← List.sum_take_add_sum_drop sz k]
  exact Nat.le_add_right _ _

/-- Two lists paired, then cut: cutting both by the same lengths pairs the pieces. -/
theorem flatMap_zip_splitLengths (f : β → List α) (sz : β → ℕ) {γ : Type*} (bs : List β)
    (l : List γ) (hf : ∀ b ∈ bs, (f b).length = sz b) :
    (bs.flatMap f).zip l =
      (bs.zip ((bs.map sz).splitLengths l)).flatMap fun p => (f p.1).zip p.2 := by
  induction bs generalizing l with
  | nil => simp
  | cons b bs ih =>
      have hb : (f b).length = sz b := hf b List.mem_cons_self
      rw [List.flatMap_cons, List.map_cons, List.splitLengths_cons, List.zip_cons_cons,
        List.flatMap_cons, ← ih _ fun x hx => hf x (List.mem_cons_of_mem b hx)]
      conv_lhs => rw [← List.take_append_drop (sz b) l]
      rcases Nat.lt_or_ge l.length (sz b) with hlt | hge
      · -- the list runs out inside the first piece
        rw [List.drop_of_length_le (Nat.le_of_lt hlt), List.take_of_length_le (Nat.le_of_lt hlt)]
        simp only [List.append_nil, List.zip_nil_right]
        conv_lhs => rw [List.zip_eq_zip_take_min]
        conv_rhs => rw [List.zip_eq_zip_take_min]
        rw [List.length_append, hb, Nat.min_eq_right (by omega), Nat.min_eq_right (by omega),
          List.take_append_of_le_length (by omega)]
      · exact List.zip_append (by rw [hb, List.length_take, Nat.min_eq_left hge])

/-! ### Slices of a sorted list -/

section Sorted

/-- A predicate whose elements come first is counted by where it ends. -/
theorem countP_le_iff {p : α → Bool} {l : List α}
    (hl : l.Pairwise fun x y => p y = true → p x = true) (a : ℕ) :
    l.countP p ≤ a ↔ ∀ x ∈ l.drop a, p x = false := by
  induction l generalizing a with
  | nil => simp
  | cons c l ih =>
      obtain ⟨hc, hl⟩ := List.pairwise_cons.mp hl
      by_cases hp : p c
      · cases a with
        | zero => simp [hp]
        | succ a => simpa [hp] using ih hl a
      · have hnone : ∀ x ∈ l, p x = false := fun x hx => by
          simpa using fun h => hp (hc x hx h)
        have hz : l.countP p = 0 := List.countP_eq_zero.mpr fun x hx => by simp [hnone x hx]
        rw [List.countP_cons_of_neg hp, hz]
        refine ⟨fun _ x hx => ?_, fun _ => Nat.zero_le a⟩
        rcases List.mem_cons.mp (List.mem_of_mem_drop hx) with rfl | hx
        · simpa using hp
        · exact hnone x hx

theorem le_countP_iff {p : α → Bool} {l : List α}
    (hl : l.Pairwise fun x y => p y = true → p x = true) {a : ℕ} (ha : a ≤ l.length) :
    a ≤ l.countP p ↔ ∀ x ∈ l.take a, p x = true := by
  constructor
  · intro h
    by_contra hcon
    push Not at hcon
    obtain ⟨x, hx, hpx⟩ := hcon
    obtain ⟨i, hi, rfl⟩ := List.getElem_of_mem hx
    rw [List.length_take] at hi
    rw [List.getElem_take] at hpx
    -- from `i` on nothing satisfies `p`
    have hle : l.countP p ≤ i := (countP_le_iff hl i).mpr fun y hy => by
      obtain ⟨j, hj, rfl⟩ := List.getElem_of_mem hy
      rw [List.getElem_drop]
      rcases Nat.eq_zero_or_pos j with rfl | hj0
      · simpa using hpx
      · have hpw := List.pairwise_iff_getElem.mp hl i (i + j) (by omega)
          (by rw [List.length_drop] at hj; omega) (by omega)
        simpa using fun h => hpx (hpw h)
    omega
  · intro h
    calc a = (l.take a).length := by rw [List.length_take, Nat.min_eq_left ha]
      _ = (l.take a).countP p := (List.countP_eq_length.mpr h).symm
      _ ≤ l.countP p := (List.take_sublist a l).countP_le

variable [LinearOrder β] {key : α → β} {l : List α}

/-- **A slice between two bounds.**  In a list sorted by `key`, the `b` elements from `a` on lie
in `[lo, hi]` exactly when at most `a` elements lie below `lo` and at least `a + b` lie at or
below `hi`. -/
theorem block_between_iff (hl : l.Pairwise fun x y => key x ≤ key y) {a b : ℕ} (hb : 0 < b)
    (hab : a + b ≤ l.length) (lo hi : β) :
    (∀ x ∈ (l.drop a).take b, lo ≤ key x ∧ key x ≤ hi) ↔
      (l.countP fun x => key x < lo) ≤ a ∧ a + b ≤ l.countP fun x => key x ≤ hi := by
  have hlt : l.Pairwise fun x y => decide (key y < lo) = true → decide (key x < lo) = true :=
    hl.imp fun h hy => by simpa using lt_of_le_of_lt h (by simpa using hy)
  have hle : l.Pairwise fun x y => decide (key y ≤ hi) = true → decide (key x ≤ hi) = true :=
    hl.imp fun h hy => by simpa using le_trans h (by simpa using hy)
  rw [countP_le_iff hlt, le_countP_iff hle hab]
  simp only [decide_eq_true_eq, decide_eq_false_iff_not, not_lt]
  have hla : a < l.length := by omega
  have hfirst : l[a] ∈ (l.drop a).take b := by
    rw [List.drop_eq_getElem_cons hla, ← Nat.succ_pred_eq_of_pos hb, List.take_succ_cons]
    exact List.mem_cons_self
  constructor
  · refine fun h => ⟨fun x hx => ?_, fun x hx => ?_⟩
    · -- the first element of the slice is the least of the rest
      rw [List.drop_eq_getElem_cons hla] at hx
      rcases List.mem_cons.mp hx with rfl | hx
      · exact (h _ hfirst).1
      · have hpw := hl.drop (i := a)
        rw [List.drop_eq_getElem_cons hla] at hpw
        exact le_trans (h _ hfirst).1 ((List.pairwise_cons.mp hpw).1 x hx)
    · rw [List.take_add, List.mem_append] at hx
      rcases hx with hx | hx
      · have hpw : (l.take a ++ l.drop a).Pairwise fun x y => key x ≤ key y := by
          rwa [List.take_append_drop]
        exact le_trans ((List.pairwise_append.mp hpw).2.2 x hx _ (List.mem_of_mem_take hfirst))
          (h _ hfirst).2
      · exact (h x hx).2
  · rintro ⟨h₁, h₂⟩ x hx
    exact ⟨h₁ x (List.mem_of_mem_take hx),
      h₂ x (by rw [List.take_add]; exact List.mem_append_right _ hx)⟩

end Sorted

end Vemsa.Support
