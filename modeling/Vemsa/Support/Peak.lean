import Mathlib

/-!
# Support — Peak

The first item of a list with the largest positive measure (`peak`), as a scan that keeps the best
item so far finds it (`peak_concat`), and the part of a list that can hold it
(`peak_append_left`, `peak_append_right`): items without a positive measure do not matter.
-/

namespace Vemsa.Support

variable {α κ : Type*} [LinearOrder κ] [Zero κ]

/-- The first item with the largest positive measure. -/
def peak (measure : α → κ) (l : List α) : Option α :=
  (l.filter fun a => 0 < measure a).argmax measure

section Peak

variable {measure : α → κ} {l l' : List α}

@[simp]
theorem peak_nil : peak measure [] = none := rfl

/-- The measure of the best item so far. -/
def peakMeasure (measure : α → κ) (l : List α) : κ := (peak measure l).elim 0 measure

theorem pos_of_mem_peak {a : α} (h : a ∈ peak measure l) : 0 < measure a :=
  of_decide_eq_true (List.mem_filter.mp (List.argmax_mem h)).2

theorem peakMeasure_nonneg (measure : α → κ) (l : List α) : 0 ≤ peakMeasure measure l := by
  cases h : peak measure l with
  | none => simp [peakMeasure, h]
  | some a => simpa [peakMeasure, h] using (pos_of_mem_peak h).le

/-- **One step of the scan**: an item wins if it has more than the best one so far. -/
theorem peak_concat (l : List α) (a : α) :
    peak measure (l ++ [a]) =
      if peakMeasure measure l < measure a then some a else peak measure l := by
  rw [peak, List.filter_append, List.filter_singleton]
  by_cases hpos : 0 < measure a
  · rw [decide_eq_true hpos, cond_true, List.argmax_concat, peakMeasure, peak]
    cases (l.filter fun a => 0 < measure a).argmax measure with
    | none => rw [Option.elim_none, if_pos hpos]
    | some best => rw [Option.elim_some]
  · have hle : ¬ peakMeasure measure l < measure a := fun hlt =>
      hpos ((peakMeasure_nonneg measure l).trans_lt hlt)
    rw [decide_eq_false hpos, cond_false, List.append_nil, if_neg hle, peak]

theorem peakMeasure_concat (l : List α) (a : α) :
    peakMeasure measure (l ++ [a]) =
      if peakMeasure measure l < measure a then measure a else peakMeasure measure l := by
  rw [peakMeasure, peak_concat]
  split
  · rfl
  · rfl

theorem filter_pos_eq_nil (h : ∀ a ∈ l, measure a ≤ 0) : (l.filter fun a => 0 < measure a) = [] :=
  List.filter_eq_nil_iff.mpr fun a ha hpos => (h a ha).not_gt (of_decide_eq_true hpos)

/-- Nothing after the first list can win. -/
theorem peak_append_left (h : ∀ a ∈ l', measure a ≤ 0) : peak measure (l ++ l') = peak measure l := by
  rw [peak, List.filter_append, filter_pos_eq_nil h, List.append_nil, peak]

/-- Nothing before the second list can win. -/
theorem peak_append_right (h : ∀ a ∈ l, measure a ≤ 0) : peak measure (l ++ l') = peak measure l' := by
  rw [peak, List.filter_append, filter_pos_eq_nil h, List.nil_append, peak]

theorem peakMeasure_of_peak {a : α} (h : peak measure l = some a) :
    peakMeasure measure l = measure a := by
  rw [peakMeasure, h, Option.elim_some]

end Peak

end Vemsa.Support
