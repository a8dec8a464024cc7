import Mathlib.Algebra.Order.Floor.Semiring
import Mathlib.Data.Rat.Floor
import Vemsa.Support.Sorting

/-!
# Support — Percentiles

The continuous percentile of a database: the place `fraction * (n - 1)` of the sorted values, and
between two places the point on the line between them.

* `percentileCont_rank`: so many values lie on either side.
* `percentileCont_mono`: a larger fraction gives no smaller percentile.
* `percentileCont_perm`: the order of the values does not matter.
-/

namespace Vemsa.Support

/-! ### Places of a list -/

/-- What is at a place of the list; between two items, on the line between them. -/
def interpolate (items : List ℚ) (place : ℚ) : ℚ :=
  let below := items.getD ⌊place⌋₊ 0
  let above := items.getD ⌈place⌉₊ 0
  below + (place - ⌊place⌋₊) * (above - below)

section Interpolate

variable {items : List ℚ} {place place' : ℚ}

theorem getD_le_getD (hsorted : items.Pairwise (· ≤ ·)) {i j : ℕ} (hij : i ≤ j)
    (hj : j < items.length) : items.getD i 0 ≤ items.getD j 0 := by
  rw [List.getD_eq_getElem _ _ (hij.trans_lt hj), List.getD_eq_getElem _ _ hj]
  rcases hij.eq_or_lt with rfl | hlt
  · exact le_refl _
  · exact List.pairwise_iff_getElem.mp hsorted i j (hij.trans_lt hj) hj hlt

/-- The place lies within a step of the one below it. -/
theorem sub_floor_mem (h : 0 ≤ place) : 0 ≤ place - ⌊place⌋₊ ∧ place - ⌊place⌋₊ ≤ 1 :=
  ⟨sub_nonneg.mpr (Nat.floor_le h), by linarith [Nat.lt_floor_add_one place]⟩

theorem floor_le_interpolate (hsorted : items.Pairwise (· ≤ ·)) (h : 0 ≤ place)
    (hlast : ⌈place⌉₊ < items.length) : items.getD ⌊place⌋₊ 0 ≤ interpolate items place := by
  have hstep := getD_le_getD hsorted (Nat.floor_le_ceil place) hlast
  have := mul_nonneg (sub_floor_mem h).1 (sub_nonneg.mpr hstep)
  rw [interpolate]
  linarith

theorem interpolate_le_ceil (hsorted : items.Pairwise (· ≤ ·)) (h : 0 ≤ place)
    (hlast : ⌈place⌉₊ < items.length) : interpolate items place ≤ items.getD ⌈place⌉₊ 0 := by
  have hstep := getD_le_getD hsorted (Nat.floor_le_ceil place) hlast
  have := mul_le_of_le_one_left (sub_nonneg.mpr hstep) (sub_floor_mem h).2
  rw [interpolate]
  linarith

/-- **Going on along the list** goes up. -/
theorem interpolate_mono (hsorted : items.Pairwise (· ≤ ·)) (h : 0 ≤ place) (hle : place ≤ place')
    (hlast : ⌈place'⌉₊ < items.length) : interpolate items place ≤ interpolate items place' := by
  have h' : 0 ≤ place' := h.trans hle
  rcases le_or_gt ⌈place⌉₊ ⌊place'⌋₊ with hapart | hsame
  · calc interpolate items place
        ≤ items.getD ⌈place⌉₊ 0 :=
          interpolate_le_ceil hsorted h ((Nat.ceil_mono hle).trans_lt hlast)
      _ ≤ items.getD ⌊place'⌋₊ 0 :=
          getD_le_getD hsorted hapart ((Nat.floor_le_ceil place').trans_lt hlast)
      _ ≤ interpolate items place' := floor_le_interpolate hsorted h' hlast
  · -- both lie between the same two items
    have hbelow : ⌊place'⌋₊ = ⌊place⌋₊ :=
      le_antisymm (by have := Nat.ceil_le_floor_add_one place; omega) (Nat.floor_mono hle)
    have habove : ⌈place'⌉₊ = ⌈place⌉₊ := by
      refine le_antisymm ?_ (Nat.ceil_mono hle)
      have := Nat.ceil_le_floor_add_one place'
      omega
    have hstep := getD_le_getD hsorted (Nat.floor_le_ceil place') hlast
    have := mul_le_mul_of_nonneg_right (sub_le_sub_right hle (⌊place⌋₊ : ℚ)) (sub_nonneg.mpr hstep)
    rw [interpolate, interpolate]
    rw [hbelow, habove] at *
    linarith

end Interpolate

/-! ### Percentiles -/

/-- `percentile_cont(fraction) WITHIN GROUP (ORDER BY value)` -/
def percentileCont (fraction : ℚ) (values : List ℚ) : Option ℚ :=
  if values = [] then none
  else some (interpolate (sortedBy id values) (fraction * (values.length - 1 : ℕ)))

section Percentile

variable {fraction fraction' percentile percentile' : ℚ} {values values' : List ℚ}

theorem perm_sortedBy (values : List ℚ) : (sortedBy id values).Perm values :=
  (stablySorted_sortedBy id values).perm

theorem pairwise_sortedBy (values : List ℚ) : (sortedBy id values).Pairwise (· ≤ ·) :=
  (stablySorted_sortedBy id values).ordered

theorem percentileCont_eq_none : percentileCont fraction values = none ↔ values = [] := by
  rw [percentileCont]
  split <;> simp_all

theorem percentileCont_perm (h : values.Perm values') :
    percentileCont fraction values = percentileCont fraction values' := by
  have hsorted : sortedBy id values = sortedBy id values' :=
    (((perm_sortedBy values).trans h).trans (perm_sortedBy values').symm).eq_of_pairwise'
      (pairwise_sortedBy values) (pairwise_sortedBy values')
  have hnil : values = [] ↔ values' = [] := by
    rw [← List.length_eq_zero_iff, h.length_eq, List.length_eq_zero_iff]
  simp only [percentileCont, hnil, hsorted, h.length_eq]

/-- The last place is not passed. -/
theorem ceil_place_lt (hvalues : values ≠ []) (hfraction : fraction ≤ 1) :
    ⌈fraction * ((values.length - 1 : ℕ) : ℚ)⌉₊ < (sortedBy id values).length := by
  have hlen := (perm_sortedBy values).length_eq
  have hpos := List.length_pos_iff.mpr hvalues
  have hplace : ⌈fraction * ((values.length - 1 : ℕ) : ℚ)⌉₊ ≤ values.length - 1 :=
    Nat.ceil_le.mpr (mul_le_of_le_one_left (by positivity) hfraction)
  omega

/-- So many of the values are no larger. -/
theorem lt_countP_le {items : List ℚ} (hsorted : items.Pairwise (· ≤ ·)) {i : ℕ}
    (hi : i < items.length) {x : ℚ} (hx : items.getD i 0 ≤ x) :
    i < items.countP fun a => a ≤ x := by
  have hall : (items.take (i + 1)).countP (fun a => a ≤ x) = i + 1 := by
    rw [List.countP_eq_length.mpr, List.length_take, min_eq_left (Nat.succ_le_of_lt hi)]
    intro a ha
    obtain ⟨j, hj, rfl⟩ := List.getElem_of_mem ha
    rw [List.length_take] at hj
    rw [List.getElem_take, ← List.getD_eq_getElem _ 0]
    exact decide_eq_true ((getD_le_getD hsorted (by omega) hi).trans hx)
  have := (List.take_sublist (i + 1) items).countP_le (p := fun a => decide (a ≤ x))
  omega

/-- So many of the values are no smaller. -/
theorem lt_countP_ge {items : List ℚ} (hsorted : items.Pairwise (· ≤ ·)) {i : ℕ}
    (hi : i < items.length) {x : ℚ} (hx : x ≤ items.getD i 0) :
    items.length - i ≤ items.countP fun a => x ≤ a := by
  have hall : (items.drop i).countP (fun a => x ≤ a) = items.length - i := by
    rw [List.countP_eq_length.mpr, List.length_drop]
    intro a ha
    obtain ⟨j, hj, rfl⟩ := List.getElem_of_mem ha
    rw [List.length_drop] at hj
    rw [List.getElem_drop, ← List.getD_eq_getElem _ 0]
    exact decide_eq_true (hx.trans (getD_le_getD hsorted (by omega) (by omega)))
  have := (List.drop_sublist i items).countP_le (p := fun a => decide (x ≤ a))
  omega

/-- **So many values lie on either side of a percentile.** -/
theorem percentileCont_rank (hnonneg : 0 ≤ fraction) (hfraction : fraction ≤ 1)
    (h : percentileCont fraction values = some percentile) :
    fraction * (values.length - 1 : ℕ) < (values.countP fun value => value ≤ percentile : ℕ) ∧
      (1 - fraction) * (values.length - 1 : ℕ) < (values.countP fun value => percentile ≤ value : ℕ) := by
  have hvalues : values ≠ [] := fun hnil => by simp [percentileCont, hnil] at h
  rw [percentileCont, if_neg hvalues, Option.some_inj] at h
  have hsorted := pairwise_sortedBy values
  have hperm := perm_sortedBy values
  set place := fraction * ((values.length - 1 : ℕ) : ℚ) with hplace
  have hplace₀ : 0 ≤ place := by positivity
  have hlast : ⌈place⌉₊ < (sortedBy id values).length := ceil_place_lt hvalues hfraction
  have hbelow := lt_countP_le hsorted ((Nat.floor_le_ceil place).trans_lt hlast)
    (h ▸ floor_le_interpolate hsorted hplace₀ hlast)
  have habove := lt_countP_ge hsorted hlast (h ▸ interpolate_le_ceil hsorted hplace₀ hlast)
  rw [hperm.countP_eq] at hbelow habove
  rw [hperm.length_eq] at habove hlast
  constructor
  · exact (Nat.lt_floor_add_one place).trans_le (by exact_mod_cast hbelow)
  · have hceil := Nat.ceil_lt_add_one hplace₀
    have hpos : 0 < values.length := List.length_pos_iff.mpr hvalues
    have hrest : ((values.length : ℕ) : ℚ) - ⌈place⌉₊ ≤ (values.countP fun value => percentile ≤ value : ℕ) := by
      rw [← Nat.cast_sub hlast.le]
      exact_mod_cast habove
    have hlen : ((values.length - 1 : ℕ) : ℚ) = (values.length : ℚ) - 1 := Nat.cast_pred hpos
    rw [sub_mul, one_mul, ← hplace, hlen]
    linarith

/-- **A larger fraction** gives no smaller percentile. -/
theorem percentileCont_mono (hnonneg : 0 ≤ fraction) (hle : fraction ≤ fraction')
    (hfraction : fraction' ≤ 1) (h : percentileCont fraction values = some percentile)
    (h' : percentileCont fraction' values = some percentile') : percentile ≤ percentile' := by
  have hvalues : values ≠ [] := fun hnil => by simp [percentileCont, hnil] at h
  rw [percentileCont, if_neg hvalues, Option.some_inj] at h h'
  rw [← h, ← h']
  exact interpolate_mono (pairwise_sortedBy values) (by positivity)
    (mul_le_mul_of_nonneg_right hle (by positivity)) (ceil_place_lt hvalues hfraction)

end Percentile

end Vemsa.Support
