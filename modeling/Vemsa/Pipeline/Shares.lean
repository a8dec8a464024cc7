import Vemsa.Pipeline.SegmentMerge

/-!
# Pipeline — Shares

Who speaks how long, added up under names (`tally`).  A name is there once, as soon as anything is
added under it (`names_tally`, `nodup_tally`); in exact arithmetic the amount under it is the sum of
what was added (`amountOf_tally`), and all amounts together are the sum of everything
(`sumShares_tally`).
-/

namespace Vemsa.Pipeline
open Vemsa.Support Vemsa.Jobs

/-! ### Names -/

section Names

variable {τ : Type} [Clock τ] {name : String} {shares : List (String × τ)} {turns : List (Turn τ)}

theorem names_tally {other : String} {amount : τ} :
    other ∈ (tally name amount shares).map Prod.fst ↔ other = name ∨ other ∈ shares.map Prod.fst := by
  induction shares with
  | nil => simp [tally]
  | cons entry rest ih =>
      rw [tally]
      split
      · rename_i hname
        subst hname
        simp
      · rw [List.map_cons, List.mem_cons, ih, List.map_cons, List.mem_cons]
        tauto

theorem nodup_tally {amount : τ} (h : (shares.map Prod.fst).Nodup) :
    ((tally name amount shares).map Prod.fst).Nodup := by
  induction shares with
  | nil => exact List.nodup_singleton name
  | cons entry rest ih =>
      obtain ⟨hnew, hrest⟩ := List.nodup_cons.mp h
      rw [tally]
      split
      · exact h
      · rename_i hne
        refine List.nodup_cons.mpr ⟨fun hmem => ?_, ih hrest⟩
        exact (names_tally.mp hmem).elim hne hnew

theorem names_addOverlaps {start stop : τ} {name : String} :
    name ∈ (addOverlaps turns start stop shares).map Prod.fst ↔
      (∃ turn ∈ turns, 0 < overlap start stop turn ∧ turn.speaker = name) ∨
        name ∈ shares.map Prod.fst := by
  induction turns generalizing shares with
  | nil => simp [addOverlaps]
  | cons turn rest ih =>
      rw [addOverlaps, List.foldl_cons, ← addOverlaps, ih, List.exists_mem_cons_iff]
      split
      · rename_i hpos
        rw [names_tally, and_iff_right hpos, @eq_comm _ name turn.speaker]
        exact or_assoc.symm.trans (or_congr_left or_comm)
      · rename_i hpos
        simp only [hpos, false_and, false_or]

theorem nodup_addOverlaps {start stop : τ} (h : (shares.map Prod.fst).Nodup) :
    ((addOverlaps turns start stop shares).map Prod.fst).Nodup := by
  refine List.foldlRecOn (motive := fun sums : List (String × τ) => (sums.map Prod.fst).Nodup) turns _ h ?_
  intro sums hsums turn _
  split
  · exact nodup_tally hsums
  · exact hsums

end Names

/-! ### Amounts -/

section Amounts

variable {name : String} {amount : ℚ} {shares : List (String × ℚ)} {turns : List (Turn ℚ)}

/-- What is there under a name. -/
def amountOf (shares : List (String × ℚ)) (name : String) : ℚ := (shares.lookup name).getD 0

@[simp]
theorem amountOf_nil : amountOf [] name = 0 := rfl

theorem amountOf_cons (other : String) (share : ℚ) :
    amountOf ((other, share) :: shares) name = if other = name then share else amountOf shares name := by
  by_cases h : other = name
  · rw [if_pos h, amountOf, h, List.lookup_cons_self, Option.getD_some]
  · have hne : (name == other) = false := beq_false_of_ne (Ne.symm h)
    rw [if_neg h, amountOf, List.lookup_cons, hne]
    rfl

theorem amountOf_tally (other : String) :
    amountOf (tally name amount shares) other =
      amountOf shares other + if name = other then amount else 0 := by
  induction shares with
  | nil => rw [tally, amountOf_cons, amountOf_nil, zero_add, zero_add]
  | cons entry rest ih =>
      obtain ⟨first, share⟩ := entry
      rw [tally]
      split
      · rename_i hfirst
        rw [amountOf_cons, amountOf_cons, hfirst]
        by_cases h : name = other <;> simp [h]
      · rename_i hfirst
        rw [amountOf_cons, amountOf_cons, ih]
        by_cases h : first = other
        · rw [if_pos h, if_pos h, if_neg fun hname => hfirst (h.trans hname.symm), add_zero]
        · rw [if_neg h, if_neg h]

theorem sumShares_eq_sum : sumShares shares = (shares.map Prod.snd).sum := by
  rw [sumShares, List.sum_eq_foldl]

theorem sumShares_tally : sumShares (tally name amount shares) = sumShares shares + amount := by
  simp only [sumShares_eq_sum]
  induction shares with
  | nil => simp [tally]
  | cons entry rest ih =>
      rw [tally]
      split
      · rw [List.map_cons, List.sum_cons, List.map_cons, List.sum_cons, add_right_comm]
      · rw [List.map_cons, List.sum_cons, ih, List.map_cons, List.sum_cons, add_assoc]

/-- Each name once: what is there under a name is its entry. -/
theorem amountOf_of_mem (hnodup : (shares.map Prod.fst).Nodup) (h : (name, amount) ∈ shares) :
    amountOf shares name = amount := by
  induction shares with
  | nil => cases h
  | cons entry rest ih =>
      obtain ⟨hnew, hrest⟩ := List.nodup_cons.mp hnodup
      rw [amountOf_cons]
      rcases List.mem_cons.mp h with rfl | h
      · exact if_pos rfl
      · have hmem : name ∈ rest.map Prod.fst := List.mem_map_of_mem (f := Prod.fst) h
        have hne : entry.1 ≠ name := fun heq => hnew (heq ▸ hmem)
        rw [if_neg hne, ih hrest h]

theorem amountOf_of_not_mem (h : name ∉ shares.map Prod.fst) : amountOf shares name = 0 := by
  rw [amountOf, List.lookup_eq_none_iff.mpr fun entry hentry => ?_, Option.getD_none]
  rw [bne_iff_ne]
  rintro rfl
  exact h (List.mem_map_of_mem hentry)

theorem pos_tally (hamount : 0 < amount) (h : ∀ entry ∈ shares, 0 < entry.2) :
    ∀ entry ∈ tally name amount shares, 0 < entry.2 := by
  induction shares with
  | nil => exact List.forall_mem_singleton.mpr ((zero_add amount).symm ▸ hamount)
  | cons first rest ih =>
      obtain ⟨hfirst, hrest⟩ := List.forall_mem_cons.mp h
      rw [tally]
      split
      · exact List.forall_mem_cons.mpr ⟨add_pos hfirst hamount, hrest⟩
      · exact List.forall_mem_cons.mpr ⟨hfirst, ih hrest⟩

theorem nonneg_tally (hamount : 0 ≤ amount) (h : ∀ entry ∈ shares, 0 ≤ entry.2) :
    ∀ entry ∈ tally name amount shares, 0 ≤ entry.2 := by
  induction shares with
  | nil => exact List.forall_mem_singleton.mpr ((zero_add amount).symm ▸ hamount)
  | cons first rest ih =>
      obtain ⟨hfirst, hrest⟩ := List.forall_mem_cons.mp h
      rw [tally]
      split
      · exact List.forall_mem_cons.mpr ⟨add_nonneg hfirst hamount, hrest⟩
      · exact List.forall_mem_cons.mpr ⟨hfirst, ih hrest⟩

theorem pos_addOverlaps {start stop : ℚ} (h : ∀ entry ∈ shares, 0 < entry.2) :
    ∀ entry ∈ addOverlaps turns start stop shares, 0 < entry.2 := by
  refine List.foldlRecOn (motive := fun sums : List (String × ℚ) => ∀ entry ∈ sums, 0 < entry.2) turns _ h ?_
  intro sums hsums turn _
  split
  · rename_i hpos
    exact pos_tally hpos hsums
  · exact hsums

/-- A loop whose every step adds something adds the sum. -/
theorem foldl_adds {σ α : Type} {f : σ → ℚ} {step : σ → α → σ} {g : α → ℚ}
    (h : ∀ s a, f (step s a) = f s + g a) (l : List α) (s : σ) :
    f (l.foldl step s) = f s + (l.map g).sum := by
  induction l generalizing s with
  | nil => exact (add_zero (f s)).symm
  | cons a l ih => rw [List.foldl_cons, ih, h, List.map_cons, List.sum_cons, add_assoc]

theorem overlap_nonneg (start stop : ℚ) (turn : Turn ℚ) : 0 ≤ overlap start stop turn :=
  le_max_left _ _

theorem amountOf_addOverlaps (start stop : ℚ) :
    amountOf (addOverlaps turns start stop shares) name = amountOf shares name +
      ((turns.filter fun turn => turn.speaker = name).map (overlap start stop)).sum := by
  induction turns generalizing shares with
  | nil => simp [addOverlaps]
  | cons turn rest ih =>
      rw [addOverlaps, List.foldl_cons, ← addOverlaps, ih, List.filter_cons]
      have hzero : ¬ 0 < overlap start stop turn → overlap start stop turn = 0 := fun h =>
        (overlap_nonneg start stop turn).antisymm' (not_lt.mp h)
      split
      · rw [amountOf_tally]
        by_cases h : turn.speaker = name <;> simp [h, add_assoc]
      · rename_i hnone
        by_cases h : turn.speaker = name <;> simp [h, hzero hnone]

theorem sumShares_addOverlaps (start stop : ℚ) :
    sumShares (addOverlaps turns start stop shares) =
      sumShares shares + (turns.map (overlap start stop)).sum := by
  refine foldl_adds (fun shares turn => ?_) turns shares
  split
  · exact sumShares_tally
  · rename_i hnone
    rw [(overlap_nonneg start stop turn).antisymm' (not_lt.mp hnone), add_zero]

end Amounts

end Vemsa.Pipeline
