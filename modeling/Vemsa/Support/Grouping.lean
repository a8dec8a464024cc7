import Mathlib.Algebra.BigOperators.Group.List.Basic
import Mathlib.Data.List.Dedup

/-!
# Support — Grouping

`GROUP BY`, and sums over the groups.  A sum taken group by group is the sum over all items, however
they are grouped (`sum_groups`); the same holds for groups laid out beforehand, as long as every item
has one (`sum_keyed`).
-/

namespace Vemsa.Support

variable {α κ M : Type} [DecidableEq κ]

/-- `GROUP BY key`: each key there is, with the items that have it. -/
def groupBy (key : α → κ) (items : List α) : List (κ × List α) :=
  (items.map key).dedup.map fun k => (k, items.filter fun a => key a = k)

variable [AddCommMonoid M] {key : α → κ} {f : α → M}

theorem sum_filter_add (p : α → Bool) (f : α → M) (items : List α) :
    ((items.filter p).map f).sum + ((items.filter fun a => !p a).map f).sum = (items.map f).sum := by
  rw [← List.sum_append, ← List.map_append]
  exact ((List.filter_append_perm p items).map f).sum_eq

/-- **Groups laid out beforehand**, at least one for every item and no two for one key. -/
theorem sum_keyed {keys : List κ} (hkeys : keys.Nodup) {items : List α}
    (h : ∀ a ∈ items, key a ∈ keys) :
    (keys.map fun k => ((items.filter fun a => key a = k).map f).sum).sum = (items.map f).sum := by
  induction keys generalizing items with
  | nil =>
      cases items with
      | nil => rfl
      | cons a items => cases h a List.mem_cons_self
  | cons k keys ih =>
      obtain ⟨hk, hkeys⟩ := List.nodup_cons.mp hkeys
      -- the items of the other keys are what is left without those of `k`
      have hrest : ∀ a ∈ items.filter (fun a => !decide (key a = k)), key a ∈ keys := fun a ha => by
        obtain ⟨hmem, hne⟩ := List.mem_filter.mp ha
        exact (List.mem_cons.mp (h a hmem)).resolve_left (by simpa using hne)
      have hsame : ∀ k' ∈ keys, items.filter (fun a => key a = k') =
          (items.filter fun a => !decide (key a = k)).filter fun a => key a = k' := fun k' hk' => by
        rw [List.filter_filter]
        refine List.filter_congr fun a _ => ?_
        by_cases heq : key a = k'
        · have hne : k' ≠ k := fun hk'' => hk (hk'' ▸ hk')
          simp [heq, hne]
        · simp [heq]
      rw [List.map_cons, List.sum_cons, ← sum_filter_add (fun a => key a = k) f items, ← ih hkeys hrest]
      have hothers := List.map_congr_left fun k' hk' =>
        congrArg (fun group : List α => (group.map f).sum) (hsame k' hk')
      rw [hothers]

/-- **A sum taken group by group.** -/
theorem sum_groups (key : α → κ) (f : α → M) (items : List α) :
    ((groupBy key items).map fun group => (group.2.map f).sum).sum = (items.map f).sum := by
  rw [groupBy, List.map_map]
  exact sum_keyed (List.nodup_dedup _) fun a ha => List.mem_dedup.mpr (List.mem_map_of_mem ha)

theorem mem_groupBy {items : List α} {group : κ × List α} (h : group ∈ groupBy key items) :
    (∃ a ∈ items, key a = group.1) ∧ group.2 = items.filter fun a => key a = group.1 := by
  obtain ⟨k, hk, rfl⟩ := List.mem_map.mp h
  exact ⟨List.mem_map.mp (List.mem_dedup.mp hk), rfl⟩

theorem sum_filter_ite {β : Type} (p : β → Bool) (f : β → M) (items : List β) :
    ((items.filter p).map f).sum = (items.map fun b => if p b then f b else 0).sum := by
  induction items with
  | nil => rfl
  | cons b items ih =>
      rw [List.map_cons, List.sum_cons, ← ih, List.filter_cons]
      by_cases hp : p b = true <;> simp [hp]

/-- A sum over the groups of some keys. -/
theorem sum_groups_filter (p : κ → Bool) (key : α → κ) (f : α → M) (items : List α) :
    (((groupBy key items).filter fun group => p group.1).map fun group => (group.2.map f).sum).sum =
      ((items.filter fun a => p (key a)).map f).sum := by
  rw [sum_filter_ite, sum_filter_ite, ← sum_groups key]
  refine congrArg List.sum (List.map_congr_left fun group hgroup => ?_)
  obtain ⟨-, hitems⟩ := mem_groupBy hgroup
  -- the items of a group have its key
  have hkeys : ∀ a ∈ group.2, key a = group.1 := fun a ha => by
    rw [hitems] at ha
    exact of_decide_eq_true (List.mem_filter.mp ha).2
  have hsame : ∀ a ∈ group.2, (if p (key a) then f a else 0) = if p group.1 then f a else 0 :=
    fun a ha => by rw [hkeys a ha]
  rw [List.map_congr_left hsame]
  by_cases hp : p group.1 = true <;> simp [hp]

end Vemsa.Support
