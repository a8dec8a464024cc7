import Vemsa.Support.Python

/-!
# Support — Sorting

More on `sorted`.  Its result is the only list that `StablySorted` admits (`StablySorted.unique`), so
two keys that agree on it sort alike (`sortedBy_refine`), and the order of a list without two equal
keys does not matter (`sortedBy_perm`).
-/

namespace Vemsa.Support

variable {α β κ κ' : Type} [LinearOrder κ] [LinearOrder κ']

theorem StablySorted.unique {key : α → κ} {items out out' : List α} (h : StablySorted key items out)
    (h' : StablySorted key items out') : out = out' := by
  have hperm := h.perm.trans h'.perm.symm
  have hstable := fun k => (h.stable k).trans (h'.stable k).symm
  have hordered := h.ordered
  have hordered' := h'.ordered
  clear h h'
  induction out generalizing out' with
  | nil => exact hperm.nil_eq
  | cons a rest ih =>
      cases out' with
      | nil => exact hperm.eq_nil
      | cons b rest' =>
          obtain ⟨hmin, hrest⟩ := List.pairwise_cons.mp hordered
          obtain ⟨hmin', hrest'⟩ := List.pairwise_cons.mp hordered'
          -- both heads have the least key, and the first item with it is the same
          have hle : key a ≤ key b := by
            rcases List.mem_cons.mp (hperm.mem_iff.mpr List.mem_cons_self) with rfl | hb
            · exact le_rfl
            · exact hmin b hb
          have hge : key b ≤ key a := by
            rcases List.mem_cons.mp (hperm.mem_iff.mp List.mem_cons_self) with rfl | ha
            · exact le_rfl
            · exact hmin' a ha
          have hkey := le_antisymm hle hge
          have hhead : a = b := by
            have hfirst := hstable (key a)
            rw [List.filter_cons_of_pos (by simp), List.filter_cons_of_pos (by simp [hkey])] at hfirst
            exact (List.cons.inj hfirst).1
          subst hhead
          refine congrArg (a :: ·) (ih hperm.cons_inv (fun k => ?_) hrest hrest')
          have hk := hstable k
          simp only [List.filter_cons] at hk
          split at hk
          · exact (List.cons.inj hk).2
          · exact hk

/-- A key that orders the sorted list too, and ties no more of it. -/
theorem sortedBy_refine {key : α → κ} {key' : α → κ'} {items : List α}
    (h : (sortedBy key items).Pairwise fun a b => key' a ≤ key' b ∧ (key' a = key' b → key a = key b)) :
    sortedBy key' items = sortedBy key items := by
  have hsorted := stablySorted_sortedBy key items
  have hties : ∀ a ∈ sortedBy key items, ∀ b ∈ sortedBy key items, key' a = key' b → key a = key b :=
    fun a ha b hb => List.Pairwise.forall_of_forall_of_flip (fun _ _ _ => rfl) (h.imp And.right)
      (h.imp fun hab heq => (hab.2 heq.symm).symm) ha hb
  refine (stablySorted_sortedBy key' items).unique ⟨hsorted.perm, h.imp And.left, fun k => ?_⟩
  by_cases hnone : ∃ a ∈ sortedBy key items, key' a = k
  · obtain ⟨a, ha, rfl⟩ := hnone
    have hsame : ∀ l : List α, l.Perm (sortedBy key items) →
        l.filter (fun b => key' b = key' a) =
          (l.filter fun b => key b = key a).filter fun b => key' b = key' a := fun l hl => by
      rw [List.filter_filter]
      refine List.filter_congr fun b hb => ?_
      have := hties b (hl.mem_iff.mp hb) a ha
      by_cases heq : key' b = key' a <;> simp [heq, this]
    rw [hsame _ (List.Perm.refl _), hsame _ hsorted.perm.symm, hsorted.stable]
  · push Not at hnone
    have hempty : ∀ l : List α, l.Perm (sortedBy key items) → l.filter (fun b => key' b = k) = [] :=
      fun l hl => List.filter_eq_nil_iff.mpr fun b hb => by simpa using hnone b (hl.mem_iff.mp hb)
    rw [hempty _ (List.Perm.refl _), hempty _ hsorted.perm.symm]

theorem sortedBy_map (f : α → β) (key : β → κ) (items : List α) :
    sortedBy key (items.map f) = (sortedBy (fun a => key (f a)) items).map f :=
  (List.map_insertionSort (fun a b => key (f a) ≤ key (f b)) (fun a b => key a ≤ key b) f items
    fun _ _ _ _ => Iff.rfl).symm

/-- Where no two items have one key, their order does not matter. -/
theorem sortedBy_perm {key : α → κ} {items items' : List α} (hperm : items.Perm items')
    (hkeys : (items.map key).Nodup) : sortedBy key items = sortedBy key items' := by
  have hsorted := stablySorted_sortedBy key items
  have hsorted' := stablySorted_sortedBy key items'
  refine List.Perm.eq_of_pairwise (fun a b ha hb hab hba => ?_) hsorted.ordered hsorted'.ordered
    ((hsorted.perm.trans hperm).trans hsorted'.perm.symm)
  exact List.inj_on_of_nodup_map hkeys (hsorted.perm.mem_iff.mp ha)
    (hperm.mem_iff.mpr (hsorted'.perm.mem_iff.mp hb)) (le_antisymm hab hba)

end Vemsa.Support
