import Mathlib

/-!
# Support — Ranks

How many of a list go before an item.  In a list that a relation orders without ties the ranks are
`0 … n - 1`, each once (`perm_ranks`), and when one item leaves, exactly those behind it move up
(`rank_cons`).
-/

namespace Vemsa.Support

variable {α : Type*} {r : α → α → Prop} {l l' : List α} {a b : α}

/-! ### Without ties -/

variable (r) in
/-- Of any two items, one goes before the other. -/
def Ranked (l : List α) : Prop := l.Pairwise fun a b => r a b ∨ r b a

theorem Ranked.perm (h : l.Perm l') (hl : Ranked r l) : Ranked r l' :=
  (h.pairwise_iff fun hab => hab.symm).mp hl

theorem Ranked.total (h : Ranked r l) (ha : a ∈ l) (hb : b ∈ l) (hne : a ≠ b) : r a b ∨ r b a := by
  have : Std.Symm fun a b => r a b ∨ r b a := ⟨fun _ _ => Or.symm⟩
  exact h.forall ha hb hne

theorem Ranked.nodup [Std.Irrefl r] (h : Ranked r l) : l.Nodup :=
  h.imp fun hab heq => by
    subst heq
    exact hab.elim (irrefl _) (irrefl _)

/-! ### Ranks -/

variable [DecidableRel r]

variable (r) in
/-- How many of the list go before `a`. -/
def rank (l : List α) (a : α) : ℕ := l.countP fun b => r b a

theorem rank_cons (l : List α) (a b : α) : rank r (b :: l) a = rank r l a + if r b a then 1 else 0 := by
  simp only [rank, List.countP_cons, decide_eq_true_eq]

theorem rank_perm (h : l.Perm l') (a : α) : rank r l a = rank r l' a := h.countP_eq _

theorem rank_eq_zero_iff : rank r l a = 0 ↔ ∀ b ∈ l, ¬ r b a := by
  simp [rank, List.countP_eq_zero]

/-- Whoever is first goes before everyone else. -/
theorem Ranked.first_before (h : Ranked r l) (ha : a ∈ l) (hfirst : rank r l a = 0) (hb : b ∈ l)
    (hne : b ≠ a) : r a b :=
  (h.total ha hb hne.symm).resolve_right (rank_eq_zero_iff.mp hfirst b hb)

variable [Std.Irrefl r]

theorem rank_lt_length (ha : a ∈ l) : rank r l a < l.length :=
  List.countP_lt_length_iff.mpr ⟨a, ha, decide_eq_false (irrefl a)⟩

variable [IsTrans α r]

/-- Whoever goes before `a` goes before what `a` goes before, and `a` does too. -/
theorem rank_lt_rank (ha : a ∈ l) (hab : r a b) : rank r l a < rank r l b := by
  obtain ⟨front, back, rfl⟩ := List.append_of_mem ha
  have hmono : rank r (front ++ back) a ≤ rank r (front ++ back) b :=
    List.countP_mono_left fun c _ hc => decide_eq_true (trans_of r (of_decide_eq_true hc) hab)
  have hperm : (front ++ a :: back).Perm (a :: (front ++ back)) := List.perm_middle
  rw [rank_perm hperm, rank_perm hperm, rank_cons, rank_cons, if_neg (irrefl a), if_pos hab]
  exact Nat.lt_succ_of_le hmono

/-- Different items have different ranks. -/
theorem Ranked.rank_inj (h : Ranked r l) (ha : a ∈ l) (hb : b ∈ l) (heq : rank r l a = rank r l b) :
    a = b := by
  by_contra hne
  rcases h.total ha hb hne with hab | hba
  · exact (rank_lt_rank ha hab).ne heq
  · exact (rank_lt_rank hb hba).ne' heq

/-- **The ranks of `n` items** are `0 … n - 1`. -/
theorem perm_ranks (h : Ranked r l) : (l.map (rank r l)).Perm (List.range l.length) := by
  have hnodup : (l.map (rank r l)).Nodup :=
    h.nodup.map_on fun a ha b hb heq => h.rank_inj ha hb heq
  have hsub : l.map (rank r l) ⊆ List.range l.length := by
    intro k hk
    obtain ⟨a, ha, rfl⟩ := List.mem_map.mp hk
    exact List.mem_range.mpr (rank_lt_length ha)
  exact (List.subperm_of_subset hnodup hsub).perm_of_length_le (by simp)

/-- Someone is first. -/
theorem Ranked.exists_first (h : Ranked r l) (hne : l ≠ []) : ∃ a ∈ l, rank r l a = 0 := by
  have hmem : 0 ∈ l.map (rank r l) :=
    (perm_ranks h).mem_iff.mpr (List.mem_range.mpr (List.length_pos_iff.mpr hne))
  exact List.mem_map.mp hmem

end Vemsa.Support
