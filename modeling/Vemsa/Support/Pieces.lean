import Mathlib

/-!
# Support — Pieces

A list cut into pieces from the left.  `len a rest` says how many items of `rest` the piece that
begins with `a` takes besides it, and what follows is cut in the same way.

* `flatten_pieces`: nothing is lost, and the order is kept.
* `forall_pieces`, `isChain_pieces`: what holds of the piece cut off any list, and of that piece
  with the item after it, holds of all pieces and of every two in a row.

A list can also be filed: each bin gets a copy of the items that pass its test.
`flatMap_filter_perm_iff` says when every item is filed once.
-/

namespace Vemsa.Support

variable {α : Type*}

def pieces (len : α → List α → ℕ) : List α → List (List α)
  | [] => []
  | a :: rest => (a :: rest.take (len a rest)) :: pieces len (rest.drop (len a rest))
termination_by l => l.length
decreasing_by simp

variable {len : α → List α → ℕ}

@[simp]
theorem pieces_nil : pieces len [] = [] := by rw [pieces]

theorem pieces_cons (a : α) (rest : List α) :
    pieces len (a :: rest) =
      (a :: rest.take (len a rest)) :: pieces len (rest.drop (len a rest)) := by
  rw [pieces]

theorem flatten_pieces (l : List α) : (pieces len l).flatten = l := by
  induction l using pieces.induct len with
  | case1 => simp
  | case2 a rest ih => rw [pieces_cons, List.flatten_cons, ih, List.cons_append, List.take_append_drop]

/-- **What holds of a piece wherever it is cut off holds of every piece.** -/
theorem forall_pieces {P : List α → Prop} (h : ∀ (a : α) (rest : List α), P (a :: rest.take (len a rest)))
    (l : List α) : ∀ p ∈ pieces len l, P p := by
  induction l using pieces.induct len with
  | case1 => simp
  | case2 a rest ih =>
      rw [pieces_cons]
      exact List.forall_mem_cons.mpr ⟨h a rest, ih⟩

theorem ne_nil_of_mem_pieces {l p : List α} (hp : p ∈ pieces len l) : p ≠ [] :=
  forall_pieces (P := (· ≠ [])) (fun _ _ => List.cons_ne_nil _ _) l p hp

/-- **What holds of a piece and the item after it holds of every two pieces in a row.** -/
theorem isChain_pieces {R : List α → List α → Prop} (l : List α)
    (h : ∀ a rest b q, a :: rest <:+ l → (rest.drop (len a rest)).head? = some b →
      R (a :: rest.take (len a rest)) (b :: q)) : (pieces len l).IsChain R := by
  induction l using pieces.induct len with
  | case1 => simp
  | case2 a rest ih =>
      have hsuffix : rest.drop (len a rest) <:+ a :: rest :=
        (List.drop_suffix _ _).trans (List.suffix_cons _ _)
      rw [pieces_cons]
      refine List.isChain_cons.mpr
        ⟨fun p hp => ?_, ih fun a' rest' b q hs => h a' rest' b q (hs.trans hsuffix)⟩
      cases hd : rest.drop (len a rest) with
      | nil => simp [hd] at hp
      | cons b rest' =>
          rw [hd, pieces_cons, List.head?_cons, Option.mem_some_iff] at hp
          exact hp ▸ h a rest b _ (List.suffix_rfl) (by rw [hd, List.head?_cons])

/-! ### Filing -/

section Filing

variable {α β : Type*} [DecidableEq α] (test : α → β → Bool) (items : List α) (bins : List β)

theorem count_flatMap_filter (item : α) :
    (bins.flatMap fun bin => items.filter (test · bin)).count item =
      items.count item * bins.countP (test item) := by
  induction bins with
  | nil => rfl
  | cons bin bins ih =>
      rw [List.flatMap_cons, List.count_append, ih, List.countP_cons]
      by_cases hpass : test item bin
      · rw [List.count_filter (p := (test · bin)) hpass, if_pos hpass, Nat.mul_succ, Nat.add_comm]
      · have hnone : item ∉ items.filter (test · bin) := fun hmem =>
          hpass (List.mem_filter.mp hmem).2
        rw [List.count_eq_zero_of_not_mem hnone, if_neg hpass, Nat.zero_add, Nat.add_zero]

/-- **Each item is filed once iff it passes the test of exactly one bin.** -/
theorem flatMap_filter_perm_iff :
    (bins.flatMap fun bin => items.filter (test · bin)).Perm items ↔
      ∀ item ∈ items, bins.countP (test item) = 1 := by
  simp only [List.perm_iff_count, count_flatMap_filter]
  constructor
  · intro h item hmem
    have hpos : 0 < items.count item := List.count_pos_iff.mpr hmem
    exact Nat.eq_of_mul_eq_mul_left hpos ((h item).trans (Nat.mul_one _).symm)
  · intro h item
    by_cases hmem : item ∈ items
    · rw [h item hmem, Nat.mul_one]
    · rw [List.count_eq_zero_of_not_mem hmem, Nat.zero_mul]

end Filing

end Vemsa.Support
