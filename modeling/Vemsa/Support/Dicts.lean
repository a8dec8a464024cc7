import Mathlib.Data.List.Induction
import Mathlib.Data.List.Nodup

/-!
# Support — Dicts

A `dict` that is filled item by item, its keys in the order they were first set.  What is looked up is
what was set last (`lookup_fillItems`), and no key comes twice (`nodup_fillItems`).
-/

namespace Vemsa.Support

variable {κ α : Type} [DecidableEq κ]

/-- `items[key] = value` -/
def setItem (items : List (κ × α)) (key : κ) (value : α) : List (κ × α) :=
  if key ∈ items.map Prod.fst then
    items.map fun item => if item.1 = key then (item.1, value) else item
  else items ++ [(key, value)]

/-- The loop that sets each pair. -/
def fillItems (pairs : List (κ × α)) : List (κ × α) :=
  pairs.foldl (fun items pair => setItem items pair.1 pair.2) []

variable {items pairs : List (κ × α)} {key other : κ} {value : α}

theorem lookup_isSome : (items.lookup key).isSome = true ↔ key ∈ items.map Prod.fst := by
  rw [Option.isSome_iff_ne_none, ne_eq, List.lookup_eq_none_iff]
  simp only [List.mem_map, not_forall, bne_iff_ne, ne_eq, not_not]
  constructor
  · rintro ⟨item, hitem, rfl⟩
    exact ⟨item, hitem, rfl⟩
  · rintro ⟨item, hitem, rfl⟩
    exact ⟨item, hitem, rfl⟩

theorem lookup_replace (hmem : key ∈ items.map Prod.fst) :
    (items.map fun item => if item.1 = key then (item.1, value) else item).lookup other =
      if other = key then some value else items.lookup other := by
  induction items with
  | nil => cases hmem
  | cons item items ih =>
      rw [List.map_cons]
      by_cases hitem : item.1 = key
      · rw [if_pos hitem, List.lookup_cons, List.lookup_cons, hitem]
        by_cases hother : other = key
        · simp [hother]
        · -- the rest is looked up in vain or not at all
          have hne : (other == key) = false := by simpa using hother
          rw [hne, if_neg hother]
          by_cases hlater : key ∈ items.map Prod.fst
          · rw [ih hlater, if_neg hother]
          · have hsame : (items.map fun item => if item.1 = key then (item.1, value) else item) =
                items := by
              refine (List.map_congr_left fun later hin => ?_).trans (List.map_id items)
              exact if_neg fun heq : later.1 = key => hlater (heq ▸ List.mem_map_of_mem hin)
            rw [hsame]
      · have hlater : key ∈ items.map Prod.fst :=
          (List.mem_cons.mp hmem).resolve_left fun heq => hitem heq.symm
        rw [if_neg hitem, List.lookup_cons, List.lookup_cons, ih hlater]
        by_cases hother : other = key
        · have hne : (other == item.1) = false :=
            beq_eq_false_iff_ne.mpr (hother ▸ fun h => hitem h.symm)
          rw [hne, if_pos hother]
        · simp [hother]

theorem lookup_setItem : (setItem items key value).lookup other =
    if other = key then some value else items.lookup other := by
  unfold setItem
  split
  · rename_i hmem
    exact lookup_replace hmem
  · rename_i hnew
    have hnone : items.lookup key = none :=
      Option.not_isSome_iff_eq_none.mp fun h => hnew (lookup_isSome.mp h)
    rw [List.lookup_append]
    by_cases hother : other = key
    · simp [hother, hnone]
    · have hne : (other == key) = false := by simpa using hother
      simp [hother, hne, List.lookup_cons]

theorem keys_setItem : (setItem items key value).map Prod.fst =
    if key ∈ items.map Prod.fst then items.map Prod.fst else items.map Prod.fst ++ [key] := by
  unfold setItem
  split
  · rw [List.map_map]
    refine List.map_congr_left fun item _ => ?_
    by_cases hitem : item.1 = key <;> simp [hitem]
  · rw [List.map_append]
    rfl

/-- **What is looked up** is what the last pair with the key set. -/
theorem lookup_fillItems (pairs : List (κ × α)) (key : κ) :
    (fillItems pairs).lookup key = pairs.reverse.lookup key := by
  induction pairs using List.reverseRecOn with
  | nil => rfl
  | append_singleton pairs pair ih =>
      rw [fillItems, List.foldl_append, List.foldl_cons, List.foldl_nil, ← fillItems, lookup_setItem,
        ih, List.reverse_append, List.reverse_singleton, List.singleton_append, List.lookup_cons]
      by_cases hkey : key = pair.1
      · simp [hkey]
      · have hne : (key == pair.1) = false := by simpa using hkey
        simp [hkey, hne]

theorem lookup_reverse_eq_some : pairs.reverse.lookup key = some value ↔
    ∃ before after, pairs = before ++ (key, value) :: after ∧ ∀ pair ∈ after, pair.1 ≠ key := by
  rw [List.lookup_eq_some_iff]
  constructor
  · rintro ⟨later, earlier, hsplit, hlast⟩
    refine ⟨earlier.reverse, later.reverse, by simpa using congrArg List.reverse hsplit, ?_⟩
    intro pair hpair heq
    simpa [heq] using hlast pair (List.mem_reverse.mp hpair)
  · rintro ⟨before, after, rfl, hlast⟩
    refine ⟨after.reverse, before.reverse, by simp, fun pair hpair => ?_⟩
    simpa using Ne.symm (hlast pair (List.mem_reverse.mp hpair))

theorem mem_keys_fillItems : key ∈ (fillItems pairs).map Prod.fst ↔ key ∈ pairs.map Prod.fst := by
  rw [← lookup_isSome, lookup_fillItems, lookup_isSome, List.map_reverse, List.mem_reverse]

theorem nodup_fillItems (pairs : List (κ × α)) : ((fillItems pairs).map Prod.fst).Nodup := by
  induction pairs using List.reverseRecOn with
  | nil => exact List.nodup_nil
  | append_singleton pairs pair ih =>
      rw [fillItems, List.foldl_append, List.foldl_cons, List.foldl_nil, ← fillItems, keys_setItem]
      split
      · exact ih
      · rename_i hnew
        exact List.nodup_append.mpr ⟨ih, List.nodup_singleton _, fun a ha b hb => by
          rintro rfl
          exact hnew (List.mem_singleton.mp hb ▸ ha)⟩

end Vemsa.Support
