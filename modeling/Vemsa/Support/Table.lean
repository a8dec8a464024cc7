import Mathlib

/-!
# Support — Table

A table under a primary key: a list of rows no two of which share a key.  The four statements
act on it as SQL's do — `insert` refuses a key that is taken, `update` rewrites the rows a
predicate selects, `delete` drops them, `matched` counts them — and every one is determined by
what `get?` reads afterwards (`get?_insert`, `get?_update`, `get?_delete`).
-/

namespace Vemsa.Support

variable {κ ρ : Type*}

/-- The rows of a table whose primary key is `key`. -/
@[ext]
structure Table (key : ρ → κ) where
  rows : List ρ
  nodup : (rows.map key).Nodup

namespace Table

variable {key : ρ → κ}

def empty : Table key := ⟨[], List.nodup_nil⟩

/-- `DELETE … WHERE p`. -/
def delete (t : Table key) (p : ρ → Bool) : Table key where
  rows := t.rows.filter fun r => !p r
  nodup := t.nodup.sublist (List.filter_sublist.map key)

/-- `UPDATE … SET f WHERE p`; an update does not touch the primary key. -/
def update (t : Table key) (p : ρ → Bool) (f : ρ → ρ) (hf : ∀ r, key (f r) = key r) :
    Table key where
  rows := t.rows.map fun r => if p r then f r else r
  nodup := by
    have hk : (key ∘ fun r => if p r then f r else r) = key := by
      funext r
      by_cases h : p r <;> simp [h, hf]
    simpa [hk] using t.nodup

/-- How many rows a `WHERE` clause selects: the count in the command tag. -/
def matched (t : Table key) (p : ρ → Bool) : ℕ := t.rows.countP p

/-! ### Counting -/

theorem matched_eq_zero_iff {t : Table key} {p : ρ → Bool} :
    t.matched p = 0 ↔ ∀ r ∈ t.rows, p r = false := by
  simp [matched, List.countP_eq_zero]

theorem update_of_matched_zero {t : Table key} {p : ρ → Bool} {f : ρ → ρ}
    {hf : ∀ r, key (f r) = key r} (h : t.matched p = 0) : t.update p f hf = t := by
  refine Table.ext ?_
  conv_rhs => rw [← List.map_id t.rows]
  exact List.map_congr_left fun r hr => by simp [matched_eq_zero_iff.mp h r hr]

theorem matched_update_le {t : Table key} {p q : ρ → Bool} {f : ρ → ρ}
    {hf : ∀ r, key (f r) = key r}
    (hq : ∀ r ∈ t.rows, p r = true → q (f r) = true → q r = true) :
    (t.update p f hf).matched q ≤ t.matched q := by
  simp only [matched, update, List.countP_map]
  refine List.countP_mono_left fun r hr h => ?_
  by_cases hp : p r
  · exact hq r hr hp (by simpa [hp] using h)
  · simpa [hp] using h

theorem matched_delete_le (t : Table key) (p q : ρ → Bool) :
    (t.delete p).matched q ≤ t.matched q :=
  List.filter_sublist.countP_le

variable [DecidableEq κ]

/-- The row under a key. -/
def get? (t : Table key) (k : κ) : Option ρ := t.rows.find? fun r => key r = k

/-- `INSERT`; `none` is the primary key violation. -/
def insert (t : Table key) (r : ρ) : Option (Table key) :=
  if h : key r ∈ t.rows.map key then none
  else some ⟨r :: t.rows, List.nodup_cons.mpr ⟨h, t.nodup⟩⟩

/-! ### Rows and keys -/

theorem key_of_get? {t : Table key} {k : κ} {r : ρ} (h : t.get? k = some r) : key r = k := by
  simpa using List.find?_some h

theorem mem_of_get? {t : Table key} {k : κ} {r : ρ} (h : t.get? k = some r) : r ∈ t.rows :=
  List.mem_of_find?_eq_some h

theorem get?_of_mem {t : Table key} {r : ρ} (h : r ∈ t.rows) : t.get? (key r) = some r := by
  cases hf : t.get? (key r) with
  | none => simpa using List.find?_eq_none.mp hf r h
  | some r' =>
      exact congrArg some (List.inj_on_of_nodup_map t.nodup (mem_of_get? hf) h (key_of_get? hf))

theorem get?_eq_none_iff {t : Table key} {k : κ} : t.get? k = none ↔ k ∉ t.rows.map key := by
  simp [get?, List.find?_eq_none]

/-- **Extensionality at one key.**  The row under `k` is whatever a row of that key can be. -/
theorem get?_eq_some_iff {t : Table key} {k : κ} {r : ρ} :
    t.get? k = some r ↔ r ∈ t.rows ∧ key r = k :=
  ⟨fun h => ⟨mem_of_get? h, key_of_get? h⟩, fun ⟨h, hk⟩ => hk ▸ get?_of_mem h⟩

/-! ### What each statement leaves under a key -/

@[simp]
theorem get?_empty (k : κ) : (empty : Table key).get? k = none := rfl

theorem get?_update (t : Table key) (p : ρ → Bool) (f : ρ → ρ) (hf : ∀ r, key (f r) = key r)
    (k : κ) : (t.update p f hf).get? k = (t.get? k).map fun r => if p r then f r else r := by
  have hp : (fun r => decide (key r = k)) ∘ (fun r => if p r then f r else r) =
      fun r => decide (key r = k) := by
    funext r
    by_cases h : p r <;> simp [h, hf]
  simp only [get?, update, List.find?_map, hp]

theorem get?_delete (t : Table key) (p : ρ → Bool) (k : κ) :
    (t.delete p).get? k = (t.get? k).filter fun r => !p r := by
  cases ht : t.get? k with
  | none =>
      have hs : ((t.delete p).rows.map key) ⊆ t.rows.map key :=
        List.map_subset key (List.filter_subset_self _)
      exact get?_eq_none_iff.mpr fun h => get?_eq_none_iff.mp ht (hs h)
  | some r =>
      obtain ⟨hr, hk⟩ := get?_eq_some_iff.mp ht
      cases hp : p r with
      | false =>
          rw [get?_eq_some_iff.mpr ⟨List.mem_filter.mpr ⟨hr, by simp [hp]⟩, hk⟩]
          simp [Option.filter, hp]
      | true =>
          simp only [Option.filter, hp, Bool.not_true, Bool.false_eq_true, if_false]
          refine get?_eq_none_iff.mpr fun h => ?_
          obtain ⟨r', hr', hk'⟩ := List.mem_map.mp h
          obtain ⟨hm, hn⟩ := List.mem_filter.mp hr'
          obtain rfl := List.inj_on_of_nodup_map t.nodup hm hr (hk'.trans hk.symm)
          simp [hp] at hn

theorem insert_eq_some {t t' : Table key} {r : ρ} (h : t.insert r = some t') :
    t.get? (key r) = none ∧ t'.rows = r :: t.rows := by
  unfold insert at h
  split at h
  · cases h
  · rename_i hk
    obtain rfl := Option.some.inj h
    exact ⟨get?_eq_none_iff.mpr hk, rfl⟩

theorem insert_eq_none_iff {t : Table key} {r : ρ} :
    t.insert r = none ↔ ∃ r', t.get? (key r) = some r' := by
  unfold insert
  split
  · rename_i hk
    simp only [true_iff]
    rw [← not_not (a := key r ∈ _), ← get?_eq_none_iff] at hk
    exact Option.ne_none_iff_exists'.mp hk
  · rename_i hk
    simp [get?_eq_none_iff.mpr hk]

theorem get?_insert {t t' : Table key} {r : ρ} (h : t.insert r = some t') (k : κ) :
    t'.get? k = if key r = k then some r else t.get? k := by
  obtain ⟨-, hr⟩ := insert_eq_some h
  by_cases hk : key r = k <;> simp [get?, hr, hk]

/-! ### How many rows a statement reaches -/

theorem countP_key_le_one (t : Table key) (k : κ) : (t.rows.countP fun r => key r = k) ≤ 1 := by
  have h := List.nodup_iff_count_le_one.mp t.nodup k
  rw [List.count, List.countP_map] at h
  exact Nat.le_trans (List.countP_mono_left fun r _ hr => by simpa using hr) h

/-- A clause that fixes the key selects the row under that key, or nothing. -/
theorem matched_eq_one_iff {t : Table key} {p : ρ → Bool} {k : κ}
    (hp : ∀ r, p r = true → key r = k) :
    t.matched p = 1 ↔ ∃ r, t.get? k = some r ∧ p r = true := by
  have hle : t.matched p ≤ 1 :=
    Nat.le_trans (List.countP_mono_left fun r _ h => decide_eq_true (hp r h)) (countP_key_le_one t k)
  constructor
  · intro h
    obtain ⟨r, hr, hpr⟩ := List.countP_pos_iff.mp (show 0 < t.rows.countP p by
      rw [← matched, h]; exact Nat.one_pos)
    exact ⟨r, get?_eq_some_iff.mpr ⟨hr, hp r hpr⟩, hpr⟩
  · rintro ⟨r, hr, hpr⟩
    have : 0 < t.matched p := List.countP_pos_iff.mpr ⟨r, mem_of_get? hr, hpr⟩
    omega

/-- A clause that fixes the key and does not select the row under it changes nothing. -/
theorem update_of_not_matched {t : Table key} {p : ρ → Bool} {f : ρ → ρ}
    {hf : ∀ r, key (f r) = key r} {k : κ} (hp : ∀ r, p r = true → key r = k)
    (h : t.matched p ≠ 1) : t.update p f hf = t := by
  refine update_of_matched_zero (matched_eq_zero_iff.mpr fun r hr => ?_)
  by_contra hpr
  rw [Bool.not_eq_false] at hpr
  exact h ((matched_eq_one_iff hp).mpr ⟨r, get?_eq_some_iff.mpr ⟨hr, hp r hpr⟩, hpr⟩)

theorem matched_insert {t t' : Table key} {r : ρ} (h : t.insert r = some t') (q : ρ → Bool) :
    t'.matched q = t.matched q + if q r then 1 else 0 := by
  rw [matched, (insert_eq_some h).2, List.countP_cons, matched]

end Table

end Vemsa.Support
