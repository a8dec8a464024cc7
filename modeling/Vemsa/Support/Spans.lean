import Mathlib

/-!
# Support — Spans

The maximal stretches on which a function of time is constant.  `A` gives a value at every time,
`p` says which values are of interest, and a list of spans is `Maximal` up to `hi` when its spans are
in order, each has one interesting value throughout, every interesting time is in one of them, and
two that touch differ.

* `Maximal.skip`, `Maximal.extend`, `Maximal.snoc`: one more stretch on which `A` is constant, as a
  sweep comes by it.
* `Maximal.unique`: the list is a function of `A`, so it does not matter how a sweep found it.
-/

namespace Vemsa.Support

/-- A value on the half-open interval from `start` to `stop`. -/
structure Span (τ β : Type*) where
  start : τ
  stop : τ
  value : β

variable {τ β : Type*} [LinearOrder τ]

/-- `t` lies in the span. -/
def Span.Holds (s : Span τ β) (t : τ) : Prop := s.start ≤ t ∧ t < s.stop

/-- The maximal spans of interest between `lo` and `hi`. -/
structure Maximal (A : τ → β) (p : β → Prop) (lo : τ) (hi : WithTop τ) (l : List (Span τ β)) :
    Prop where
  within : ∀ s ∈ l, lo ≤ s.start ∧ s.start < s.stop ∧ (s.stop : WithTop τ) ≤ hi
  ordered : l.Pairwise fun a b => a.stop ≤ b.start
  apart : l.IsChain fun a b => a.stop = b.start → a.value ≠ b.value
  constant : ∀ s ∈ l, p s.value ∧ ∀ t, s.Holds t → A t = s.value
  covers : ∀ t, lo ≤ t → (t : WithTop τ) < hi → p (A t) → ∃ s ∈ l, s.Holds t

namespace Maximal

variable {A : τ → β} {p : β → Prop} {lo : τ} {l : List (Span τ β)}

/-- Only the values from `lo` on matter. -/
theorem congr {A' : τ → β} {hi : WithTop τ} (h : Maximal A p lo hi l)
    (heq : ∀ t, lo ≤ t → A t = A' t) : Maximal A' p lo hi l where
  within := h.within
  ordered := h.ordered
  apart := h.apart
  constant s hs := by
    refine ⟨(h.constant s hs).1, fun t ht => ?_⟩
    rw [← heq t ((h.within s hs).1.trans ht.1)]
    exact (h.constant s hs).2 t ht
  covers t h₀ h₁ hp := h.covers t h₀ h₁ (by rwa [heq t h₀])

/-! ### Sweeping -/

theorem nil (A : τ → β) (p : β → Prop) (lo : τ) : Maximal A p lo lo [] where
  within := by simp
  ordered := .nil
  apart := .nil
  constant := by simp
  covers t h₀ h₁ := absurd (WithTop.coe_lt_coe.mp h₁) (not_lt.mpr h₀)

/-- Nothing of interest. -/
theorem skip {hi hi' : WithTop τ} (h : Maximal A p lo hi l) (hle : hi ≤ hi')
    (hnone : ∀ t, lo ≤ t → hi ≤ t → (t : WithTop τ) < hi' → ¬ p (A t)) :
    Maximal A p lo hi' l where
  within s hs := by
    obtain ⟨h₀, h₁, h₂⟩ := h.within s hs
    exact ⟨h₀, h₁, h₂.trans hle⟩
  ordered := h.ordered
  apart := h.apart
  constant := h.constant
  covers t h₀ h₁ hp :=
    h.covers t h₀ (lt_of_not_ge fun hge => hnone t h₀ hge h₁ hp) hp

section Step

variable {hi hi' : τ} {v : β} (hlt : hi < hi') (hconst : ∀ t, hi ≤ t → t < hi' → A t = v)
include hlt hconst

/-- A stretch of a new value. -/
theorem snoc (h : Maximal A p lo hi l) (hlo : lo ≤ hi) (hp : p v)
    (hnew : ∀ last ∈ l.getLast?, last.stop = hi → last.value ≠ v) :
    Maximal A p lo hi' (l ++ [⟨hi, hi', v⟩]) where
  within s hs := by
    rcases List.mem_append.mp hs with hs | hs
    · obtain ⟨h₀, h₁, h₂⟩ := h.within s hs
      exact ⟨h₀, h₁, h₂.trans (WithTop.coe_le_coe.mpr hlt.le)⟩
    · rw [List.mem_singleton.mp hs]
      exact ⟨hlo, hlt, le_rfl⟩
  ordered := by
    refine List.pairwise_append.mpr ⟨h.ordered, List.pairwise_singleton _ _, fun a ha b hb => ?_⟩
    rw [List.mem_singleton.mp hb]
    exact WithTop.coe_le_coe.mp (h.within a ha).2.2
  apart := List.isChain_append.mpr ⟨h.apart, List.isChain_singleton _, by simpa using hnew⟩
  constant s hs := by
    rcases List.mem_append.mp hs with hs | hs
    · exact h.constant s hs
    · rw [List.mem_singleton.mp hs]
      exact ⟨hp, fun t ht => hconst t ht.1 ht.2⟩
  covers t h₀ h₁ hpt := by
    rcases lt_or_ge t hi with ht | ht
    · obtain ⟨s, hs, hst⟩ := h.covers t h₀ (WithTop.coe_lt_coe.mpr ht) hpt
      exact ⟨s, List.mem_append_left _ hs, hst⟩
    · exact ⟨_, List.mem_append_right _ List.mem_cons_self, ht, WithTop.coe_lt_coe.mp h₁⟩

/-- The last span goes on. -/
theorem extend {last : Span τ β} (h : Maximal A p lo hi (l ++ [last])) (hstop : last.stop = hi)
    (hvalue : last.value = v) : Maximal A p lo hi' (l ++ [{ last with stop := hi' }]) := by
  have hlast := h.within last (by simp)
  have hordered := List.pairwise_append.mp h.ordered
  have hapart := List.isChain_append.mp h.apart
  refine ⟨fun s hs => ?_, ?_, ?_, fun s hs => ?_, fun t h₀ h₁ hpt => ?_⟩
  · rcases List.mem_append.mp hs with hs | hs
    · obtain ⟨h₀, h₁, h₂⟩ := h.within s (List.mem_append_left _ hs)
      exact ⟨h₀, h₁, h₂.trans (WithTop.coe_le_coe.mpr hlt.le)⟩
    · rw [List.mem_singleton.mp hs]
      exact ⟨hlast.1, hlast.2.1.trans (hstop ▸ hlt), le_rfl⟩
  · exact List.pairwise_append.mpr ⟨hordered.1, List.pairwise_singleton _ _, by
      simpa using hordered.2.2⟩
  · exact List.isChain_append.mpr ⟨hapart.1, List.isChain_singleton _, by simpa using hapart.2.2⟩
  · rcases List.mem_append.mp hs with hs | hs
    · exact h.constant s (List.mem_append_left _ hs)
    · obtain ⟨hpl, hcl⟩ := h.constant last (by simp)
      rw [List.mem_singleton.mp hs]
      refine ⟨hpl, fun t ht => ?_⟩
      rcases lt_or_ge t hi with hthi | hthi
      · exact hcl t ⟨ht.1, hstop ▸ hthi⟩
      · exact (hconst t hthi ht.2).trans hvalue.symm
  · rcases lt_or_ge t hi with ht | ht
    · obtain ⟨s, hs, hst⟩ := h.covers t h₀ (WithTop.coe_lt_coe.mpr ht) hpt
      rcases List.mem_append.mp hs with hs | hs
      · exact ⟨s, List.mem_append_left _ hs, hst⟩
      · rw [List.mem_singleton.mp hs] at hst
        exact ⟨_, List.mem_append_right _ List.mem_cons_self, hst.1, hst.2.trans (hstop ▸ hlt)⟩
    · refine ⟨_, List.mem_append_right _ List.mem_cons_self, ?_, WithTop.coe_lt_coe.mp h₁⟩
      exact (hlast.2.1.le.trans hstop.le).trans ht

end Step

/-! ### Uniqueness -/

theorem holds_start {s : Span τ β} {hi : WithTop τ} (h : Maximal A p lo hi l) (hs : s ∈ l) :
    s.Holds s.start :=
  ⟨le_rfl, (h.within s hs).2.1⟩

/-- The value at the start of a span is the span's. -/
theorem value_start {s : Span τ β} {hi : WithTop τ} (h : Maximal A p lo hi l) (hs : s ∈ l) :
    A s.start = s.value :=
  (h.constant s hs).2 _ (h.holds_start hs)

section Head

variable {s : Span τ β} (h : Maximal A p lo ⊤ (s :: l))
include h

theorem lo_le : lo ≤ s.start := (h.within s List.mem_cons_self).1

theorem interesting : p (A s.start) := by
  rw [h.value_start List.mem_cons_self]
  exact (h.constant s List.mem_cons_self).1

theorem not_nil : ¬ Maximal A p lo ⊤ [] := fun hn => by
  obtain ⟨b, hb, -⟩ := hn.covers s.start h.lo_le (WithTop.coe_lt_top _) h.interesting
  cases hb

/-- After the first span the others are maximal. -/
theorem tail : Maximal A p s.stop ⊤ l where
  within b hb :=
    ⟨List.rel_of_pairwise_cons h.ordered hb, (h.within b (List.mem_cons_of_mem s hb)).2⟩
  ordered := h.ordered.of_cons
  apart := h.apart.tail
  constant b hb := h.constant b (List.mem_cons_of_mem s hb)
  covers t h₀ h₁ hp := by
    obtain ⟨hlo, hs, -⟩ := h.within s List.mem_cons_self
    obtain ⟨b, hb, hbt⟩ := h.covers t (hlo.trans (hs.le.trans h₀)) h₁ hp
    rcases List.mem_cons.mp hb with rfl | hb
    · exact absurd hbt.2 (not_lt.mpr h₀)
    · exact ⟨b, hb, hbt⟩

/-- Nothing of interest comes before the first span. -/
theorem start_le {t : τ} (hlo : lo ≤ t) (hp : p (A t)) : s.start ≤ t := by
  obtain ⟨b, hb, hbt⟩ := h.covers t hlo (WithTop.coe_lt_top t) hp
  rcases List.mem_cons.mp hb with rfl | hb
  · exact hbt.1
  · exact ((h.within s List.mem_cons_self).2.1.le.trans
      (List.rel_of_pairwise_cons h.ordered hb)).trans hbt.1

/-- A span ends where the value changes. -/
theorem value_stop_ne : A s.stop ≠ s.value := fun heq => by
  -- otherwise the next span touches this one, with the same value
  have hp : p (A s.stop) := heq ▸ (h.constant s List.mem_cons_self).1
  obtain ⟨hlo, hs, -⟩ := h.within s List.mem_cons_self
  obtain ⟨b, hb, hbt⟩ := h.tail.covers s.stop le_rfl (WithTop.coe_lt_top _) hp
  cases l with
  | nil => cases hb
  | cons c l =>
      have hstart : s.stop = c.start :=
        le_antisymm (h.tail.within c List.mem_cons_self).1 (h.tail.start_le le_rfl hp)
      refine (List.isChain_cons_cons.mp h.apart).1 hstart ?_
      rw [← h.tail.value_start List.mem_cons_self, ← hstart, heq]

end Head

/-- The first span ends no later than another with its value that starts no later. -/
theorem stop_le {s s' : Span τ β} {l' : List (Span τ β)} (h : Maximal A p lo ⊤ (s :: l))
    (h' : Maximal A p lo ⊤ (s' :: l')) (hstart : s'.start = s.start) : s'.stop ≤ s.stop := by
  refine le_of_not_gt fun hlt => h.value_stop_ne ?_
  have hs := (h.within s List.mem_cons_self).2.1
  rw [(h'.constant s' List.mem_cons_self).2 s.stop ⟨hstart.trans_le hs.le, hlt⟩,
    ← h.value_start List.mem_cons_self, ← h'.value_start List.mem_cons_self, hstart]

/-- **There is one list of maximal spans.** -/
theorem unique {l' : List (Span τ β)} (h : Maximal A p lo ⊤ l) (h' : Maximal A p lo ⊤ l') :
    l = l' := by
  induction l generalizing lo l' with
  | nil =>
      cases l' with
      | nil => rfl
      | cons s' l' => exact absurd h h'.not_nil
  | cons s l ih =>
      cases l' with
      | nil => exact absurd h' h.not_nil
      | cons s' l' =>
          have hstart : s.start = s'.start :=
            le_antisymm (h.start_le h'.lo_le h'.interesting) (h'.start_le h.lo_le h.interesting)
          have hstop : s.stop = s'.stop :=
            le_antisymm (h'.stop_le h hstart) (h.stop_le h' hstart.symm)
          have hvalue : s.value = s'.value := by
            rw [← h.value_start List.mem_cons_self, hstart, h'.value_start List.mem_cons_self]
          obtain rfl : s = s' := by
            cases s
            cases s'
            simp_all
          rw [ih h.tail h'.tail]

end Maximal

end Vemsa.Support
