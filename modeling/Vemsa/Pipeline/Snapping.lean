import Vemsa.Support.Changes
import Vemsa.Support.Json
import Vemsa.Pipeline.AssignSpeakers

/-!
# Pipeline — Snapping

`snapBoundaries` edits the labels it is scanning: a change may be moved onto boundaries not yet
visited, or next to one.  What one boundary can do is `snapBoundary_moves`: nothing, or move the
change that lies there, inside the two runs it separates, to where a sentence ends.

A change that was moved lies after the end of a sentence, and there the scan passes it by; so every
change is moved at most once, and `snap_boundaries_moves` follows for the whole run.
-/

namespace Vemsa.Pipeline
open Vemsa.Support Vemsa.Jobs

variable {τ : Type} [Clock τ]

omit [Clock τ] in
theorem pyIndex_eq_ok {α : Type} {items : List α} {index : ℕ} {item : α} :
    pyIndex items index = .ok item ↔ items[index]? = some item := by
  rw [pyIndex]
  cases items[index]? with
  | none => simp
  | some a => simp

/-! ### Looking around -/

section Look

variable {words : List (Word τ)} {labels : List String}

variable (words) in
/-- The word at the index ends a sentence. -/
def EndsAt (index : ℕ) : Prop := ∃ word ∈ words[index]?, endsSentence word.word = true

omit [Clock τ] in
/-- What is found before a boundary: a sentence end in reach, and one label from there on. -/
theorem sentenceEndBehindFrom_spec {left : String} {steps next i : ℕ}
    (h : sentenceEndBehindFrom words labels left steps next = .ok (some i)) :
    i < next ∧ next ≤ i + steps ∧ EndsAt words i ∧ ∀ j, i ≤ j → j < next → labels[j]? = some left := by
  induction steps generalizing next with
  | zero => cases h
  | succ steps ih =>
      cases next with
      | zero => cases h
      | succ index =>
          rw [sentenceEndBehindFrom] at h
          obtain ⟨label, hlabel, h⟩ := except_bind_eq_ok.mp h
          split at h
          · cases h
          rename_i heq
          obtain ⟨word, hword, h⟩ := except_bind_eq_ok.mp h
          have hleft : labels[index]? = some left := not_not.mp heq ▸ pyIndex_eq_ok.mp hlabel
          split at h
          · rename_i hends
            cases h
            refine ⟨by omega, by omega, ⟨word, pyIndex_eq_ok.mp hword, hends⟩, fun j hij hj => ?_⟩
            rw [show j = i by omega, hleft]
          · obtain ⟨hlt, hle, hends, hall⟩ := ih h
            refine ⟨by omega, by omega, hends, fun j hij hj => ?_⟩
            rcases Nat.lt_succ_iff_lt_or_eq.mp hj with hj | rfl
            · exact hall j hij hj
            · exact hleft

omit [Clock τ] in
/-- What is found after a boundary: a sentence end in reach, and one label up to the word after. -/
theorem sentenceEndAheadFrom_spec {right : String} {steps index i : ℕ}
    (h : sentenceEndAheadFrom words labels right steps index = .ok (some i)) :
    index ≤ i ∧ i < index + steps ∧ EndsAt words i ∧
      ∀ j, index ≤ j → j < i + 2 → labels[j]? = some right := by
  induction steps generalizing index with
  | zero => cases h
  | succ steps ih =>
      rw [sentenceEndAheadFrom] at h
      split at h
      · cases h
      obtain ⟨label, hlabel, h⟩ := except_bind_eq_ok.mp h
      split at h
      · cases h
      rename_i heq
      obtain ⟨word, hword, h⟩ := except_bind_eq_ok.mp h
      have hright : labels[index]? = some right := not_not.mp heq ▸ pyIndex_eq_ok.mp hlabel
      split at h
      · rename_i hends
        split at h
        · obtain ⟨next, hnext, h⟩ := except_bind_eq_ok.mp h
          split at h
          · rename_i hsame
            cases h
            have hafter : labels[i + 1]? = some right := hsame ▸ pyIndex_eq_ok.mp hnext
            refine ⟨le_rfl, by omega, ⟨word, pyIndex_eq_ok.mp hword, hends⟩, fun j hij hj => ?_⟩
            obtain rfl | rfl : j = i ∨ j = i + 1 := by omega
            · exact hright
            · exact hafter
          · cases h
        · cases h
      · obtain ⟨hle, hlt, hends, hall⟩ := ih h
        refine ⟨by omega, by omega, hends, fun j hij hj => ?_⟩
        rcases Nat.eq_or_lt_of_le hij with rfl | hj'
        · exact hright
        · exact hall j hj' hj

end Look

/-! ### One boundary -/

section Boundary

variable (words : List (Word τ)) (maxWords : ℤ)

/-- A change that lay at `place` and lies at `place'` now. -/
structure Snapped (place place' : ℕ) : Prop where
  near : |(place' : ℤ) - place| ≤ maxWords
  after_sentence : place' ≠ place → EndsAt words (place' - 1)

/-- The change at `boundary` moves, and nothing else. -/
def Moves (labels out : List String) (boundary : ℕ) : Prop :=
  ∃ front back right place,
    starts labels = front ++ (boundary, right) :: back ∧ starts out = front ++ (place, right) :: back ∧
      |(place : ℤ) - boundary| ≤ maxWords ∧ EndsAt words (place - 1)

variable {words maxWords} {labels : List String}

omit [Clock τ] in
theorem getElem?_fill (labels : List String) {first last : ℕ} (h : first ≤ last) (hlast : last ≤ labels.length)
    (label : String) (j : ℕ) :
    (fill labels first last label)[j]? = if first ≤ j ∧ j < last then some label else labels[j]? := by
  have hlen : (labels.take first).length = first := by
    rw [List.length_take]
    omega
  rw [fill, List.append_assoc, List.getElem?_append, hlen, List.getElem?_append,
    List.length_replicate, List.getElem?_replicate, List.getElem?_drop]
  by_cases h₁ : j < first
  · rw [if_pos h₁, if_neg (by omega), List.getElem?_take_of_lt h₁]
  · rw [if_neg h₁]
    by_cases h₂ : j - first < last - first
    · rw [if_pos h₂, if_pos h₂, if_pos (by omega)]
    · rw [if_neg h₂, if_neg (by omega), show last + (j - first - (last - first)) = j by omega]

omit [Clock τ] in
theorem moves_behind {boundary behind : ℕ} {left right : String} (hne : left ≠ right)
    (hlt : behind + 1 < boundary) (hnear : (boundary : ℤ) - (behind + 1) ≤ maxWords)
    (hends : EndsAt words behind)
    (hleft : ∀ j, behind ≤ j → j < boundary → labels[j]? = some left)
    (hright : labels[boundary]? = some right) :
    Moves words maxWords labels (fill labels (behind + 1) boundary right) boundary := by
  have hlen : boundary < labels.length := (List.getElem?_eq_some_iff.mp hright).1
  have hfill (j : ℕ) := getElem?_fill labels hlt.le hlen.le right j
  have hafter (j : ℕ) (h₁ : boundary ≤ j) (h₂ : j < boundary + 1) : labels[j]? = some right := by
    rw [show j = boundary by omega, hright]
  obtain ⟨front, back, hstarts, hstarts'⟩ := starts_moved labels
    (fill labels (behind + 1) boundary right) hne behind boundary (behind + 1) (boundary + 1)
    ⟨by omega, by omega⟩ ⟨by omega, by omega⟩
    (fun j hj => by rw [hfill, if_neg (by omega)]) hleft hafter
    (fun j h₁ h₂ => by rw [hfill, if_neg (by omega), hleft j h₁ (by omega)])
    (fun j h₁ h₂ => by
      rw [hfill]
      split
      · rfl
      · exact hafter j (by omega) h₂)
  refine ⟨front, back, right, behind + 1, hstarts, hstarts', ?_, hends⟩
  rw [abs_le]
  omega

omit [Clock τ] in
theorem moves_ahead {boundary ahead : ℕ} {left right : String} (hne : left ≠ right)
    (h₀ : 0 < boundary) (hle : boundary ≤ ahead) (hnear : (ahead : ℤ) + 1 - boundary ≤ maxWords)
    (hends : EndsAt words ahead) (hleft : labels[boundary - 1]? = some left)
    (hright : ∀ j, boundary ≤ j → j < ahead + 2 → labels[j]? = some right) :
    Moves words maxWords labels (fill labels boundary (ahead + 1) left) boundary := by
  have hlen : ahead + 1 < labels.length :=
    (List.getElem?_eq_some_iff.mp (hright (ahead + 1) (by omega) (by omega))).1
  have hfill (j : ℕ) := getElem?_fill labels (show boundary ≤ ahead + 1 by omega) hlen.le
    left j
  have hbefore (j : ℕ) (h₁ : boundary - 1 ≤ j) (h₂ : j < boundary) : labels[j]? = some left := by
    rw [show j = boundary - 1 by omega, hleft]
  obtain ⟨front, back, hstarts, hstarts'⟩ := starts_moved labels
    (fill labels boundary (ahead + 1) left) hne (boundary - 1) boundary (ahead + 1) (ahead + 2)
    ⟨by omega, by omega⟩ ⟨by omega, by omega⟩
    (fun j hj => by rw [hfill, if_neg (by omega)]) hbefore hright
    (fun j h₁ h₂ => by
      rw [hfill]
      split
      · rfl
      · exact hbefore j h₁ (by omega))
    (fun j h₁ h₂ => by rw [hfill, if_neg (by omega), hright j (by omega) h₂])
  refine ⟨front, back, right, ahead + 1, hstarts, hstarts', ?_, hends⟩
  rw [abs_le]
  omega

variable {L : Letters} {maxGapS : τ}

/-- **What one boundary can do**: nothing, or, where the word before it ends no sentence, move the
change that lies at it to where a sentence ends. -/
theorem snapBoundary_moves {out : List String} {boundary : ℕ} (h₀ : 0 < boundary)
    (hmax : 1 ≤ maxWords) (h : snapBoundary L words maxWords maxGapS labels boundary = .ok out) :
    out = labels ∨ (¬ EndsAt words (boundary - 1) ∧ Moves words maxWords labels out boundary) := by
  obtain ⟨left, hleft, h⟩ := except_bind_eq_ok.mp h
  obtain ⟨right, hright, h⟩ := except_bind_eq_ok.mp h
  rw [pyIndex_eq_ok] at hleft hright
  split at h
  · exact .inl (Except.ok.inj h).symm
  rename_i hne
  obtain ⟨before, hbefore, h⟩ := except_bind_eq_ok.mp h
  split at h
  · exact .inl (Except.ok.inj h).symm
  rename_i hunended
  obtain ⟨after, -, h⟩ := except_bind_eq_ok.mp h
  split at h
  · exact .inl (Except.ok.inj h).symm
  obtain ⟨gap, -, h⟩ := except_bind_eq_ok.mp h
  split at h
  · exact .inl (Except.ok.inj h).symm
  have hends : ¬ EndsAt words (boundary - 1) := fun ⟨word, hword, hend⟩ => by
    obtain rfl := Option.some.inj ((pyIndex_eq_ok.mp hbefore).symm.trans hword)
    exact hunended hend
  obtain ⟨behind, hbehind, h⟩ := except_bind_eq_ok.mp h
  obtain ⟨ahead, hahead, h⟩ := except_bind_eq_ok.mp h
  obtain ⟨pull, -, h⟩ := except_bind_eq_ok.mp h
  split at h
  · rename_i behind
    cases h
    obtain ⟨left', hleft', hbehind⟩ := except_bind_eq_ok.mp hbehind
    obtain rfl := Option.some.inj (hleft.symm.trans (pyIndex_eq_ok.mp hleft'))
    obtain ⟨hlt, hnear, hend, hall⟩ := sentenceEndBehindFrom_spec hbehind
    refine .inr ⟨hends, moves_behind hne (by omega) (by omega) hend (fun j h₁ h₂ => ?_) hright⟩
    obtain rfl | hj : j = boundary - 1 ∨ j < boundary - 1 := by omega
    · exact hleft
    · exact hall j h₁ hj
  · rename_i ahead
    cases h
    obtain ⟨right', hright', hahead⟩ := except_bind_eq_ok.mp hahead
    obtain rfl := Option.some.inj (hright.symm.trans (pyIndex_eq_ok.mp hright'))
    obtain ⟨hle, hnear, hend, hall⟩ := sentenceEndAheadFrom_spec hahead
    exact .inr ⟨hends, moves_ahead hne h₀ hle (by omega) hend hleft hall⟩
  · exact .inl (Except.ok.inj h).symm

/-! ### The run -/

variable (words maxWords) in
/-- A run of labels as it was and as it is: the same speaker, and its start at most moved. -/
def RunSnapped (run run' : ℕ × String) : Prop :=
  run'.2 = run.2 ∧ Snapped words maxWords run.1 run'.1

omit [Clock τ] in
/-- A step keeps what a run has kept: a change that has moved before is not moved again. -/
theorem RunSnapped.step {out out' : List String} {boundary : ℕ}
    (h : List.Forall₂ (RunSnapped words maxWords) (starts labels) (starts out))
    (hends : ¬ EndsAt words (boundary - 1)) (hmoves : Moves words maxWords out out' boundary) :
    List.Forall₂ (RunSnapped words maxWords) (starts labels) (starts out') := by
  obtain ⟨front, back, right, place, hstarts, hstarts', hnear, hend⟩ := hmoves
  rw [hstarts] at h
  rw [hstarts']
  refine forall₂_exchange h fun run ⟨hlabel, hsnapped⟩ => ⟨hlabel, ?_⟩
  have hunmoved : boundary = run.1 := by
    by_contra hne
    exact hends (hsnapped.after_sentence hne)
  exact ⟨hunmoved ▸ hnear, fun _ => hend⟩

variable (L maxGapS) in
/-- **Snapping only moves changes.**  No index is out of range; the speakers in a row are the same,
and every change lies near to where it was, after the end of a sentence if it has moved. -/
theorem snap_boundaries_moves (hlen : labels.length = words.length) (hmax : 1 ≤ maxWords) :
    ∃ out, snapBoundaries L words maxWords maxGapS labels = .ok out ∧ out.length = labels.length ∧
      out.destutter (· ≠ ·) = labels.destutter (· ≠ ·) ∧
      List.Forall₂ (Snapped words maxWords) (changes labels) (changes out) := by
  have hrefl : List.Forall₂ (RunSnapped words maxWords) (starts labels) (starts labels) :=
    List.forall₂_same.mpr fun run _ => ⟨rfl, by simp; omega, fun hne => absurd rfl hne⟩
  obtain ⟨out, hout, hlength, hruns⟩ : ∃ out, snapBoundaries L words maxWords maxGapS labels = .ok out ∧
      out.length = labels.length ∧
      List.Forall₂ (RunSnapped words maxWords) (starts labels) (starts out) := by
    refine foldlM_ok _ (fun boundary hb snapped hs => ?_) ⟨rfl, hrefl⟩
    rw [List.mem_range'_1] at hb
    have h₀ : 0 < boundary := by omega
    obtain ⟨out, hout, hlen', -⟩ := snapBoundary_ok L maxWords maxGapS (hs.1.trans hlen) h₀ (by omega)
    refine ⟨out, hout, hlen'.trans hs.1, ?_⟩
    rcases snapBoundary_moves h₀ hmax hout with rfl | ⟨hends, hmoves⟩
    · exact hs.2
    · exact RunSnapped.step hs.2 hends hmoves
  have hspeakers : (starts labels).map Prod.snd = (starts out).map Prod.snd := by
    rw [← List.forall₂_eq_eq_eq, List.forall₂_map_left_iff, List.forall₂_map_right_iff]
    exact hruns.imp fun _ _ h => h.1.symm
  have htail : List.Forall₂ (RunSnapped words maxWords) (starts labels).tail (starts out).tail := by
    rw [← List.drop_one, ← List.drop_one]
    exact List.forall₂_drop 1 hruns
  refine ⟨out, hout, hlength, ?_, ?_⟩
  · rw [← map_snd_starts, ← map_snd_starts, hspeakers]
  · rw [changes, changes, List.forall₂_map_left_iff, List.forall₂_map_right_iff]
    exact htail.imp fun _ _ h => h.2

end Boundary

/-- "ja" is clipped onto the voice before. -/
def clippedStart : List (Word ℚ) :=
  [⟨"hem.", 0, 1, none⟩, ⟨"ja", 1, 2, none⟩, ⟨"men", 2, 3, none⟩]

theorem snap_boundaries_moves_clipped :
    ∃ out, snapBoundaries .latin clippedStart 3 3 ["A", "A", "B"] = .ok out ∧ out.length = 3 ∧
      out.destutter (· ≠ ·) = ["A", "A", "B"].destutter (· ≠ ·) ∧
      List.Forall₂ (Snapped clippedStart 3) (changes ["A", "A", "B"]) (changes out) :=
  snap_boundaries_moves .latin 3 rfl (by decide)

end Vemsa.Pipeline
