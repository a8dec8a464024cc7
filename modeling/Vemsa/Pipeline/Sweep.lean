import Vemsa.Support.Peak
import Vemsa.Pipeline.AssignSpeakers

/-!
# Pipeline — Sweep

Labelling words is a sweep: it never looks again at the turns that ended before a word, and stops at
the first turn that starts after it.  `scanLabels` is the plain definition, which looks at every turn
for every word.

* `bestTurn_eq_peak`: the early stop loses no turn, for the turns are sorted by start.
* `labelFrom_eq_scanFrom`: neither does the lower end of the sweep, for the words are sorted too.
  Turns may nest, so the sweep does not skip every turn that has ended, only those before the first
  that has not.
* `label_words_scan`: so the labels are the same.
-/

namespace Vemsa.Pipeline
open Vemsa.Support Vemsa.Jobs

variable {τ : Type} [Clock τ]

/-! ### The full scan -/

/-- The turn of the largest overlap with the word, the first one if there are several. -/
def scanTurn (word : Word τ) (turns : List (Turn τ)) : Option (Turn τ) :=
  peak (overlap word.start word.stop) turns

section Scan

variable (minCoverage inheritMaxGapS : τ) (turns : List (Turn τ))

/-- The label of a word: the speaker of the turn it overlaps most, unless it overlaps that turn too
little; else the label before it, across a short gap; else the speaker of the nearest turn. -/
def scanWord (previous : Option (Word τ × String)) (word : Word τ) : Except String String :=
  let enough (turn : Turn τ) : Bool :=
    minCoverage * (word.stop - word.start) ≤ overlap word.start word.stop turn
  match (scanTurn word turns).filter enough with
  | some turn => .ok turn.speaker
  | none =>
    match previous.filter fun (before, _) => word.start - before.stop ≤ inheritMaxGapS with
    | some (_, label) => .ok label
    | none => (nearestTurn word.start word.stop turns).map Turn.speaker

def scanFrom (previous : Option (Word τ × String)) : List (Word τ) → Except String (List String)
  | [] => .ok []
  | word :: words => do
    let label ← scanWord minCoverage inheritMaxGapS turns previous word
    return label :: (← scanFrom (some (word, label)) words)

/-- The labels by a scan of all turns for every word. -/
def scanLabels (words : List (Word τ)) : Except String (List String) :=
  scanFrom minCoverage inheritMaxGapS turns none words

end Scan

/-! ### What the sweep leaves out -/

theorem overlap_ended {word : Word τ} {turn : Turn τ} (h : turn.stop ≤ word.start) :
    overlap word.start word.stop turn ≤ 0 :=
  max_le le_rfl (Seconds.sub_nonpos_of_le
    ((min_le_right _ _).trans (h.trans (le_max_left _ _))))

theorem overlap_late {word : Word τ} {turn : Turn τ} (h : word.stop ≤ turn.start) :
    overlap word.start word.stop turn ≤ 0 :=
  max_le le_rfl (Seconds.sub_nonpos_of_le
    ((min_le_left _ _).trans (h.trans (le_max_right _ _))))

/-- **The early stop loses no turn**: `seen` are the turns before `rest`. -/
theorem bestTurn_peak (word : Word τ) (seen : List (Turn τ)) {rest : List (Turn τ)}
    (hrest : rest.Pairwise fun a b => a.start ≤ b.start) :
    bestTurn word ((scanTurn word seen).map Turn.speaker)
        (peakMeasure (overlap word.start word.stop) seen) rest =
      ((scanTurn word (seen ++ rest)).map Turn.speaker,
        peakMeasure (overlap word.start word.stop) (seen ++ rest)) := by
  induction rest generalizing seen with
  | nil => rw [bestTurn, List.append_nil]
  | cons turn rest ih =>
      obtain ⟨hfirst, hrest'⟩ := List.pairwise_cons.mp hrest
      rw [bestTurn]
      split
      · rw [List.append_cons, ← ih (seen ++ [turn]) hrest', scanTurn, scanTurn, peak_concat,
          peakMeasure_concat]
        split
        · rfl
        · rfl
      · rename_i hlate
        have hnone : ∀ t ∈ turn :: rest, overlap word.start word.stop t ≤ 0 := fun t ht => by
          refine overlap_late ?_
          rcases List.mem_cons.mp ht with rfl | ht
          · exact le_of_not_gt hlate
          · exact (le_of_not_gt hlate).trans (hfirst t ht)
        rw [scanTurn, scanTurn, peakMeasure, peakMeasure, peak_append_left hnone]

theorem bestTurn_eq_peak (word : Word τ) {skipped candidates : List (Turn τ)}
    (hskipped : ∀ turn ∈ skipped, turn.stop ≤ word.start)
    (hcandidates : candidates.Pairwise fun a b => a.start ≤ b.start) :
    bestTurn word none 0 candidates =
      ((scanTurn word (skipped ++ candidates)).map Turn.speaker,
        peakMeasure (overlap word.start word.stop) (skipped ++ candidates)) := by
  have hnone : ∀ turn ∈ skipped, overlap word.start word.stop turn ≤ 0 := fun turn hturn =>
    overlap_ended (hskipped turn hturn)
  rw [scanTurn, peakMeasure, peak_append_right hnone]
  exact bestTurn_peak word [] hcandidates

/-! ### The sweep -/

section Sweep

variable (minCoverage inheritMaxGapS : τ)

/-- The label of a word, where the turns before the candidates have ended. -/
theorem labelWord_eq_scanWord {word : Word τ} {skipped candidates : List (Turn τ)}
    (previous : Option (Word τ × String))
    (hskipped : ∀ turn ∈ skipped, turn.stop ≤ word.start)
    (hcandidates : candidates.Pairwise fun a b => a.start ≤ b.start) :
    labelWord minCoverage inheritMaxGapS (skipped ++ candidates) previous candidates word =
      scanWord minCoverage inheritMaxGapS (skipped ++ candidates) previous word := by
  rw [labelWord, bestTurn_eq_peak word hskipped hcandidates, scanWord]
  generalize skipped ++ candidates = turns
  dsimp only
  generalize henough : (fun turn : Turn τ => decide (minCoverage * (word.stop - word.start) ≤
    overlap word.start word.stop turn)) = enough
  have hbest : (if peakMeasure (overlap word.start word.stop) turns <
        minCoverage * (word.stop - word.start) then none
      else (scanTurn word turns).map Turn.speaker) =
      ((scanTurn word turns).filter enough).map Turn.speaker := by
    cases hscan : scanTurn word turns with
    | none => simp
    | some turn =>
        rw [peakMeasure_of_peak hscan, ← henough]
        by_cases h : minCoverage * (word.stop - word.start) ≤ overlap word.start word.stop turn
        · simp [Option.filter, h, h.not_gt]
        · simp [Option.filter, h, lt_of_not_ge h]
  rw [hbest]
  cases (scanTurn word turns).filter enough with
  | some turn => rfl
  | none =>
      cases previous with
      | none => rfl
      | some p =>
          by_cases hgap : word.start - p.1.stop ≤ inheritMaxGapS
          · simp [Option.filter, hgap]
          · simp [Option.filter, hgap]

/-- **The sweep is the full scan**, from a word on before which the turns skipped have ended. -/
theorem labelFrom_eq_scanFrom {skipped candidates : List (Turn τ)} {words : List (Word τ)}
    (previous : Option (Word τ × String))
    (hskipped : ∀ turn ∈ skipped, ∀ word ∈ words, turn.stop ≤ word.start)
    (hcandidates : candidates.Pairwise fun a b => a.start ≤ b.start)
    (hwords : words.Pairwise fun a b => a.start ≤ b.start) :
    labelFrom minCoverage inheritMaxGapS (skipped ++ candidates) previous candidates words =
      scanFrom minCoverage inheritMaxGapS (skipped ++ candidates) previous words := by
  induction words generalizing previous skipped candidates with
  | nil => rfl
  | cons word words ih =>
      obtain ⟨hlater, hwords'⟩ := List.pairwise_cons.mp hwords
      -- what is dropped here has ended before this word, and so before every later one
      set ended := candidates.takeWhile fun turn => turn.stop ≤ word.start
      set left := candidates.dropWhile fun turn => turn.stop ≤ word.start with hleft
      have hsplit : skipped ++ candidates = (skipped ++ ended) ++ left := by
        rw [List.append_assoc, List.takeWhile_append_dropWhile]
      have hended : ∀ turn ∈ skipped ++ ended, turn.stop ≤ word.start := fun turn hturn => by
        rcases List.mem_append.mp hturn with h | h
        · exact hskipped turn h word List.mem_cons_self
        · simpa using List.mem_takeWhile_imp h
      have hsorted : left.Pairwise fun a b => a.start ≤ b.start :=
        hcandidates.sublist (List.dropWhile_sublist _)
      have hrest (label : String) := ih (some (word, label))
        (fun turn hturn w hw => (hended turn hturn).trans (hlater w hw)) hsorted hwords'
      rw [labelFrom, ← hleft, scanFrom, hsplit,
        labelWord_eq_scanWord minCoverage inheritMaxGapS previous hended hsorted]
      cases scanWord minCoverage inheritMaxGapS (skipped ++ ended ++ left) previous word with
      | error e => rfl
      | ok label =>
          simp only [bind, Except.bind, hrest label]
          cases scanFrom minCoverage inheritMaxGapS (skipped ++ ended ++ left)
            (some (word, label)) words with
          | error e => rfl
          | ok labels => rfl

/-- **The sweep agrees with the full scan**, on words and turns that are sorted by start. -/
theorem label_words_scan {words : List (Word τ)} {turns : List (Turn τ)}
    (hwords : words.Pairwise fun a b => a.start ≤ b.start)
    (hturns : turns.Pairwise fun a b => a.start ≤ b.start) :
    labelWords minCoverage inheritMaxGapS turns words =
      scanLabels minCoverage inheritMaxGapS turns words :=
  have hskipped : ∀ turn ∈ ([] : List (Turn τ)), ∀ word ∈ words, turn.stop ≤ word.start :=
    List.forall_mem_nil _
  labelFrom_eq_scanFrom minCoverage inheritMaxGapS none hskipped hturns hwords

/-- A turn inside a longer one: it has ended, and the word after it still lies in the longer one. -/
theorem label_words_scan_nested :
    labelWords (0.25 : ℚ) 2 [⟨0, 9, "A"⟩, ⟨1, 2, "B"⟩] [⟨"ja", 1, 2, none⟩, ⟨"hej", 3, 4, none⟩] =
      scanLabels (0.25 : ℚ) 2 [⟨0, 9, "A"⟩, ⟨1, 2, "B"⟩] [⟨"ja", 1, 2, none⟩, ⟨"hej", 3, 4, none⟩] :=
  label_words_scan _ _ (by decide +kernel) (by decide +kernel)

end Sweep

end Vemsa.Pipeline
