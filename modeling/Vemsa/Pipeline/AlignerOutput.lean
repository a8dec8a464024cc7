import Vemsa.Support.Python
import Vemsa.Jobs.Models

/-!
# Pipeline — AlignerOutput

What comes back from the alignment library: speech windows that hold alignments that hold words.
`words_by_speech` also takes flatter shapes from other versions, and tells them apart by which
attributes an object has (`Shape`).  An attribute that is there and empty counts as one that is not:
a window without alignments, or an alignment without words, is then taken for a word itself.
`flattened_exactly` has the exact condition.
-/

namespace Vemsa.Pipeline
open Vemsa.Support Vemsa.Jobs

variable {τ : Type}

/-! ### Shapes -/

/-- An object of the library, as `getattr(…, None)` sees it. -/
structure Shape (τ : Type) where
  alignments : Option (List (Shape τ)) := none
  words : Option (List (Shape τ)) := none
  word : Option String := none
  text : Option String := none
  start : Option τ := none
  stop : Option τ := none
  score : Option τ := none

/-- `attribute or [item]` -/
def Shape.orSelf (item : Shape τ) : Option (List (Shape τ)) → List (Shape τ)
  | none | some [] => [item]
  | some items => items

section Source

variable (repr : Shape τ → String)

/-- The body of the innermost loop of `words_by_speech`. -/
def Shape.toWord (item : Shape τ) : Except String (Word τ) :=
  match (item.word.filter fun word => !word.isEmpty).or item.text, item.start, item.stop with
  | some text, some start, some stop =>
    .ok { word := pyStrip text, start, stop, probability := item.score }
  | _, _, _ => .error ("unrecognized alignment shape: " ++ repr item)

/-- `item`, in the order of the two inner loops -/
def Shape.items (speech : Shape τ) : List (Shape τ) :=
  (speech.orSelf speech.alignments).flatMap fun container => container.orSelf container.words

/-- `words_by_speech` -/
def wordsBySpeech (speeches : List (Shape τ)) : Except String (List (List (Word τ))) :=
  speeches.mapM fun speech => speech.items.mapM (Shape.toWord repr)

/-- `words_from_alignments` -/
def wordsFromAlignments (speeches : List (Shape τ)) : Except String (List (Word τ)) := do
  let grouped ← wordsBySpeech repr speeches
  return grouped.flatten

end Source

/-! ### The nested shape -/

/-- `WordSegment` -/
structure WordSegment (τ : Type) where
  text : String
  start : τ
  stop : τ
  score : Option τ := none

/-- `AlignmentSegment` -/
structure AlignmentSegment (τ : Type) extends WordSegment τ where
  words : List (WordSegment τ)

/-- `SpeechSegment` -/
structure SpeechSegment (τ : Type) extends WordSegment τ where
  alignments : List (AlignmentSegment τ)

def WordSegment.shape (w : WordSegment τ) : Shape τ where
  text := some w.text
  start := some w.start
  stop := some w.stop
  score := w.score

def AlignmentSegment.shape (a : AlignmentSegment τ) : Shape τ :=
  { a.toWordSegment.shape with words := some (a.words.map WordSegment.shape) }

def SpeechSegment.shape (s : SpeechSegment τ) : Shape τ :=
  { s.toWordSegment.shape with alignments := some (s.alignments.map AlignmentSegment.shape) }

/-- The word with the text, the times and the score of a segment. -/
def WordSegment.asWord (w : WordSegment τ) : Word τ where
  word := pyStrip w.text
  start := w.start
  stop := w.stop
  probability := w.score

/-- The words of a window. -/
def SpeechSegment.nestedWords (s : SpeechSegment τ) : List (Word τ) :=
  s.alignments.flatMap fun a => a.words.map WordSegment.asWord

/-- No list is empty. -/
def SpeechSegment.Filled (s : SpeechSegment τ) : Prop :=
  s.alignments ≠ [] ∧ ∀ a ∈ s.alignments, a.words ≠ []

/-! ### What is taken for a word -/

section Taken

variable {repr : Shape τ → String}

/-- The words read off an alignment: without words, it is one itself. -/
def AlignmentSegment.taken (a : AlignmentSegment τ) : List (Word τ) :=
  if a.words = [] then [a.toWordSegment.asWord] else a.words.map WordSegment.asWord

/-- The words read off a window. -/
def SpeechSegment.taken (s : SpeechSegment τ) : List (Word τ) :=
  if s.alignments = [] then [s.toWordSegment.asWord] else s.alignments.flatMap AlignmentSegment.taken

theorem Shape.orSelf_some (item : Shape τ) {items : List (Shape τ)} (h : items ≠ []) :
    item.orSelf (some items) = items := by
  cases items with
  | nil => exact absurd rfl h
  | cons i is => rfl

theorem AlignmentSegment.forall₂_taken (a : AlignmentSegment τ) :
    List.Forall₂ (fun item word => Shape.toWord repr item = .ok word)
      (a.shape.orSelf a.shape.words) a.taken := by
  by_cases h : a.words = []
  · have horself : a.shape.orSelf a.shape.words = [a.shape] := by simp [shape, h, Shape.orSelf]
    rw [horself, taken, if_pos h]
    exact .cons rfl .nil
  · rw [show a.shape.words = some (a.words.map WordSegment.shape) from rfl,
      Shape.orSelf_some _ (mt List.map_eq_nil_iff.mp h), taken, if_neg h, List.forall₂_map_left_iff,
      List.forall₂_map_right_iff]
    exact List.forall₂_same.mpr fun w _ => rfl

theorem SpeechSegment.forall₂_taken (s : SpeechSegment τ) :
    List.Forall₂ (fun item word => Shape.toWord repr item = .ok word) s.shape.items s.taken := by
  by_cases h : s.alignments = []
  · have hitems : s.shape.items = [s.shape] := by
      simp [Shape.items, shape, WordSegment.shape, h, Shape.orSelf]
    rw [hitems, taken, if_pos h]
    exact .cons rfl .nil
  · rw [Shape.items, show s.shape.alignments = some (s.alignments.map AlignmentSegment.shape) from rfl,
      Shape.orSelf_some _ (mt List.map_eq_nil_iff.mp h), taken, if_neg h, List.flatMap_map]
    induction s.alignments with
    | nil => exact .nil
    | cons a rest ih =>
        rw [List.flatMap_cons, List.flatMap_cons]
        exact List.rel_append a.forall₂_taken ih

/-- **What `words_by_speech` returns** for the nested shape. -/
theorem wordsBySpeech_shape (windows : List (SpeechSegment τ)) :
    wordsBySpeech repr (windows.map SpeechSegment.shape) = .ok (windows.map SpeechSegment.taken) := by
  rw [wordsBySpeech, mapM_eq_ok, List.forall₂_map_left_iff, List.forall₂_map_right_iff]
  exact List.forall₂_same.mpr fun s _ => mapM_eq_ok.mpr s.forall₂_taken

/-! ### Exactly the nested words -/

/-- Where something differs there is too much of it, and nothing further on makes up for that. -/
theorem flatMap_same_or_longer {α β : Type} {f g : α → List β} {l : List α}
    (h : ∀ a ∈ l, f a = g a ∨ (g a).length < (f a).length) :
    (∀ a ∈ l, f a = g a) ∨ (l.flatMap g).length < (l.flatMap f).length := by
  induction l with
  | nil => exact .inl (by simp)
  | cons a l ih =>
      obtain ⟨ha, hl⟩ := List.forall_mem_cons.mp h
      rw [List.flatMap_cons, List.flatMap_cons, List.length_append, List.length_append]
      rcases ha with ha | ha <;> rcases ih hl with hrest | hrest
      · exact .inl (List.forall_mem_cons.mpr ⟨ha, hrest⟩)
      · rw [ha]
        exact .inr (Nat.add_lt_add_left hrest _)
      · rw [List.flatMap_congr hrest]
        exact .inr (Nat.add_lt_add_right ha _)
      · exact .inr (Nat.add_lt_add ha hrest)

theorem AlignmentSegment.same_or_longer (a : AlignmentSegment τ) :
    a.taken = a.words.map WordSegment.asWord ∨
      (a.words.map WordSegment.asWord).length < a.taken.length := by
  rw [taken]
  split
  · rename_i h
    exact .inr (by simp [h])
  · exact .inl rfl

theorem AlignmentSegment.taken_eq_iff (a : AlignmentSegment τ) :
    a.taken = a.words.map WordSegment.asWord ↔ a.words ≠ [] := by
  by_cases h : a.words = []
  · simp [taken, h]
  · simp [taken, h]

theorem SpeechSegment.same_or_longer (s : SpeechSegment τ) :
    s.Filled ∧ s.taken = s.nestedWords ∨
      ¬ s.Filled ∧ s.nestedWords.length < s.taken.length := by
  by_cases h : s.alignments = []
  · refine .inr ⟨fun hf => hf.1 h, ?_⟩
    simp [taken, nestedWords, h]
  · rw [taken, if_neg h, nestedWords, Filled]
    rcases flatMap_same_or_longer fun a (_ : a ∈ s.alignments) => a.same_or_longer with hall | hlonger
    · exact .inl ⟨⟨h, fun a ha => a.taken_eq_iff.mp (hall a ha)⟩, List.flatMap_congr hall⟩
    · refine .inr ⟨fun hf => ?_, hlonger⟩
      have heq : s.alignments.flatMap AlignmentSegment.taken =
          s.alignments.flatMap fun a => a.words.map WordSegment.asWord :=
        List.flatMap_congr fun a ha => a.taken_eq_iff.mpr (hf.2 a ha)
      exact lt_irrefl _ (heq ▸ hlonger)

theorem SpeechSegment.taken_eq_nestedWords_iff (s : SpeechSegment τ) :
    s.taken = s.nestedWords ↔ s.Filled := by
  rcases s.same_or_longer with ⟨hf, heq⟩ | ⟨hf, hlt⟩
  · exact iff_of_true heq hf
  · exact iff_of_false (fun heq => lt_irrefl _ (heq ▸ hlt)) hf

/-- **Aligner output is flattened exactly** when no list in it is empty. -/
theorem flattened_exactly (repr : Shape τ → String) (windows : List (SpeechSegment τ)) :
    wordsBySpeech repr (windows.map SpeechSegment.shape) =
        .ok (windows.map SpeechSegment.nestedWords) ↔
      ∀ s ∈ windows, s.Filled := by
  rw [wordsBySpeech_shape, Except.ok.injEq, List.map_inj_left]
  exact forall₂_congr fun s _ => s.taken_eq_nestedWords_iff

/-- So is the flat list, which `task=align` cuts apart again by counting. -/
theorem wordsFromAlignments_shape (windows : List (SpeechSegment τ)) :
    wordsFromAlignments repr (windows.map SpeechSegment.shape) =
        .ok (windows.flatMap SpeechSegment.nestedWords) ↔
      ∀ s ∈ windows, s.Filled := by
  have htaken : wordsFromAlignments repr (windows.map SpeechSegment.shape) =
      .ok (windows.flatMap SpeechSegment.taken) := by
    rw [wordsFromAlignments, wordsBySpeech_shape]
    rfl
  rw [htaken, Except.ok.injEq, ← forall₂_congr fun s _ => s.taken_eq_nestedWords_iff]
  refine ⟨fun heq => ?_, List.flatMap_congr⟩
  refine (flatMap_same_or_longer fun s _ => ?_).resolve_right (heq ▸ lt_irrefl _)
  exact s.same_or_longer.imp And.right And.right

end Taken

/-- A window with nothing but punctuation in it, so that no words were aligned. -/
def silentWindow : SpeechSegment ℚ where
  text := "..."
  start := 0
  stop := 2
  alignments := []

/-- The window itself becomes a word. -/
theorem window_for_a_word :
    [silentWindow].map SpeechSegment.nestedWords = [[]] ∧
      wordsBySpeech (fun _ => "SpeechSegment") ([silentWindow].map SpeechSegment.shape) =
        .ok [[⟨"...", 0, 2, none⟩]] ∧
      wordsBySpeech (fun _ => "SpeechSegment") ([silentWindow].map SpeechSegment.shape) ≠
        .ok ([silentWindow].map SpeechSegment.nestedWords) := by
  have hstrip : pyStrip "..." = "..." := by decide +kernel
  have htaken : silentWindow.taken = [⟨"...", 0, 2, none⟩] := by
    rw [SpeechSegment.taken, if_pos (show silentWindow.alignments = [] from rfl), WordSegment.asWord]
    simp only [silentWindow, hstrip]
  have hwords : wordsBySpeech (fun _ => "SpeechSegment") ([silentWindow].map SpeechSegment.shape) =
      .ok [[⟨"...", 0, 2, none⟩]] := by
    rw [wordsBySpeech_shape, List.map_singleton, htaken]
  refine ⟨rfl, hwords, fun h => ?_⟩
  rw [hwords] at h
  cases h

end Vemsa.Pipeline
